import Highmem.Address

/-!
# Page-table entries

An entry of a leaf table is one 64-bit word. Its bits are divided, from bit zero
upwards and without gaps, into the fields listed by `Field.all`; a `Field` knows
where it begins and how many bits it has. Reading a field gives exactly that
many bits. Writing one is checked: a value that is too wide is refused, never
cut.

The slot window uses a single kind of entry, `Entry.leaf`.
-/

namespace Highmem.Paging

/-- A field of a page-table entry. -/
inductive Field where
  | present
  | writable
  | userAccess
  | writeThrough
  | cacheDisabled
  /-- Set by the processor on use. -/
  | accessed
  /-- Set by the processor on the first write. -/
  | dirty
  /-- Selects a memory type. -/
  | pat
  /-- Keeps the cached translation when address spaces are switched. -/
  | global
  /-- Free for the system's own use. -/
  | systemLow
  /-- Number of the mapped frame. -/
  | frame
  /-- Free for the system's own use. -/
  | systemHigh
  | noExecute
  deriving DecidableEq

namespace Field

/-- All fields, from the lowest bit up. -/
def all : List Field :=
  [present, writable, userAccess, writeThrough, cacheDisabled, accessed, dirty, pat, global,
    systemLow, frame, systemHigh, noExecute]

def width : Field → Nat
  | systemLow => 3
  | frame => 40
  | systemHigh => 11
  | _ => 1

/-- Position of the lowest bit. -/
def offset : Field → Nat
  | present => 0
  | writable => 1
  | userAccess => 2
  | writeThrough => 3
  | cacheDisabled => 4
  | accessed => 5
  | dirty => 6
  | pat => 7
  | global => 8
  | systemLow => 9
  | frame => 12
  | systemHigh => 52
  | noExecute => 63

/-- Whether the field is a yes or a no. -/
def isFlag (f : Field) : Bool := f.width = 1

def name : Field → String
  | present => "present"
  | writable => "writable"
  | userAccess => "user_access"
  | writeThrough => "write_through"
  | cacheDisabled => "cache_disabled"
  | accessed => "accessed"
  | dirty => "dirty"
  | pat => "pat"
  | global => "global_translation"
  | systemLow => "os_available_low"
  | frame => "frame_bits"
  | systemHigh => "os_available_high"
  | noExecute => "no_execute"

theorem mem_all (f : Field) : f ∈ all := by cases f <;> decide

theorem offset_add_width_le (f : Field) : f.offset + f.width ≤ 64 := by cases f <;> decide

end Field

/-- A page-table entry. -/
@[ext] structure Entry where
  word : BitVec 64
  deriving DecidableEq

namespace Entry

/-- The entry that maps nothing. -/
def zero : Entry := ⟨0⟩

def get (e : Entry) (f : Field) : BitVec f.width := e.word.extractLsb' f.offset f.width

/-- The entry with the bits of one field replaced. -/
def put (e : Entry) (f : Field) (bits : BitVec f.width) : Entry :=
  let mask := (BitVec.allOnes f.width).setWidth 64 <<< f.offset
  ⟨(e.word &&& ~~~mask) ||| (bits.setWidth 64 <<< f.offset)⟩

/-- The entry with one field set to a number, which must fit the field. -/
def set (e : Entry) (f : Field) (value : Nat) : Except Overflow Entry :=
  if value < 1 <<< f.width then .ok (e.put f (BitVec.ofNat f.width value))
  else .error (.field f.width)

def flag (e : Entry) (f : Field) : Bool := e.get f ≠ 0

/-- A kernel data mapping without its frame: present, writable, global and not executable. -/
def kernelData : Entry :=
  (((zero.put .present 1).put .writable 1).put .global 1).put .noExecute 1

/-- The entry that maps `frame` for the slot window. Only forty bits of a frame
number have room. -/
def leaf (frame : Frame) : Except Overflow Entry := kernelData.set .frame frame.number

def isNone (e : Entry) : Bool := !e.flag .present

def frame? (e : Entry) : Option Frame :=
  if e.flag .present then
    some ⟨(e.get .frame).toNat, Nat.lt_of_lt_of_le (e.get .frame).isLt (by decide)⟩
  else none

def fieldText (e : Entry) (f : Field) : String :=
  if f.isFlag then toString (e.flag f) else toString (e.get f).toNat

def label (e : Entry) : String :=
  Text.record "PtEntry" (Field.all.map fun f => (f.name, e.fieldText f))

instance : ToString Entry := ⟨fun e => Text.hex64 e.word.toNat⟩

theorem set_eq_error_iff {e : Entry} {f : Field} {value : Nat} {o : Overflow} :
    e.set f value = .error o ↔ 1 <<< f.width ≤ value ∧ o = .field f.width := by
  unfold set
  split <;> grind

/-- A leaf exists exactly for the frame numbers that fit the frame field. -/
theorem leaf_eq_error_iff {frame : Frame} {o : Overflow} :
    leaf frame = .error o ↔ 1 <<< 40 ≤ frame.number ∧ o = .field 40 := set_eq_error_iff

end Entry

end Highmem.Paging
