import Highmem.Text
import Highmem.Word

/-!
# Addresses and frames

`VirtAddr` is an address that the page table translates, `PhysAddr` an address
of physical memory, and `Frame` a 4 KiB page of physical memory. They are
different types, so a frame cannot stand where a slot address is expected.

An address is a natural number that fits a word. A frame is identified by its
number, so that its base is page aligned by construction and every base is an
address.
-/

namespace Highmem

/-- Bytes of a page, and of a frame. -/
def pageSize : Nat := 4096

/-- The page size as a power of two. -/
def pageShift : Nat := 12

theorem shiftLeft_pageShift : 1 <<< pageShift = pageSize := rfl

/-- How many frames the physical address space has: two to the power of 52. -/
abbrev frameCount : Nat := 0x10000000000000

theorem frameCount_mul_pageSize : frameCount * pageSize = wordCount := rfl

/-- An address of the kernel's translated address space. -/
@[ext] structure VirtAddr where
  toNat : Nat
  isLt : toNat < wordCount
  deriving DecidableEq

/-- An address of physical memory. -/
@[ext] structure PhysAddr where
  toNat : Nat
  isLt : toNat < wordCount
  deriving DecidableEq

/-- A page-sized piece of physical memory. -/
@[ext] structure Frame where
  number : Nat
  isLt : number < frameCount
  deriving DecidableEq

namespace VirtAddr

/-- The address with a given numeric value, if the value is a word. -/
def ofNat? (x : Nat) : Option VirtAddr :=
  if h : x < wordCount then some ⟨x, h⟩ else none

def zero : VirtAddr := ⟨0, by decide⟩

instance : LE VirtAddr := ⟨fun a b => a.toNat ≤ b.toNat⟩
instance : LT VirtAddr := ⟨fun a b => a.toNat < b.toNat⟩
instance : Ord VirtAddr := ⟨fun a b => compare a.toNat b.toNat⟩
instance (a b : VirtAddr) : Decidable (a ≤ b) := inferInstanceAs (Decidable (a.toNat ≤ b.toNat))
instance (a b : VirtAddr) : Decidable (a < b) := inferInstanceAs (Decidable (a.toNat < b.toNat))
instance : ToString VirtAddr := ⟨fun a => Text.hex64 a.toNat⟩

def label (a : VirtAddr) : String := s!"VA({a})"

def pageOffset (a : VirtAddr) : Nat := a.toNat % pageSize

def isPageAligned (a : VirtAddr) : Bool := a.pageOffset = 0

/-- First address of the page that holds `a`. -/
def pageStart (a : VirtAddr) : VirtAddr :=
  ⟨a.toNat - a.pageOffset, Nat.lt_of_le_of_lt (Nat.sub_le _ _) a.isLt⟩

/-- The address `bytes` further up. -/
def add (a : VirtAddr) (bytes : Nat) : Except Overflow VirtAddr :=
  if h : a.toNat + bytes < wordCount then .ok ⟨a.toNat + bytes, h⟩ else .error .add

def sub (a b : VirtAddr) : Except Overflow Nat := Word.sub a.toNat b.toNat

/-- Bytes from `base` up to `a`, unless `a` lies below `base`. -/
def bytesSince? (a base : VirtAddr) : Option Nat :=
  if base.toNat ≤ a.toNat then some (a.toNat - base.toNat) else none

/-- Whole pages from `base` up to `a`, unless `a` lies below `base`. -/
def pagesSince? (a base : VirtAddr) : Option Nat :=
  (a.bytesSince? base).map (· / pageSize)

theorem add_eq_ok_iff {a b : VirtAddr} {bytes : Nat} :
    a.add bytes = .ok b ↔ b.toNat = a.toNat + bytes := by
  unfold add
  split
  · simp [VirtAddr.ext_iff, eq_comm]
  · have := b.isLt
    simp
    omega

theorem add_eq_error_iff {a : VirtAddr} {bytes : Nat} {o : Overflow} :
    a.add bytes = .error o ↔ wordCount ≤ a.toNat + bytes ∧ o = .add := by
  unfold add
  split <;> grind

theorem bytesSince?_eq_some_iff {a base : VirtAddr} {k : Nat} :
    a.bytesSince? base = some k ↔ a.toNat = base.toNat + k := by
  unfold bytesSince?
  split <;> simp <;> omega

theorem pagesSince?_eq_some_iff {a base : VirtAddr} {k : Nat} :
    a.pagesSince? base = some k ↔
      base.toNat ≤ a.toNat ∧ k = (a.toNat - base.toNat) / pageSize := by
  unfold pagesSince? bytesSince?
  split <;> grind

theorem isPageAligned_iff {a : VirtAddr} : a.isPageAligned = true ↔ a.toNat % pageSize = 0 := by
  exact decide_eq_true_iff

end VirtAddr

namespace PhysAddr

/-- The address with a given numeric value, if the value is a word. -/
def ofNat? (x : Nat) : Option PhysAddr :=
  if h : x < wordCount then some ⟨x, h⟩ else none

def zero : PhysAddr := ⟨0, by decide⟩

instance : LE PhysAddr := ⟨fun a b => a.toNat ≤ b.toNat⟩
instance : LT PhysAddr := ⟨fun a b => a.toNat < b.toNat⟩
instance : Ord PhysAddr := ⟨fun a b => compare a.toNat b.toNat⟩
instance (a b : PhysAddr) : Decidable (a ≤ b) := inferInstanceAs (Decidable (a.toNat ≤ b.toNat))
instance (a b : PhysAddr) : Decidable (a < b) := inferInstanceAs (Decidable (a.toNat < b.toNat))
instance : ToString PhysAddr := ⟨fun a => Text.hex64 a.toNat⟩

def label (a : PhysAddr) : String := s!"PA({a})"

def frameOffset (a : PhysAddr) : Nat := a.toNat % pageSize

/-- The address `bytes` further up. -/
def add (a : PhysAddr) (bytes : Nat) : Except Overflow PhysAddr :=
  if h : a.toNat + bytes < wordCount then .ok ⟨a.toNat + bytes, h⟩ else .error .add

def frame (a : PhysAddr) : Frame :=
  ⟨a.toNat / pageSize,
    Nat.div_lt_of_lt_mul (by rw [Nat.mul_comm, frameCount_mul_pageSize]; exact a.isLt)⟩

end PhysAddr

namespace Frame

/-- The frame whose base is `number` pages up, counted in a 64-bit word: bits of
`number` beyond the fifty-second are lost. -/
def ofNumber (number : Nat) : Frame := ⟨number % frameCount, Nat.mod_lt _ (by decide)⟩

def base (f : Frame) : PhysAddr :=
  ⟨f.number * pageSize,
    frameCount_mul_pageSize ▸ Nat.mul_lt_mul_of_pos_right f.isLt (by decide)⟩

instance : Ord Frame := ⟨fun a b => compare a.number b.number⟩
instance : ToString Frame := ⟨fun f => toString f.base⟩

def label (f : Frame) : String := s!"PhysicalPage({f})"

theorem ofNumber_number (f : Frame) : ofNumber f.number = f := by
  ext
  exact Nat.mod_eq_of_lt f.isLt

theorem number_ofNumber {number : Nat} (h : number < frameCount) :
    (ofNumber number).number = number := Nat.mod_eq_of_lt h

/-- A frame is the one that holds its base. -/
theorem frame_base (f : Frame) : f.base.frame = f := by
  ext
  simp [PhysAddr.frame, base, pageSize]

theorem toNat_base (f : Frame) : f.base.toNat = f.number * pageSize := rfl

end Frame

end Highmem
