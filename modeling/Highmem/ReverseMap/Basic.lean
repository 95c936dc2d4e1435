import Highmem.Cyclic
import Highmem.Operation

/-!
# Reverse pointers

A bound frame has no room for its own slot address, so the addresses are kept in
a hashed table of fixed capacity. A binding is stored in the first cell that was
empty when it came, counted cyclically from the frame's home cell. A search
follows the same path and ends at the frame, at an empty cell, or after one
whole round.

All operations read the table through `probe`, which says how the path of a
frame ends. Seen from outside the table is a partial map: `get?` reads it, and
`insert` changes it unless a new frame finds no empty cell.
-/

namespace Highmem

/-- The address that a frame is bound to. -/
@[ext] structure Binding where
  frame : Frame
  address : VirtAddr
  deriving DecidableEq

/-- A table of bindings with room for `capacity` frames. -/
@[ext] structure ReverseMap (capacity : Nat) where
  cells : Vector (Option Binding) capacity
  /-- Number of bindings. -/
  size : Nat
  pos : 0 < capacity

namespace ReverseMap

variable {c : Nat}

def empty (pos : 0 < c) : ReverseMap c := ⟨Vector.replicate c none, 0, pos⟩

def isEmpty (m : ReverseMap c) : Bool := m.size = 0

/-- How the search for a frame ends. -/
inductive Probe (c : Nat) where
  /-- The frame is in this cell. -/
  | hit (i : Fin c)
  /-- The frame is absent, and this is the first empty cell of its path. -/
  | vacant (i : Fin c)
  /-- The frame is absent, and every cell holds another one. -/
  | exhausted
  deriving DecidableEq

def cell (m : ReverseMap c) (i : Fin c) : Option Binding := m.cells.get i

def write (m : ReverseMap c) (i : Fin c) (b : Option Binding) : ReverseMap c :=
  { m with cells := m.cells.set i b i.isLt }

@[simp] theorem cell_empty (pos : 0 < c) (i : Fin c) : (empty pos).cell i = none :=
  Vector.getElem_replicate i.isLt

@[simp] theorem cell_write_self (m : ReverseMap c) (i : Fin c) (b : Option Binding) :
    (m.write i b).cell i = b :=
  Vector.getElem_set_self i.isLt

theorem cell_write_of_ne (m : ReverseMap c) {i j : Fin c} (b : Option Binding) (h : i ≠ j) :
    (m.write i b).cell j = m.cell j :=
  Vector.getElem_set_ne i.isLt j.isLt fun e => h (Fin.ext e)

/-- The cell at which the path of a frame begins. Multiplying by a word over
the golden ratio spreads neighbouring frame numbers; the upper half of the product
is the better one. -/
def home (pos : 0 < c) (f : Frame) : Fin c :=
  ⟨f.number * 0x9E3779B97F4A7C15 % wordCount / 0x100000000 % c, Nat.mod_lt _ pos⟩

/-- Search the `left` cells from `i` on. -/
def probeFrom (m : ReverseMap c) (f : Frame) : (i : Fin c) → (left : Nat) → Probe c
  | _, 0 => .exhausted
  | i, left + 1 =>
    match m.cell i with
    | none => .vacant i
    | some b => if b.frame = f then .hit i else probeFrom m f (Cyclic.next i) left

/-- Search the whole path of a frame. -/
def probe (m : ReverseMap c) (f : Frame) : Probe c := m.probeFrom f (home m.pos f) c

/-- The cell that holds a frame. -/
def position? (m : ReverseMap c) (f : Frame) : Option (Fin c) :=
  match m.probe f with
  | .hit i => some i
  | _ => none

def get? (m : ReverseMap c) (f : Frame) : Option VirtAddr :=
  (m.position? f).bind fun i => (m.cell i).map Binding.address

def insert (f : Frame) (va : VirtAddr) : Op (ReverseMap c) Unit := do
  let m ← get
  match m.probe f with
  | .hit i => set (m.write i (some ⟨f, va⟩))
  | .vacant i => set { m.write i (some ⟨f, va⟩) with size := m.size + 1 }
  | .exhausted => Op.fail (.reverseFull c f)

/-- A search ends at once at an empty cell. -/
theorem probeFrom_of_cell_eq_none {m : ReverseMap c} {f : Frame} {i : Fin c} {left : Nat}
    (vacant : m.cell i = none) (some_left : 0 < left) : m.probeFrom f i left = .vacant i := by
  cases left with
  | zero => exact absurd some_left (Nat.lt_irrefl 0)
  | succ left => rw [probeFrom, vacant]

/-- A table without bindings binds no frame. -/
theorem get?_empty (pos : 0 < c) (f : Frame) : (empty pos).get? f = none := by
  have vacant : (empty pos).probe f = .vacant (home pos f) :=
    probeFrom_of_cell_eq_none (cell_empty pos _) pos
  rw [get?, position?, vacant]
  exact Option.bind_none _

end ReverseMap

end Highmem
