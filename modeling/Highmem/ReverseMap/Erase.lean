import Highmem.ReverseMap.Basic

/-!
# Removing a reverse pointer

Emptying a cell could cut the path of a binding stored further on. So the empty
cell, the *gap*, is moved: the cells after it are looked at in cyclic order, and
a binding whose home does not lie after the gap is moved into it, leaving the
gap where the binding was. The scan ends at the first other empty cell.

`Gap.step` is one look. Two rounds of looks are enough: in the first the gap may
move, and from its last place the scan comes back to it within another round.
-/

namespace Highmem.ReverseMap

variable {c : Nat}

/-- A table with a gap that is being closed. -/
@[ext] structure Gap (c : Nat) where
  cells : Vector (Option Binding) c
  /-- The empty cell. -/
  hole : Fin c
  /-- The cell looked at last. -/
  scan : Fin c

namespace Gap

theorem pos (g : Gap c) : 0 < c := Nat.zero_lt_of_lt g.hole.isLt

/-- Look at the next cell. A binding whose home lies after the hole and not after
its own cell is found without passing the hole, and stays; another one moves into
the hole. There is no step to an empty cell. -/
def step (g : Gap c) : Option (Gap c) :=
  let next := Cyclic.next g.scan
  match g.cells.get next with
  | none => none
  | some b =>
    if Cyclic.between g.hole (home g.pos b.frame) next then some { g with scan := next }
    else some ⟨(g.cells.set next none next.isLt).set g.hole (some b) g.hole.isLt, next, next⟩

/-- Step while there is a step, `looks` times at most. -/
def close : (looks : Nat) → Gap c → Gap c
  | 0, g => g
  | looks + 1, g =>
    match g.step with
    | none => g
    | some g' => close looks g'

end Gap

def erase (m : ReverseMap c) (f : Frame) : ReverseMap c :=
  match m.position? f with
  | none => m
  | some i => ⟨(Gap.close (2 * c) ⟨m.cells.set i none i.isLt, i, i⟩).cells, m.size - 1, m.pos⟩

/-- Bind a frame to an address, or to none. -/
def assign (f : Frame) : Option VirtAddr → Op (ReverseMap c) Unit
  | some va => insert f va
  | none => modify (·.erase f)

end Highmem.ReverseMap
