/-!
# Checked 64-bit arithmetic

Every quantity of the allocator lives in a 64-bit word. Arithmetic never wraps:
a result that does not fit is an `Overflow`, and the calculation stops there.
Each operation is characterised by the natural number it computes.
-/

namespace Highmem

/-- How many numbers a word can hold: two to the power of 64. -/
abbrev wordCount : Nat := 0x10000000000000000

/-- A calculation whose result does not fit its destination. -/
inductive Overflow where
  | add
  | sub
  | mul
  /-- A value written to a field of `width` bits. -/
  | field (width : Nat)
  deriving DecidableEq

def Overflow.message : Overflow → String
  | .add => "attempt to add with overflow"
  | .sub => "attempt to subtract with overflow"
  | .mul => "attempt to multiply with overflow"
  | .field width => s!"value out of bounds [0, {(1 <<< width) - 1}]"

namespace Word

def add (a b : Nat) : Except Overflow Nat :=
  if a + b < wordCount then .ok (a + b) else .error .add

def sub (a b : Nat) : Except Overflow Nat :=
  if b ≤ a then .ok (a - b) else .error .sub

def mul (a b : Nat) : Except Overflow Nat :=
  if a * b < wordCount then .ok (a * b) else .error .mul

theorem add_eq_ok_iff {a b x : Nat} : add a b = .ok x ↔ a + b < wordCount ∧ x = a + b := by
  unfold add
  split <;> grind

theorem sub_eq_ok_iff {a b x : Nat} : sub a b = .ok x ↔ b ≤ a ∧ x = a - b := by
  unfold sub
  split <;> grind

theorem mul_eq_ok_iff {a b x : Nat} : mul a b = .ok x ↔ a * b < wordCount ∧ x = a * b := by
  unfold mul
  split <;> grind

end Word

end Highmem
