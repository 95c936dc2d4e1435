/-!
# Positions on a ring

The positions of a table with `n` cells, taken cyclically: the first follows the
last. A position exists only where there is a cell, so `next` needs no further
assumption.
-/

namespace Highmem.Cyclic

variable {n : Nat}

def first (pos : 0 < n) : Fin n := ⟨0, pos⟩

def next (i : Fin n) : Fin n :=
  ⟨(i.val + 1) % n, Nat.mod_lt _ (Nat.zero_lt_of_lt i.isLt)⟩

/-- Whether `x` is met on the way from `i` to `j`, excluding `i` and including `j`. -/
def between (i x j : Fin n) : Bool :=
  if i ≤ j then i < x && x ≤ j else i < x || x ≤ j

theorem val_next (i : Fin n) : (next i).val = (i.val + 1) % n := rfl

/-- Away from the last position, the next one is the next number. -/
theorem val_next_of_lt {i : Fin n} (h : i.val + 1 < n) : (next i).val = i.val + 1 :=
  Nat.mod_eq_of_lt h

/-- After the last position comes the first. -/
theorem val_next_of_last {i : Fin n} (h : i.val + 1 = n) : (next i).val = 0 := by
  rw [val_next, h, Nat.mod_self]

end Highmem.Cyclic
