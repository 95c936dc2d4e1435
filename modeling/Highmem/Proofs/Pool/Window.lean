import Highmem.Proofs.Pool.Consistent
import Highmem.Proofs.Pool.Sweep

/-!
# The place of a window

The first address above a window is calculated whenever the place of the window is asked
for, and in every invalidation pass. It exists exactly if the window ends within the reach
of addresses. The addresses of the slots exist in either case.
-/

namespace Highmem.Pool

variable {n c : Nat} {p : Pool n c}

/-- The first address above a window that ends within the reach of addresses. -/
theorem Reaches.toNat_stop (reach : p.Reaches) :
    (p.base.page n).toNat = p.base.toNat + n * pageSize := Nat.mod_eq_of_lt reach

theorem Reaches.window_eq (reach : p.Reaches) : p.window = .ok (p.base, p.base.page n) := by
  have stop : p.pageAddress n = .ok (p.base.page n) :=
    VirtAddr.add_eq_ok_iff.mpr reach.toNat_stop
  rw [window, stop]
  rfl

theorem Reaches.contains_eq (reach : p.Reaches) (va : VirtAddr) :
    p.contains va = .ok (decide (p.base ≤ va) && decide (va < p.base.page n)) := by
  rw [contains, reach.window_eq]
  rfl

theorem window_eq_error (beyond : ¬ p.Reaches) : p.window = .error .add := by
  have stop : p.pageAddress n = .error .add :=
    VirtAddr.add_eq_error_iff.mpr ⟨Nat.le_of_not_lt beyond, rfl⟩
  rw [window, stop]
  rfl

theorem contains_eq_error (beyond : ¬ p.Reaches) (va : VirtAddr) :
    p.contains va = .error .add := by
  rw [contains, window_eq_error beyond]
  rfl

/-- Every slot lies in its window. -/
theorem Consistent.address_lt_stop (consistent : p.Consistent) (reach : p.Reaches) (nr : Fin n) :
    p.base ≤ p.address nr ∧ p.address nr < p.base.page n := by
  have here := consistent.toNat_address nr
  have stop := reach.toNat_stop
  have inside := Nat.mul_lt_mul_of_pos_right nr.isLt (show 0 < pageSize by decide)
  constructor
  · change p.base.toNat ≤ (p.address nr).toNat
    omega
  · change (p.address nr).toNat < (p.base.page n).toNat
    omega

end Highmem.Pool
