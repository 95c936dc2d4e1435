import Highmem.Cyclic

/-!
# Distances on a ring

`distance s x` counts the steps that lead from position `s` forward to `x`. Cut
open before `s`, the ring becomes the interval of these distances: a step adds
one to the distance until it returns to `s`, and the cyclic test `between` turns
into comparisons. Where the ring is cut is arbitrary, and `distance_shift` says
how the distances change with the cut.
-/

namespace Highmem.Cyclic

variable {n : Nat}

/-- Steps from `s` forward to `x`. -/
def distance (s x : Fin n) : Nat :=
  if s.val ≤ x.val then x.val - s.val else x.val + n - s.val

theorem distance_lt (s x : Fin n) : distance s x < n := by
  have hs := s.isLt
  have hx := x.isLt
  unfold distance
  split <;> omega

@[simp] theorem distance_self (s : Fin n) : distance s s = 0 := by
  unfold distance
  rw [if_pos (Nat.le_refl _), Nat.sub_self]

/-- Different positions have different distances. -/
theorem eq_of_distance_eq {s x y : Fin n} (h : distance s x = distance s y) : x = y := by
  have hs := s.isLt
  have hx := x.isLt
  have hy := y.isLt
  unfold distance at h
  apply Fin.ext
  split at h <;> split at h <;> omega

theorem distance_pos {s x : Fin n} (h : x ≠ s) : 0 < distance s x := by
  refine Nat.pos_of_ne_zero fun zero => h ?_
  exact eq_of_distance_eq (zero.trans (distance_self s).symm)

/-- Each step adds one to the distance, unless it leads back to the cut. -/
theorem distance_next {s i : Fin n} (h : next i ≠ s) :
    distance s (next i) = distance s i + 1 := by
  have hs := s.isLt
  have hi := i.isLt
  have hne : (next i).val ≠ s.val := fun e => h (Fin.ext e)
  unfold distance
  by_cases last : i.val + 1 = n
  · rw [val_next_of_last last] at hne ⊢
    split <;> split <;> omega
  · rw [val_next_of_lt (by omega)] at hne ⊢
    split <;> split <;> omega

/-- The position before the cut is the furthest one. -/
theorem distance_of_next_eq {s i : Fin n} (h : next i = s) : distance s i + 1 = n := by
  have hi := i.isLt
  subst h
  unfold distance
  by_cases last : i.val + 1 = n
  · rw [val_next_of_last last]
    split <;> omega
  · rw [val_next_of_lt (by omega)]
    split <;> omega

/-- The distances from another cut `t`. -/
theorem distance_shift (s t x : Fin n) :
    distance t x = if distance s t ≤ distance s x then distance s x - distance s t
      else distance s x + n - distance s t := by
  have hs := s.isLt
  have ht := t.isLt
  have hx := x.isLt
  unfold distance
  split <;> split <;> split <;> split <;> omega

/-- With the cut moved behind `v`, the positions behind `v` come first. -/
theorem distance_behind_of_lt (s : Fin n) {v x : Fin n} (h : distance s v < distance s x) :
    distance (next v) x = distance s x - distance s v - 1 := by
  have hx := distance_lt s x
  rw [distance_shift s (next v) x]
  by_cases wrap : next v = s
  · have last := distance_of_next_eq wrap
    omega
  · rw [distance_next wrap, if_pos (by omega)]
    omega

/-- With the cut moved behind `v`, the positions up to `v` come last. -/
theorem distance_behind_of_le (s : Fin n) {v x : Fin n} (h : distance s x ≤ distance s v) :
    distance (next v) x = distance s x + n - distance s v - 1 := by
  have hx := distance_lt s x
  rw [distance_shift s (next v) x]
  by_cases wrap : next v = s
  · have last := distance_of_next_eq wrap
    rw [wrap, distance_self, if_pos (Nat.zero_le _)]
    omega
  · rw [distance_next wrap, if_neg (by omega)]
    omega

/-- Starting one step later brings every other position one step closer. -/
theorem distance_next_left {i x : Fin n} (h : x ≠ i) :
    distance (next i) x + 1 = distance i x := by
  have hpos := distance_pos h
  rw [distance_behind_of_lt i (by rw [distance_self]; exact hpos), distance_self]
  omega

/-- The cyclic order, read off the distances from any cut. -/
theorem between_iff (s : Fin n) {i x j : Fin n} :
    between i x j = true ↔
      if distance s i ≤ distance s j then distance s i < distance s x ∧ distance s x ≤ distance s j
      else distance s i < distance s x ∨ distance s x ≤ distance s j := by
  have hs := s.isLt
  have hi := i.isLt
  have hx := x.isLt
  have hj := j.isLt
  unfold between distance
  simp only [Fin.le_def, Fin.lt_def]
  split <;> simp only [Bool.and_eq_true, Bool.or_eq_true, decide_eq_true_eq] <;>
    split <;> split <;> split <;> split <;> omega

end Highmem.Cyclic
