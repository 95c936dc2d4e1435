import Mathlib.Algebra.BigOperators.Fin
import Mathlib.Data.Finset.Option
import Mathlib.Data.Fintype.Card
import Mathlib.Data.Fintype.Fin

/-!
# Counting positions

`tally p` is the number of positions of a table that have the property `p`. The
operations of this library change one position at a time, so nearly every count
follows from `tally_succ`: it grows by one where a single position gains the
property.
-/

namespace Highmem

variable {n : Nat} {p q : Fin n → Bool}

/-- The number of positions with a property. -/
def tally (p : Fin n → Bool) : Nat := (Finset.univ.filter fun i => p i = true).card

theorem tally_congr (h : ∀ i, q i = p i) : tally q = tally p := by
  rw [funext h]

theorem tally_le (p : Fin n → Bool) : tally p ≤ n :=
  (Finset.card_filter_le _ _).trans_eq (Finset.card_fin n)

/-- A weaker property has at least as many positions. -/
theorem tally_mono (h : ∀ i, p i = true → q i = true) : tally p ≤ tally q := by
  apply Finset.card_le_card
  exact Finset.monotone_filter_right Finset.univ fun i _ => h i

/-- A single position gains the property. -/
theorem tally_succ (i : Fin n) (before : p i = false) (after : q i = true)
    (others : ∀ j, j ≠ i → q j = p j) : tally q = tally p + 1 := by
  have grown : (Finset.univ.filter fun j => q j = true) =
      insert i (Finset.univ.filter fun j => p j = true) := by
    ext j
    by_cases hj : j = i
    · subst hj
      simp [after]
    · simp [hj, others j hj]
  have fresh : i ∉ Finset.univ.filter fun j => p j = true := by simp [before]
  rw [tally, grown, Finset.card_insert_of_notMem fresh, tally]

theorem tally_eq_zero_iff : tally p = 0 ↔ ∀ i, p i = false := by
  simp [tally, Finset.filter_eq_empty_iff]

/-- Where some position lacks the property, not all are counted. -/
theorem tally_lt {i : Fin n} (h : p i = false) : tally p < n := by
  refine lt_of_lt_of_eq (Finset.card_lt_card ?_) (Finset.card_fin n)
  refine Finset.filter_ssubset.mpr ⟨i, Finset.mem_univ i, ?_⟩
  simp [h]

theorem tally_eq_of_forall (h : ∀ i, p i = true) : tally p = n := by
  simp [tally, h]

/-- A sum over all positions changes by what a single position changes by. -/
theorem sum_exchange {g g' : Fin n → Nat} (i : Fin n) (others : ∀ j, j ≠ i → g' j = g j) :
    ∑ j, g' j + g i = ∑ j, g j + g' i := by
  have rest : ∑ j ∈ Finset.univ.erase i, g' j = ∑ j ∈ Finset.univ.erase i, g j :=
    Finset.sum_congr rfl fun j mem => others j (Finset.ne_of_mem_erase mem)
  rw [← Finset.add_sum_erase _ g (Finset.mem_univ i),
    ← Finset.add_sum_erase _ g' (Finset.mem_univ i), rest]
  omega

/-- The entries of a table, by position. -/
theorem toList_eq {α : Type} (v : Vector α n) : v.toList = (List.finRange n).map v.get := by
  apply List.ext_getElem
  · simp
  · intro k hk hk'
    simp [Vector.get]

/-- Adding up the entries of a table is adding up positions. -/
theorem sum_toList {α : Type} (g : α → Nat) (v : Vector α n) :
    (v.toList.map g).sum = ∑ i, g (v.get i) := by
  rw [toList_eq, List.map_map, ← List.ofFn_eq_map, List.sum_ofFn]
  rfl

/-- Counting the entries of a table is counting positions. -/
theorem countP_toList {α : Type} (f : α → Bool) (v : Vector α n) :
    v.toList.countP f = tally fun i => f (v.get i) := by
  have positions : (Finset.univ.filter fun i => f (v.get i) = true) =
      ((List.finRange n).filter fun i => f (v.get i)).toFinset := by
    ext i
    simp
  rw [toList_eq, List.countP_map, List.countP_eq_length_filter, tally, positions,
    List.toFinset_card_of_nodup ((List.nodup_finRange n).filter _)]
  rfl

section Values

variable {α : Type} [DecidableEq α] {m : Nat} {g : Fin n → Option α} {h : Fin m → Option α}

/-- The values that a table with empty places holds. -/
def values (g : Fin n → Option α) : Finset α := Finset.univ.biUnion fun i => (g i).toFinset

theorem mem_values {a : α} : a ∈ values g ↔ ∃ i, g i = some a := by
  simp [values, Option.mem_toFinset]

/-- A table that holds no value twice holds as many values as places are filled. -/
theorem card_values (once : ∀ i j a, g i = some a → g j = some a → i = j) :
    (values g).card = tally fun i => (g i).isSome := by
  have apart : ∀ i ∈ Finset.univ, ∀ j ∈ Finset.univ, i ≠ j →
      Disjoint (g i).toFinset (g j).toFinset := by
    intro i _ j _ different
    rw [Finset.disjoint_left]
    intro a here there
    exact different (once i j a (Option.mem_toFinset.mp here) (Option.mem_toFinset.mp there))
  rw [values, Finset.card_biUnion apart, tally, Finset.card_filter]
  apply Finset.sum_congr rfl
  intro i _
  cases g i <;> rfl

/-- Of two tables that hold no value twice, where the first holds only values of the second:
they have as many filled places exactly if the second holds no other values. -/
theorem tally_eq_iff_values (once : ∀ i j a, g i = some a → g j = some a → i = j)
    (once' : ∀ i j a, h i = some a → h j = some a → i = j) (part : values g ⊆ values h) :
    (tally fun i => (h i).isSome) = (tally fun i => (g i).isSome) ↔ values h ⊆ values g := by
  rw [← card_values once, ← card_values once']
  constructor
  · intro same
    exact (Finset.eq_of_subset_of_card_le part same.le).symm.subset
  · intro whole
    rw [part.antisymm whole]

end Values

end Highmem
