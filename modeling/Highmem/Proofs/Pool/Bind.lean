import Highmem.Pool.Acquire
import Highmem.Proofs.Pool.Consistent

/-!
# Sharing, binding and turning free a single slot

In a consistent pool each of these operations does what it is for, and its internal
assertions hold. `Becomes p slots q` describes the result: a consistent pool with
the given slots that agrees with `p` on everything but the bindings. The only fault
left is a frame number that has no room in a page-table entry, and it comes before
anything has been changed. Sharing a slot and turning one free need an intact pool only.
-/

namespace Highmem

open Paging Sync

/-- What an invalidation pass makes of a slot. -/
def Slot.swept : Slot → Slot
  | stale _ => free
  | s => s

@[simp] theorem Slot.isHeld_swept (s : Slot) : s.swept.isHeld = s.isHeld := by cases s <;> rfl

theorem Slot.swept_of_not_stale {s : Slot} (h : s.isStale = false) : s.swept = s := by
  cases s with
  | stale => cases h
  | free => rfl
  | held => rfl

theorem Slot.reclaim?_of_not_stale {s : Slot} (h : s.isStale = false) : s.reclaim? = none := by
  cases s with
  | stale => cases h
  | free => rfl
  | held => rfl

theorem Slot.exists_of_isStale {s : Slot} (h : s.isStale = true) : ∃ f, s = stale f := by
  cases s with
  | stale f => exact ⟨f, rfl⟩
  | free => cases h
  | held => cases h

/-- After a pass a slot is free or held. -/
theorem Slot.swept_eq_free {s : Slot} (h : s.isHeld = false) : s.swept = free := by
  cases s with
  | held => cases h
  | free => rfl
  | stale => rfl

/-- A pass binds nothing. -/
theorem Slot.frame?_of_swept {s : Slot} {f : Frame} (bound : s.swept.frame? = some f) :
    s.frame? = some f := by
  cases s with
  | free => exact bound
  | stale => cases bound
  | held => exact bound

theorem Slot.share?_of_bound {s : Slot} {f : Frame} (bound : s.frame? = some f) :
    ∃ t, s.share? = some t := by
  refine Option.ne_none_iff_exists'.mp fun unshared => ?_
  rw [Slot.share?_eq_none_iff.mp unshared] at bound
  cases bound

namespace Pool

variable {n c : Nat} {p q : Pool n c} {nr : Fin n} {i : Fin tableEntries} {f : Frame}

/-- A consistent pool with the given slots that agrees with `p` elsewhere. -/
structure Becomes (p : Pool n c) (slots : Fin n → Slot) (q : Pool n c) : Prop where
  consistent : q.Consistent
  elsewhere : SameElsewhere p q
  slot_eq : ∀ nr, q.slot nr = slots nr

theorem run_shareBound_unbound (unbound : p.reverse.get? f = none) :
    (shareBound f).run p = ⟨.ok none, p, []⟩ := by
  simp [shareBound, unbound]

/-- A bound frame is shared, whatever the other slots are. -/
theorem Intact.run_shareBound (intact : p.Intact) (bound : (p.slot nr).frame? = some f) :
    ∃ s, (p.slot nr).share? = some s ∧ s.frame? = (p.slot nr).frame? ∧
      (shareBound f).run p =
        ⟨.ok (some (p.address nr)), p.withSlot nr s, [.shared f nr s]⟩ := by
  obtain ⟨s, shared⟩ := Slot.share?_of_bound bound
  obtain ⟨i, placed⟩ := intact.placed nr f bound
  refine ⟨s, shared, Slot.frame?_of_share? shared, ?_⟩
  simp [shareBound, intact.get?_of_bound bound, placed.slotAt_eq, shared, putSlot, Except.map]

namespace Consistent

variable (consistent : p.Consistent)

include consistent

theorem run_shareBound (bound : (p.slot nr).frame? = some f) :
    ∃ s, (p.slot nr).share? = some s ∧ (p.withSlot nr s).Consistent ∧
      (shareBound f).run p =
        ⟨.ok (some (p.address nr)), p.withSlot nr s, [.shared f nr s]⟩ := by
  obtain ⟨s, shared, same, run⟩ := consistent.intact.run_shareBound bound
  exact ⟨s, shared, consistent.withSlot same, run⟩

/-- A free slot is bound to a frame without a slot. -/
theorem run_bindSlot (free : p.slot nr = .free) (unbound : p.reverse.get? f = none)
    (fits : f.number < 1 <<< 40) :
    ∃ q, (bindSlot nr f).run p =
        ⟨.ok (p.address nr), q, [.mapped (p.address nr) f, .bound f nr (p.address nr)]⟩ ∧
      p.Becomes (fun other => if other = nr then .held f .one else p.slot other) q := by
  obtain ⟨e, leaf⟩ := Entry.exists_leaf fits
  obtain ⟨reverse, insert, inserted⟩ :=
    consistent.sound.run_insert_absent unbound (consistent.size_lt free) (p.address nr)
  have vacant : (p.table.entry (p.index nr)).frame? = none := by
    rw [consistent.entry_eq, free]
    rfl
  have commit := LeafTable.run_commit (consistent.indexOf?_address nr) vacant leaf
  refine ⟨p.rebind nr (.held f .one) e reverse, ?_, ?_⟩
  · simp [bindSlot, onTable, onReverse, putSlot, consistent.pageAddress_eq, commit,
      free, Slot.bind?, Pool.withSlot, insert, rebind, Except.map]
  · exact ⟨consistent.bind free (Entry.frame?_of_leaf leaf) unbound inserted,
      rebind_sameElsewhere _ _ _ _ _, fun other => slot_rebind _ _ _ _ _ _⟩

/-- A frame number that has no room in an entry stops the binding at once. -/
theorem run_bindSlot_too_wide (free : p.slot nr = .free) (wide : 1 <<< 40 ≤ f.number) :
    (bindSlot nr f).run p = ⟨.error (.overflow (.field 40)), p, []⟩ := by
  have vacant : (p.table.entry (p.index nr)).frame? = none := by
    rw [consistent.entry_eq, free]
    rfl
  have commit := LeafTable.run_commit_too_wide (consistent.indexOf?_address nr) vacant wide
  simp [bindSlot, onTable, consistent.pageAddress_eq, commit]

end Consistent

/-- The event of turning a slot free, if it is stale. -/
def clearing (p : Pool n c) (nr : Fin n) : List Event :=
  if (p.slot nr).isStale then [.cleared (p.address nr)] else []

/-- A stale slot is turned free: its entry is cleared and its frame loses its pointer. -/
theorem Intact.run_reclaim_stale (intact : p.Intact) (placed : p.Placed nr i)
    (stale : p.slot nr = .stale f) :
    (Pool.reclaim nr).run p =
      ⟨.ok true, p.replaced nr .free i .zero (p.reverse.erase f), [.cleared (p.address nr)]⟩ := by
  have clear := LeafTable.run_clear placed.indexOf?_eq
  rw [intact.entry_eq nr i placed, stale] at clear
  simp [Pool.reclaim, stale, Slot.reclaim?, putSlot, onTable, onReverse, placed.pageAddress_eq,
    clear, Slot.frame?, Pool.withSlot, replaced, Except.map]

theorem Consistent.run_reclaim_stale (consistent : p.Consistent) (stale : p.slot nr = .stale f) :
    (Pool.reclaim nr).run p =
      ⟨.ok true, p.rebind nr .free .zero (p.reverse.erase f), [.cleared (p.address nr)]⟩ :=
  consistent.intact.run_reclaim_stale (consistent.placed nr) stale

/-- Any other slot is left alone. -/
theorem run_reclaim_fresh (fresh : (p.slot nr).isStale = false) :
    (Pool.reclaim nr).run p = ⟨.ok false, p, []⟩ := by
  simp [Pool.reclaim, Slot.reclaim?_of_not_stale fresh]

theorem Consistent.run_reclaim (consistent : p.Consistent) (nr : Fin n) :
    ∃ q, (Pool.reclaim nr).run p = ⟨.ok (p.slot nr).isStale, q, p.clearing nr⟩ ∧
      p.Becomes (fun other => if other = nr then (p.slot nr).swept else p.slot other) q := by
  by_cases stale : (p.slot nr).isStale = true
  · rw [clearing, if_pos stale, stale]
    obtain ⟨f, stale⟩ := Slot.exists_of_isStale stale
    have bound : (p.slot nr).frame? = some f := by
      rw [stale]
      rfl
    refine ⟨_, consistent.run_reclaim_stale stale, consistent.reclaim bound Entry.frame?_zero,
      rebind_sameElsewhere _ _ _ _ _, fun other => ?_⟩
    rw [slot_rebind, stale]
    rfl
  · have fresh := Bool.eq_false_iff.mpr stale
    rw [clearing, if_neg stale, fresh]
    refine ⟨p, run_reclaim_fresh fresh, consistent, SameElsewhere.refl p, fun other => ?_⟩
    rw [Slot.swept_of_not_stale fresh]
    split
    · rename_i here
      rw [here]
    · rfl

end Pool

end Highmem
