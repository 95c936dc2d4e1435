import Highmem.Proofs.Paging.Shadow
import Highmem.Proofs.Pool.Create
import Highmem.Proofs.Session.Replies

/-!
# Filling a window

The slots of a new pool are handed out in turn: a request that finds a free slot at the
cursor takes it, without a pass. Only the first request has none ahead of it.
-/

namespace Highmem

open Paging Sync

variable {n c : Nat}

namespace Pool

variable {p : Pool n c} {nr : Fin n} {f : Frame} {first k : Nat}

/-- A free slot at the cursor is found without a pass. -/
theorem ahead?_of_free (later : p.cursor.val ≠ 0) (free : p.slot p.cursor = .free) :
    p.ahead? = some p.cursor := by
  have inside : p.cursor.val < (List.finRange n).length := by
    rw [List.length_finRange]
    exact p.cursor.isLt
  have vacant : p.freeAt p.cursor = true := Slot.isFree_iff.mpr free
  rw [ahead?, if_neg later, List.drop_eq_getElem_cons inside, List.getElem_finRange]
  exact List.find?_cons_of_pos vacant

/-- A request that finds a slot ahead binds it and moves the cursor on. -/
theorem Attempts.of_ahead {o : Outcome (Pool n c) Grant} (ends : p.Attempts f o)
    (unbound : ∀ other, (p.slot other).frame? ≠ some f) (narrow : f.number < 1 <<< 40)
    (ahead : p.ahead? = some nr) :
    o.events = [.mapped (p.address nr) f, .bound f nr (p.address nr)] ∧
      o.state.cursor = Cyclic.next nr ∧
        ∀ other, o.state.slot other = if other = nr then .held f .one else p.slot other := by
  have passes : p.ahead? ≠ none := by
    rw [ahead]
    exact nofun
  cases ends with
  | shared bound => exact absurd bound (unbound _)
  | bound _ search _ becomes =>
      cases search with
      | ahead found =>
          obtain rfl := Option.some.inj (ahead.symm.trans found)
          exact ⟨rfl, becomes.elsewhere.cursor_eq, becomes.slot_eq⟩
      | around nothing => exact absurd nothing passes
  | parked _ search =>
      cases search with
      | full nothing => exact absurd nothing passes
  | tooWide _ _ wide => exact absurd narrow (Nat.not_lt_of_le wide)
  | aborted _ nothing => exact absurd nothing passes

/-- The slots from `first` on and below `k` are held for the frames of their numbers, the
others are free, and the next scan begins at slot `k`. -/
structure Filled (p : Pool n c) (first k : Nat) : Prop where
  cursor_eq : p.cursor.val = k % n
  slot_eq : ∀ nr, p.slot nr =
    if first ≤ nr.val ∧ nr.val < k then .held (.ofNumber nr) .one else .free

theorem ofNumber_ne {i j : Nat} (below : i < j) (small : j < frameCount) :
    Frame.ofNumber i ≠ Frame.ofNumber j := by
  intro same
  have numbers := congrArg Frame.number same
  rw [Frame.number_ofNumber small, Frame.number_ofNumber (below.trans small)] at numbers
  exact Nat.ne_of_lt below numbers

/-- In a pool that is not filled yet every slot is free. -/
theorem Filled.slot_eq_free (filled : p.Filled first 0) (nr : Fin n) : p.slot nr = .free := by
  simp [filled.slot_eq]

theorem Filled.unbound (filled : p.Filled first k) {j : Nat} (above : k ≤ j)
    (small : j < frameCount) (nr : Fin n) : (p.slot nr).frame? ≠ some (.ofNumber j) := by
  rw [filled.slot_eq]
  split
  · rename_i inside
    exact fun bound => ofNumber_ne (inside.2.trans_le above) small (Option.some.inj bound)
  · exact nofun

/-- A new pool is not filled yet. -/
theorem filled_of_create {size : Size n} {base : VirtAddr} {pool : Pool n n}
    (created : create size base = .ok pool) (first : Nat) : pool.Filled first 0 := by
  constructor
  · rw [cursor_of_create created, Nat.zero_mod]
  · simp [slot_of_create created]

end Pool

namespace Session

variable {s : Session n c} {first k : Nat}

/-- A request for a slot for the frame with a given number. -/
def ask (k : Nat) : Move := .submit ⟨.ofNumber k, .slots, none⟩

def asks (k : Nat) : List Move := (List.range k).map ask

theorem asks_succ (k : Nat) : asks (k + 1) = asks k ++ [ask k] := by
  simp [asks, List.range_succ]

theorem asks?_ask (k : Nat) : s.asks? (ask k) = some (.ofNumber k) := rfl

theorem run_ask (consistent : s.pool.Consistent) (k : Nat) :
    ∃ o, s.pool.Attempts (.ofNumber k) o ∧ (s.after (ask k)).pool = o.state ∧
      s.emitted (ask k) = o.events := by
  let r : Request := ⟨.ofNumber k, .slots, none⟩
  have high : ¬ (r.route = .split ∧ s.direct.covers r.frame) := fun low => nomatch low.1
  obtain ⟨kept, result, -, run⟩ := run_submit_pool s high
  unfold after emitted
  rw [ask, step, run]
  exact ⟨_, consistent.run_attempt _, rfl, rfl⟩

/-- The next request is granted the next slot, without a pass. -/
theorem filled_succ (consistent : s.pool.Consistent) (filled : s.pool.Filled first k)
    (pos : 0 < k) (behind : first ≤ k) (more : k < n) :
    (s.after (ask k)).pool.Filled first (k + 1) ∧ invalidations (s.emitted (ask k)) = 0 := by
  have room := s.pool.fits
  have small : k < 1 <<< 40 := (more.trans_le room).trans (by decide)
  have here : s.pool.cursor.val = k := filled.cursor_eq.trans (Nat.mod_eq_of_lt more)
  have free : s.pool.slot s.pool.cursor = .free := by
    rw [filled.slot_eq, if_neg fun inside => Nat.ne_of_lt inside.2 here]
  have narrow : (Frame.ofNumber k).number < 1 <<< 40 := (Nat.mod_le k frameCount).trans_lt small
  have ahead := Pool.ahead?_of_free (here.symm ▸ Nat.ne_of_gt pos) free
  obtain ⟨o, ends, pool, emits⟩ := run_ask consistent k
  obtain ⟨events, cursor, slots⟩ := ends.of_ahead
    (filled.unbound (Nat.le_refl k) (small.trans (by decide))) narrow ahead
  rw [pool, emits, events]
  refine ⟨⟨?_, fun nr => ?_⟩, rfl⟩
  · rw [cursor, Cyclic.val_next, here]
  · rw [slots, filled.slot_eq]
    by_cases same : nr = s.pool.cursor
    · have number : nr.val = k := (congrArg Fin.val same).trans here
      rw [if_pos same, if_pos ⟨number ▸ behind, number ▸ Nat.lt_succ_self k⟩, number]
    · have other : nr.val ≠ k := fun number => same (Fin.ext (number.trans here.symm))
      have below : nr.val < k ↔ nr.val < k + 1 := by omega
      rw [if_neg same]
      simp only [below]

/-- Once the first request is over, the others fill the slots up to `k`, without a pass. -/
theorem filled_asks (consistent : s.pool.Consistent)
    (begun : (s.after (ask 0)).pool.Filled first 1) (low : first ≤ 1) (pos : 0 < k)
    (all : k ≤ n) : (s.afterAll (asks k)).pool.Filled first k ∧
      invalidations (s.trace (asks k)) = invalidations (s.emitted (ask 0)) := by
  induction k, pos using Nat.le_induction with
  | base =>
      refine ⟨begun, ?_⟩
      change invalidations (s.emitted (ask 0) ++ []) = _
      rw [List.append_nil]
  | succ k pos ih =>
      obtain ⟨before, passes⟩ := ih (Nat.le_of_succ_le all)
      obtain ⟨further, quiet⟩ := filled_succ (consistent_afterAll consistent (asks k)) before pos
        (low.trans pos) all
      rw [asks_succ, trace_concat, invalidations_append, passes, quiet, afterAll_append]
      exact ⟨further, rfl⟩

end Session

end Highmem
