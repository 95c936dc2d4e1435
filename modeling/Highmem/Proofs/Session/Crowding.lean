import Highmem.Proofs.Pool.Choice
import Highmem.Proofs.Session.Faults
import Highmem.Proofs.Session.Filling

/-!
# Passes that free nothing

Where every slot is held, each request for another frame runs a pass that finds no stale slot,
and its caller falls asleep. So a run can come to any number of passes that the counters have
room for, with every slot held: `filled_crowd`.
-/

namespace Highmem

open Paging Sync

variable {n c : Nat}

namespace Pool

variable {p : Pool n c} {f : Frame} {nr : Fin n}

/-- A request that finds no slot ahead binds the lowest one that nobody held, after a pass. -/
theorem Attempts.of_around {o : Outcome (Pool n c) Grant} (ends : p.Attempts f o)
    (reach : p.Reaches) (room : ¬ p.Exhausted)
    (unbound : ∀ other, (p.slot other).frame? ≠ some f) (narrow : f.number < 1 <<< 40)
    (nothing : p.ahead? = none) (lowest : p.lowest? = some nr) :
    invalidations o.events = 1 ∧ o.state.cursor = Cyclic.next nr ∧
      ∀ other, o.state.slot other =
        if other = nr then .held f .one else (p.slot other).swept := by
  cases ends with
  | shared bound => exact absurd bound (unbound _)
  | bound _ search _ becomes =>
      cases search with
      | ahead found =>
          rw [found] at nothing
          cases nothing
      | @around _ q _ _ pass found =>
          obtain rfl := Option.some.inj (lowest.symm.trans found)
          refine ⟨?_, becomes.elsewhere.cursor_eq, fun other => ?_⟩
          · rw [invalidations_append, pass.counts.2]
            rfl
          · have swept : (q.letIn p.staleCount).slot other = (p.slot other).swept :=
              (slot_letIn q _ other).trans (pass.swept.slot_eq other)
            rw [← swept]
            exact becomes.slot_eq other
  | parked _ search =>
      cases search with
      | full _ _ none =>
          rw [lowest] at none
          cases none
  | tooWide _ _ wide => exact absurd narrow (Nat.not_lt_of_le wide)
  | aborted _ _ pass => exact absurd (pass.exhausted reach) room

/-- Where every slot is held, a request for another frame runs a pass and comes to the first
slot again. -/
theorem Attempts.of_full {o : Outcome (Pool n c) Grant} (ends : p.Attempts f o)
    (reach : p.Reaches) (room : ¬ p.Exhausted)
    (unbound : ∀ other, (p.slot other).frame? ≠ some f) (held : ∀ nr, (p.slot nr).isHeld = true) :
    invalidations o.events = 1 ∧ o.state.cursor = p.firstSlot ∧
      ∀ other, o.state.slot other = (p.slot other).swept := by
  obtain ⟨ticket, parked⟩ := ends.parked_of_held reach room unbound held
  cases ends with
  | parked _ search =>
      cases search with
      | @full q _ _ pass =>
          refine ⟨?_, rfl, fun other => ?_⟩
          · rw [invalidations_append, pass.counts.2]
            rfl
          · exact (slot_letIn q _ other).trans (pass.swept.slot_eq other)
  | shared => cases parked
  | bound => cases parked
  | tooWide => cases parked
  | aborted => cases parked

theorem Filled.isHeld (full : p.Filled 0 n) (nr : Fin n) : (p.slot nr).isHeld = true := by
  simp [full.slot_eq, Slot.isHeld]

end Pool

namespace Session

variable {s : Session n c} {k : Nat}

/-- Within the reach of addresses the first request is granted the first slot, after a pass. -/
theorem filled_one_of_reach (consistent : s.pool.Consistent) (reach : s.pool.Reaches)
    (room : ¬ s.pool.Exhausted) (filled : s.pool.Filled 0 0) :
    (s.after (ask 0)).pool.Filled 0 1 ∧ invalidations (s.emitted (ask 0)) = 1 := by
  have start : s.pool.cursor.val = 0 := filled.cursor_eq.trans (Nat.zero_mod n)
  have least : IsLeast s.pool.unheld s.pool.firstSlot := by
    refine ⟨?_, fun nr _ => Nat.zero_le nr⟩
    simp [Pool.unheld, filled.slot_eq_free, Slot.isHeld]
  obtain ⟨o, ends, pool, emits⟩ := run_ask consistent 0
  obtain ⟨once, cursor, slots⟩ := ends.of_around reach room
    (filled.unbound (Nat.le_refl 0) (by decide)) (by decide) (if_pos start)
    (Pool.lowest?_eq_some_iff.mpr least)
  rw [pool, emits]
  refine ⟨⟨?_, fun nr => ?_⟩, once⟩
  · rw [cursor]
    rfl
  · rw [slots, filled.slot_eq_free]
    by_cases first : nr = s.pool.firstSlot
    · rw [if_pos first, first]
      rfl
    · have later : ¬ nr.val < 1 := fun low => first (Fin.ext (Nat.lt_one_iff.mp low))
      rw [if_neg first, if_neg fun inside => later inside.2]
      rfl

/-- Requests that fill all `n` slots, and `k` more for a frame that then finds none. -/
def crowd (n k : Nat) : List Move := asks n ++ List.replicate k (ask n)

/-- Where every slot is held, a request for another frame costs a pass and changes no slot. -/
theorem filled_full (consistent : s.pool.Consistent) (reach : s.pool.Reaches)
    (room : ¬ s.pool.Exhausted) (full : s.pool.Filled 0 n) :
    (s.after (ask n)).pool.Filled 0 n ∧ invalidations (s.emitted (ask n)) = 1 := by
  have small : n < frameCount := s.pool.fits.trans_lt (by decide)
  obtain ⟨o, ends, pool, emits⟩ := run_ask consistent n
  obtain ⟨once, cursor, slots⟩ := ends.of_full reach room
    (full.unbound (Nat.le_refl n) small) full.isHeld
  rw [pool, emits]
  refine ⟨⟨?_, fun nr => ?_⟩, once⟩
  · rw [cursor, Nat.mod_self]
    rfl
  · rw [slots, full.slot_eq, if_pos ⟨Nat.zero_le nr, nr.isLt⟩]
    rfl

/-- So many of them cost as many passes. -/
theorem filled_replicate (consistent : s.pool.Consistent) (reach : s.pool.Reaches) {j : Nat}
    (counted : s.pool.Counted j) (few : j + k < Pool.passLimit) (full : s.pool.Filled 0 n) :
    (s.afterAll (List.replicate k (ask n))).pool.Filled 0 n ∧
      invalidations (s.trace (List.replicate k (ask n))) = k := by
  induction k generalizing s j with
  | zero => exact ⟨full, rfl⟩
  | succ k ih =>
      have here : j + 1 < Pool.passLimit := by omega
      have transition := run_step consistent (ask n)
      obtain ⟨full', once⟩ := filled_full consistent reach
        (counted.not_exhausted (Nat.lt_of_succ_lt here) (fun _ => here) reach) full
      have counted' := transition.flushes.counted j reach counted (by rw [once]; exact here)
      rw [once] at counted'
      obtain ⟨further, passes⟩ := ih (transition.consistent consistent)
        (reaches_afterAll consistent reach [ask n]) counted' (by omega) full'
      rw [List.replicate_succ, trace, invalidations_append, once, passes]
      exact ⟨further, Nat.add_comm 1 k⟩

/-- A run of a new pool can come to any number of passes that the counters have room for, with
every slot held. -/
theorem filled_crowd {size : Pool.Size n} {base : VirtAddr} {pool : Pool n n}
    (created : Pool.create size base = .ok pool) (reach : pool.Reaches) (direct : DirectMap)
    (few : k + 1 < Pool.passLimit) :
    ((start direct pool).afterAll (crowd n k)).pool.Filled 0 n ∧
      invalidations ((start direct pool).trace (crowd n k)) = k + 1 := by
  have fresh := Pool.consistent_of_create created
  have counted : pool.Counted 0 := Pool.counted_of_create created
  obtain ⟨begun, once⟩ := filled_one_of_reach (s := start direct pool) fresh reach
    (counted.not_exhausted (by decide) (fun _ => by decide) reach)
    (Pool.filled_of_create created 0)
  obtain ⟨full, passes⟩ := filled_asks (s := start direct pool) fresh begun (Nat.zero_le 1)
    size.1 (Nat.le_refl n)
  rw [once] at passes
  have counted := counted_afterAll created reach direct (asks n) (by rw [passes]; decide)
  rw [passes] at counted
  have few' : 1 + k < Pool.passLimit := Nat.add_comm k 1 ▸ few
  obtain ⟨further, more⟩ := filled_replicate
    (consistent_afterAll (s := start direct pool) fresh (asks n))
    (reaches_afterAll (s := start direct pool) fresh reach (asks n)) counted
    few' full
  rw [crowd, afterAll_append, trace_append, invalidations_append, passes, more]
  exact ⟨further, Nat.add_comm 1 k⟩

end Session

end Highmem
