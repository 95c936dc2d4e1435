import Highmem.Proofs.Pool.Holders
import Highmem.Proofs.Session.Draws
import Highmem.Proofs.Session.Journal

/-!
# Conservation of holders

The holders of a frame are the grants of it that have not been given back, whichever
slots and addresses it went through in the meantime. `holdersOf_afterAll` says so for any
run that leaves room for one more holder at all times; the totals of the pool then add up
to the same.
-/

namespace Highmem.Session

open Paging Sync

variable {n c : Nat} {s : Session n c}

def grants (f : Frame) (js : List Note) : Nat := js.countP (Note.grants f)

/-- How often an address was given back while it was bound to a frame. -/
def releases (f : Frame) (js : List Note) : Nat := js.countP (Note.releases f)

/-- The holders of a frame change by what the journal of a run says. -/
theorem holdersOf_afterAll (consistent : s.pool.Consistent) (moves : List Move)
    (room : Along (fun s => s.pool.holders < 2 ^ 64 - 1) s moves) (f : Frame) :
    (s.afterAll moves).pool.holdersOf f + releases f (s.journal moves) =
      s.pool.holdersOf f + grants f (s.journal moves) := by
  induction moves generalizing s with
  | nil => rfl
  | cons m later ih =>
      have transition := run_step consistent m
      have first := (records_step consistent m).holdersOf (Nat.succ_lt_succ room.1) f
      have rest := ih (transition.consistent consistent) room.2
      change _ + List.countP _ (s.notes m ++ _) = _ + List.countP _ (s.notes m ++ _)
      rw [List.countP_append, List.countP_append]
      unfold grants releases at rest
      change ((s.after m).afterAll later).pool.holdersOf f + _ = _
      omega

/-- In a run of a new pool with fewer passes than the counters allow, and with less than a
word of holders at all times: the holders of a bound frame and the releases of it add up to
the grants of it, a frame without a slot has been given back as often as it was granted,
and the totals agree. In a settled session they count the sleeping calls as well. -/
theorem holders_conserved {size : Pool.Size n} {base : VirtAddr} {pool : Pool n n}
    (created : Pool.create size base = .ok pool) (direct : DirectMap) (moves : List Move)
    (few : invalidations ((start direct pool).trace moves) < 2 ^ 55)
    (room : Along (fun s => ∑ nr, (s.pool.slot nr).holders < 2 ^ 64 - 1)
      (start direct pool) moves) :
    let s := (start direct pool).afterAll moves
    let js := (start direct pool).journal moves
    (∀ nr f, (s.pool.slot nr).frame? = some f →
      (s.pool.slot nr).holders + releases f js = grants f js) ∧
    (∀ f, (∀ nr, (s.pool.slot nr).frame? ≠ some f) → releases f js = grants f js) ∧
    ∃ stats, s.pool.stats = .ok stats ∧ stats.free + stats.stale + stats.held = n ∧
      stats.holders = ∑ f, (grants f js - releases f js) ∧
      (s.Settled → stats.waiting = s.sleeping.length) := by
  intro s js
  have fresh := Pool.consistent_of_create created
  have consistent : s.pool.Consistent := consistent_afterAll (s := start direct pool) fresh moves
  have nobody : ∀ f, pool.holdersOf f = 0 := by
    intro f
    apply Pool.holdersOf_eq_zero
    intro nr
    rw [Pool.slot_of_create created]
    exact nofun
  have count : ∀ f, s.pool.holdersOf f + releases f js = grants f js := by
    intro f
    have count := holdersOf_afterAll (s := start direct pool) fresh moves room f
    change _ = pool.holdersOf f + grants f js at count
    rw [nobody, Nat.zero_add] at count
    exact count
  have early : (start direct pool).Early 0 := early_start created direct
  have recent := recent_along (s := start direct pool) fresh early moves
    ((Nat.zero_add _).trans_lt (few.trans (by decide)))
  have orderly := orderly_afterAll (s := start direct pool) fresh (orderly_start created direct)
    moves recent
  have fits : s.pool.holders < wordCount := room.last.trans_le (by decide)
  obtain ⟨stats, totals, states, holders, waiting⟩ := Pool.stats_eq fits
  refine ⟨?_, ?_, stats, totals, states, ?_, ?_⟩
  · intro nr f bound
    rw [← consistent.holdersOf_eq bound]
    exact count f
  · intro f unbound
    rw [← count f, Pool.holdersOf_eq_zero unbound, Nat.zero_add]
  · rw [holders, ← Pool.sum_holdersOf]
    apply Finset.sum_congr rfl
    intro f _
    exact Nat.eq_sub_of_add_eq (count f)
  · intro settled
    have line := orderly.pending_add_waiting recent.last
    have claims : s.pending = 0 := List.countP_eq_zero.mpr fun call mem served => by
      rw [settled call mem] at served
      cases served
    rw [waiting, ← line, claims, Nat.zero_add]

theorem holders_conserved_asleep :
    let moves : List Move := [.submit ⟨.ofNumber 1, .slots, none⟩,
      .submit ⟨.ofNumber 1, .slots, some "a"⟩, .submit ⟨.ofNumber 2, .slots, none⟩, .drop "a"]
    ∃ pool : Pool 1 1, Pool.create ⟨by decide, by decide⟩ Layout.windowBase = .ok pool ∧
      invalidations ((start .standard pool).trace moves) < 2 ^ 55 ∧
      Along (fun s => ∑ nr, (s.pool.slot nr).holders < 2 ^ 64 - 1) (start .standard pool) moves ∧
      ∃ stats, ((start .standard pool).afterAll moves).pool.stats = .ok stats ∧
        stats.free + stats.stale + stats.held = 1 ∧ stats.waiting = 1 := by
  intro moves
  obtain ⟨pool, created⟩ : ∃ pool : Pool 1 1,
      Pool.create ⟨by decide, by decide⟩ Layout.windowBase = .ok pool := ⟨_, rfl⟩
  have few : invalidations ((start .standard pool).trace moves) < 2 ^ 55 := by
    cases created
    decide
  have room : Along (fun s => ∑ nr, (s.pool.slot nr).holders < 2 ^ 64 - 1)
      (start .standard pool) moves := by
    cases created
    decide
  have settled : ((start .standard pool).afterAll moves).Settled := by
    cases created
    decide
  have asleep : ((start .standard pool).afterAll moves).sleeping.length = 1 := by
    cases created
    decide
  obtain ⟨-, -, stats, totals, states, -, waiting⟩ :=
    holders_conserved created .standard moves few room
  exact ⟨pool, created, few, room, stats, totals, states, (waiting settled).trans asleep⟩

end Highmem.Session
