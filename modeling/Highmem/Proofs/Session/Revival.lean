import Highmem.Proofs.Pool.Choice
import Highmem.Proofs.Session.Faults
import Highmem.Proofs.Session.Keeping

/-!
# Asking for a bound frame again

A frame that has a slot, held or stale, is given the address of that slot at once, and
nothing but the number of its holders changes. Only an invalidation pass takes a slot away
from a frame. So as long as none runs, whoever asks for the frame gets the same address,
also after everybody has given it back, and the page table is not touched.
-/

namespace Highmem

open Paging

variable {n c : Nat}

/-- Sharing a bound slot makes it held by one holder more, up to the largest count. -/
theorem Slot.share?_eq_held {s : Slot} {f : Frame} (bound : s.frame? = some f) :
    ∃ k, s.share? = some (held f k) ∧
      (s.holders + 1 < wordCount → k.toNat = s.holders + 1) := by
  cases s with
  | free => cases bound
  | stale g =>
      cases bound
      exact ⟨.one, rfl, fun _ => rfl⟩
  | held g k =>
      cases bound
      exact ⟨k.more, rfl, Holders.toNat_more⟩

namespace Pool

variable {p q : Pool n c} {nr : Fin n} {f : Frame} {es : List Event}

/-- A request for a bound frame ends at once. -/
theorem Consistent.run_attempt_bound (consistent : p.Consistent)
    (bound : (p.slot nr).frame? = some f) :
    ∃ k, ((p.slot nr).holders + 1 < wordCount → k.toNat = (p.slot nr).holders + 1) ∧
      (attempt f).run p = ⟨.ok (.granted (p.address nr)), p.withSlot nr (.held f k),
        [.shared f nr (.held f k)]⟩ := by
  obtain ⟨k, shared, more⟩ := Slot.share?_eq_held bound
  obtain ⟨s, shared', -, run⟩ := consistent.run_shareBound bound
  rw [shared] at shared'
  cases shared'
  refine ⟨k, more, ?_⟩
  rw [attempt, Op.run_bind_ok run]
  rfl

/-- A search without an invalidation leaves the slots as they are. -/
theorem Search.slot_eq_of_quiet {found : Option (Fin n)} (search : p.Search found q es)
    (quiet : invalidations es = 0) (other : Fin n) : q.slot other = p.slot other := by
  obtain ⟨nr, rfl, -⟩ | ⟨r, nr, pass, -⟩ := search.passes
  · rfl
  · rw [pass.counts.2] at quiet
    cases quiet

/-- A request without an invalidation takes no slot away from a frame. -/
theorem Attempts.bound_of_quiet {g : Frame} {o : Outcome (Pool n c) Grant}
    (ends : p.Attempts g o) (reach : p.Reaches) (quiet : invalidations o.events = 0)
    (bound : (p.slot nr).frame? = some f) : (o.state.slot nr).frame? = some f := by
  cases ends with
  | shared _ shared => rw [frame?_withSlot (Slot.frame?_of_share? shared), bound]
  | @bound nr' q r es _ search _ becomes =>
      rw [invalidations_append] at quiet
      have same := search.slot_eq_of_quiet (Nat.eq_zero_of_add_eq_zero_right quiet)
      have apart : nr ≠ nr' := by
        rintro rfl
        rw [← same, search.free] at bound
        cases bound
      change (r.slot nr).frame? = some f
      rw [becomes.slot_eq, if_neg apart, same, bound]
  | @parked q es _ search =>
      rw [invalidations_append] at quiet
      have same := search.slot_eq_of_quiet (Nat.eq_zero_of_add_eq_zero_right quiet)
      exact (congrArg Slot.frame? (same nr)).trans bound
  | tooWide _ search => rw [search.slot_eq_of_quiet quiet, bound]
  | @aborted fault q es _ _ pass =>
      cases pass with
      | unreachable _ _ beyond => exact absurd reach beyond
      | uncounted =>
          obtain ⟨-, once⟩ :=
            invalidations_flushed p.entered [] fun _ mem => absurd mem List.not_mem_nil
          rw [once] at quiet
          cases quiet

/-- Giving back an address takes no slot away from a frame. -/
theorem Releases.frame?_eq {va : VirtAddr} {o : Outcome (Pool n c) (Except ReleaseError Unit)}
    (ends : p.Releases va o) (nr : Fin n) : (o.state.slot nr).frame? = (p.slot nr).frame? := by
  cases ends with
  | unknown => rfl
  | unheld => rfl
  | fewer _ held => exact frame?_withSlot (by rw [held]; rfl) nr
  | last _ held => exact frame?_withSlot (by rw [held]; rfl) nr

end Pool

namespace Session

variable {s s' : Session n c} {m : Move} {r : Request} {f : Frame} {nr : Fin n} {va : VirtAddr}
variable {es : List Event}

/-- A move without an invalidation takes no slot away from a frame. -/
theorem Transition.bound_of_quiet (transition : Transition s s' es) (reach : s.pool.Reaches)
    (quiet : invalidations es = 0) (bound : (s.pool.slot nr).frame? = some f) :
    (s'.pool.slot nr).frame? = some f := by
  cases transition with
  | rest pool => rw [pool, bound]
  | request ends pool =>
      rw [pool]
      exact ends.bound_of_quiet reach quiet bound
  | resumption _ _ ends pool =>
      rw [pool]
      exact ends.bound_of_quiet reach quiet bound
  | release ends pool => rw [pool, ends.frame?_eq, bound]

/-- A run without an invalidation takes no slot away from a frame. -/
theorem bound_afterAll (consistent : s.pool.Consistent) (reach : s.pool.Reaches)
    {moves : List Move} (quiet : invalidations (s.trace moves) = 0)
    (bound : (s.pool.slot nr).frame? = some f) :
    ((s.afterAll moves).pool.slot nr).frame? = some f := by
  induction moves generalizing s with
  | nil => exact bound
  | cons m later ih =>
      rw [trace, invalidations_append] at quiet
      have transition := run_step consistent m
      have there : (s.after m).pool.Reaches := by
        rw [Pool.Reaches, transition.base_eq]
        exact reach
      have first := transition.bound_of_quiet reach (Nat.eq_zero_of_add_eq_zero_right quiet) bound
      exact ih (transition.consistent consistent) there
        (Nat.eq_zero_of_add_eq_zero_left quiet) first

/-- What a request does whose frame is bound to a slot: its caller gets the address of the
slot, and the slot gets one holder more. The rest of the session is as it was, except that
the mapping may be kept. -/
structure Shares (s : Session n c) (r : Request) (nr : Fin n) (va : VirtAddr) : Prop where
  address : s.pool.slotAddress nr = .ok va
  pointer : s.pool.addressOf? r.frame = some va
  reply : s.reply (.submit r) = .ok (.mapped (.slot va))
  holder : ∃ k : Holders,
    ((s.pool.slot nr).holders + 1 < 2 ^ 64 → k.toNat = (s.pool.slot nr).holders + 1) ∧
    s.after (.submit r) = { s with
      pool := s.pool.withSlot nr (.held r.frame k)
      kept := keeping r s.kept (.ok (.mapped (.slot va))) } ∧
    s.emitted (.submit r) = [.shared r.frame nr (.held r.frame k)]

theorem shares_of_bound (consistent : s.pool.Consistent)
    (bound : (s.pool.slot nr).frame? = some f) (asks : s.asks? (.submit r) = some f) :
    s.Shares r nr (s.pool.address nr) := by
  have high : ¬ (r.route = .split ∧ s.direct.covers r.frame) := fun low => by
    rw [asks?, if_pos low] at asks
    cases asks
  rw [asks?, if_neg high] at asks
  cases asks
  obtain ⟨k, more, attempted⟩ := consistent.run_attempt_bound bound
  have run := run_submit_high s high
  rw [attempted] at run
  constructor
  case address => exact consistent.slotAddress_eq nr
  case pointer => exact consistent.get?_of_bound bound
  case reply => rw [Session.reply, step, run, answer]
  case holder =>
    refine ⟨k, more, ?_, ?_⟩
    · rw [Session.after, step, run]
      simp only [queued, List.append_nil, List.length_nil, Nat.add_zero, answer]
    · rw [emitted, step, run]

/-- Until an invalidation, whoever asks for a frame that was granted gets the same address. -/
theorem shares_of_granted (consistent : s.pool.Consistent) (reach : s.pool.Reaches)
    (asks : s.asks? m = some f) (granted : s.reply m = .ok (.mapped (.slot va)))
    {between : List Move} (quiet : invalidations ((s.after m).trace between) = 0)
    (again : ((s.after m).afterAll between).asks? (.submit r) = some f) :
    ∃ nr, ((s.after m).afterAll between).Shares r nr va := by
  have transition := run_step consistent m
  have after := transition.consistent consistent
  have there : (s.after m).pool.Reaches := by
    rw [Pool.Reaches, transition.base_eq]
    exact reach
  obtain ⟨o, ends, answers, pool, -⟩ := reply_of_asks consistent asks
  rw [granted] at answers
  obtain ⟨nr, k, rfl, held⟩ : ∃ nr k, va = s.pool.address nr ∧ o.state.slot nr = .held f k := by
    generalize result : o.result = result at answers
    cases answers
    exact ends.address_of_granted result
  have bound : ((s.after m).pool.slot nr).frame? = some f := by
    rw [pool, held]
    rfl
  have kept := bound_afterAll after there quiet bound
  have same : ((s.after m).afterAll between).pool.base = s.pool.base :=
    (base_afterAll after between).trans transition.base_eq
  refine ⟨nr, ?_⟩
  rw [← Pool.address_eq same]
  exact shares_of_bound (consistent_afterAll after between) kept again

/-- Take a pool of any size wherever a leaf table can begin, with a window that ends within
the reach of addresses, and any session of it, whether or not there are free slots and
sleeping calls. A request for a frame with a slot gets the address of the slot at once, and
the slot gets one holder more; nothing else changes. And a frame that was granted once, if
it is asked for again after any moves that caused no invalidation, gets the same address in
the same way, so without a change of the page table, also if everybody has released it. -/
theorem shares_afterAll (size : Pool.Size n) {base : VirtAddr}
    (aligned : base.toNat % tableSpan = 0) (reach : base.toNat + n * pageSize < 2 ^ 64) :
    ∃ pool, Pool.create size base = .ok pool ∧ ∀ (direct : DirectMap) (moves : List Move),
      let s := (start direct pool).afterAll moves
      (∀ f nr r, (s.pool.slot nr).frame? = some f → s.asks? (.submit r) = some f →
        ∃ va, s.Shares r nr va) ∧
      ∀ m f va between r, s.asks? m = some f → s.reply m = .ok (.mapped (.slot va)) →
        invalidations ((s.after m).trace between) = 0 →
        ((s.after m).afterAll between).asks? (.submit r) = some f →
          ∃ nr, ((s.after m).afterAll between).Shares r nr va := by
  obtain ⟨pool, created, -, -, stays⟩ := exists_in_place size aligned reach
  refine ⟨pool, created, ?_⟩
  intro direct moves s
  obtain ⟨-, consistent, here⟩ := stays direct moves
  constructor
  · intro f nr r bound asks
    exact ⟨_, shares_of_bound consistent bound asks⟩
  · intro m f va between r asks granted quiet again
    exact shares_of_granted consistent here asks granted quiet again

/-- The only slot is held while another caller sleeps. Its frame is asked for, then given
back by both holders, and asked for again before the sleeping call resumes. -/
theorem shares_afterAll_revived :
    let r : Request := ⟨.ofNumber 1, .slots, none⟩
    let moves : List Move := [.submit r, .submit ⟨.ofNumber 2, .slots, none⟩]
    let between : List Move := [.release Layout.windowBase, .release Layout.windowBase]
    Layout.windowBase.toNat % tableSpan = 0 ∧ Layout.windowBase.toNat + 1 * pageSize < 2 ^ 64 ∧
      ∃ pool : Pool 1 1, Pool.create ⟨by decide, by decide⟩ Layout.windowBase = .ok pool ∧
        let s := (start .standard pool).afterAll moves
        s.sleeping ≠ [] ∧ (s.pool.slot 0).frame? = some r.frame ∧
        s.asks? (.submit r) = some r.frame ∧
        invalidations ((s.after (.submit r)).trace between) = 0 ∧
        let s' := (s.after (.submit r)).afterAll between
        s'.pool.slot 0 = .stale r.frame ∧ s'.asks? (.submit r) = some r.frame ∧
        ∃ va, s.Shares r 0 va ∧ s.reply (.submit r) = .ok (.mapped (.slot va)) ∧
          ∃ nr, s'.Shares r nr va := by
  intro r moves between
  have aligned : Layout.windowBase.toNat % tableSpan = 0 := by decide
  have reach : Layout.windowBase.toNat + 1 * pageSize < 2 ^ 64 := by decide
  obtain ⟨pool, created, shares⟩ := shares_afterAll (n := 1) ⟨by decide, by decide⟩ aligned reach
  obtain ⟨bound, granted⟩ := shares .standard moves
  refine ⟨aligned, reach, pool, created, ?_⟩
  intro s
  have asleep : s.sleeping ≠ [] := by
    cases created
    decide
  have here : (s.pool.slot 0).frame? = some r.frame := by
    cases created
    decide
  have asks : s.asks? (.submit r) = some r.frame := rfl
  have quiet : invalidations ((s.after (.submit r)).trace between) = 0 := by
    cases created
    decide
  have stale : ((s.after (.submit r)).afterAll between).pool.slot 0 = .stale r.frame := by
    cases created
    decide
  obtain ⟨va, shared⟩ := bound r.frame 0 r here asks
  exact ⟨asleep, here, asks, quiet, stale, rfl, va, shared, shared.reply,
    granted _ _ _ between r asks shared.reply quiet rfl⟩

end Session

end Highmem
