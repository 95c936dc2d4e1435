import Highmem.Proofs.Pool.Choice
import Highmem.Proofs.Pool.Pass
import Highmem.Proofs.Pool.Seek
import Highmem.Proofs.Session.Crowding
import Highmem.Proofs.Session.Faults
import Highmem.Proofs.Session.Handover

/-!
# Scans and passes of a run

Whatever callers have done before, a scan takes the slot that its specification names, and an
invalidation pass reclaims the stale slots and nothing else. What a caller sees of it is that
it goes to sleep only where every slot is held.
-/

namespace Highmem

open Paging

variable {n c : Nat}

namespace Session

variable {s : Session n c} {m : Move} {f : Frame} {id : Nat}

/-- Only a move that asks the pool for a frame puts its caller to sleep. -/
theorem asks_of_asleep (asleep : s.reply m = .ok (.asleep id)) : ∃ f, s.asks? m = some f := by
  by_cases request : ∃ r, m = .submit r
  · obtain ⟨r, rfl⟩ := request
    by_cases low : r.route = .split ∧ s.direct.covers r.frame
    · obtain ⟨kept, va, run⟩ | ⟨cause, -, run⟩ := run_submit_direct s low
      · rw [reply, step, run] at asleep
        cases asleep
      · rw [reply, step, run] at asleep
        cases asleep
    · exact ⟨r.frame, if_neg low⟩
  · by_cases resumption : ∃ id, m = .resume id
    · obtain ⟨id, rfl⟩ := resumption
      cases asks : s.asks? (.resume id) with
      | some f => exact ⟨f, rfl⟩
      | none =>
          rw [reply, run_resume, Option.map_eq_none_iff.mp asks] at asleep
          cases asleep
    · obtain done | nothing | ⟨cause, refused⟩ :=
        reply_of_giving (not_exists.mp request) (not_exists.mp resumption) asleep
      · cases done
      · cases nothing
      · cases refused

/-- A caller learns that it sleeps exactly if its request was parked. -/
theorem asleep_iff_of_asks (asks : s.asks? m = some f) :
    (∃ id, s.reply m = .ok (.asleep id)) ↔
      ∃ ticket, ((Pool.attempt f).run s.pool).result = .ok (.parked ticket) := by
  obtain ⟨r, id, -, -, replied, -⟩ := after_of_asks asks
  rw [replied]
  constructor
  · rintro ⟨id, asleep⟩
    rcases result : ((Pool.attempt f).run s.pool).result with cause | va | ticket
    · rw [result] at asleep
      cases asleep
    · rw [result] at asleep
      cases asleep
    · exact ⟨ticket, rfl⟩
  · rintro ⟨ticket, parked⟩
    rw [parked]
    exact ⟨id, rfl⟩

/-- A caller only goes to sleep for a frame without a slot, and where every slot is held. -/
theorem unbound_of_asleep (consistent : s.pool.Consistent) (asks : s.asks? m = some f)
    (asleep : s.reply m = .ok (.asleep id)) :
    (∀ nr, (s.pool.slot nr).frame? ≠ some f) ∧ ∀ nr, (s.pool.slot nr).isHeld = true := by
  obtain ⟨ticket, parked⟩ := (asleep_iff_of_asks asks).mp ⟨id, asleep⟩
  exact (consistent.run_attempt f).of_parked parked

/-- In a run in which some slot is held by nobody at any time, no call falls asleep. -/
theorem blocked_eq_nil (consistent : s.pool.Consistent) (pos : 0 < n) {moves : List Move}
    (few : Along (fun s => (tally fun nr => (s.pool.slot nr).isHeld) ≤ n - 1) s moves) :
    s.blocked moves = [] := by
  induction moves generalizing s with
  | nil => rfl
  | cons m later ih =>
      have awake : s.blocks m = [] := by
        unfold blocks
        split
        · rename_i asleep
          obtain ⟨f, asks⟩ := asks_of_asleep asleep
          have all := tally_eq_of_forall (unbound_of_asleep consistent asks asleep).2
          have := few.first
          omega
        · rfl
      rw [blocked, awake, List.nil_append]
      exact ih ((run_step consistent m).consistent consistent) few.2

/-- A caller falls asleep exactly if its frame has no slot and every slot is held, while the
counters suffice. -/
theorem asleep_iff (consistent : s.pool.Consistent) (reach : s.pool.Reaches)
    (room : ¬ s.pool.Exhausted) (asks : s.asks? m = some f) :
    (∃ id, s.reply m = .ok (.asleep id)) ↔
      (∀ nr, (s.pool.slot nr).frame? ≠ some f) ∧ ∀ nr, (s.pool.slot nr).isHeld = true := by
  constructor
  · rintro ⟨id, asleep⟩
    exact unbound_of_asleep consistent asks asleep
  · rintro ⟨unbound, held⟩
    rw [asleep_iff_of_asks asks]
    exact (consistent.run_attempt f).parked_of_held reach room unbound held

/-- Where every slot is held and a counter has no room for a pass, a request for another frame
faults, and its caller does not fall asleep. -/
theorem stuck_of_filled (consistent : s.pool.Consistent) (exhausted : s.pool.Exhausted)
    (full : s.pool.Filled 0 n) :
    (∃ fault, ((Pool.scan (.ofNumber n)).run s.pool).result = .error fault) ∧
      ¬ ∃ id, s.reply (ask n) = .ok (.asleep id) := by
  have start : s.pool.cursor.val = 0 := full.cursor_eq.trans (Nat.mod_self n)
  have nothing : s.pool.ahead? = none := if_pos start
  have small : n < frameCount := s.pool.fits.trans_lt (by decide)
  refine ⟨consistent.scan_error exhausted (Pool.ahead?_eq_none_iff.mp nothing) _, ?_⟩
  rw [asleep_iff_of_asks (asks?_ask n)]
  rintro ⟨ticket, parked⟩
  exact (consistent.run_attempt _).not_exhausted (full.unbound (Nat.le_refl n) small) nothing
    parked exhausted

/-- Take a pool of any size wherever a leaf table can begin, with a window that ends within
the reach of addresses, and any session of it. A scan for a frame without a slot takes the
lowest free slot from the cursor on, without a pass, unless there is none or the cursor is at
slot zero. It never looks at more than `2 * n - 1` slots. If it answers nothing, every slot is
held and the cursor is at slot zero, and a caller falls asleep only then, and only for a frame
without a slot; so no call ever does in a run in which never more than `n - 1` slots are held.

After fewer than `2 ^ 55` passes a scan that finds no free slot ahead runs one pass and takes
the lowest slot that nobody held; it answers nothing, and the caller of a frame without a slot
falls asleep, exactly if every slot is held. This needs room for one more pass in the counter
of invalidated pages, which is missing in one case only: of as many slots as a table has, pass
`2 ^ 55` would count page `2 ^ 64`, and the scan that needs it faults. -/
theorem scanned_afterAll (size : Pool.Size n) {base : VirtAddr}
    (aligned : base.toNat % tableSpan = 0) (reach : base.toNat + n * pageSize < 2 ^ 64) :
    ∃ pool, Pool.create size base = .ok pool ∧ ∀ (direct : DirectMap) (moves : List Move),
      let s := (start direct pool).afterAll moves
      let passes := invalidations ((start direct pool).trace moves)
      (∀ f, (∀ nr, (s.pool.slot nr).frame? ≠ some f) → f.number < 2 ^ 40 →
        s.pool.Scanned f ((Pool.scan f).run s.pool)) ∧
      (∀ f, (Pool.seek f (2 * n - 1) n).run s.pool = (some <$> Pool.scan f).run s.pool) ∧
      (∀ m f id, s.asks? m = some f → s.reply m = .ok (.asleep id) →
        (∀ nr, (s.pool.slot nr).frame? ≠ some f) ∧ ∀ nr, (s.pool.slot nr).isHeld = true) ∧
      (passes < 2 ^ 55 → ¬ (n = tableEntries ∧ passes + 1 = 2 ^ 55) →
        (∀ f, (∀ nr, (s.pool.slot nr).frame? ≠ some f) → f.number < 2 ^ 40 →
          s.pool.Wrapped f ((Pool.scan f).run s.pool)) ∧
        ∀ m f, s.asks? m = some f → ((∃ id, s.reply m = .ok (.asleep id)) ↔
          (∀ nr, (s.pool.slot nr).frame? ≠ some f) ∧
            ∀ nr, (s.pool.slot nr).isHeld = true)) ∧
      (n = tableEntries ∧ passes + 1 = 2 ^ 55 → s.pool.freeAhead = ∅ →
        ∀ f, ∃ fault, ((Pool.scan f).run s.pool).result = .error fault) ∧
      (Along (fun s => (tally fun nr => (s.pool.slot nr).isHeld) ≤ n - 1)
          (start direct pool) moves →
        (start direct pool).blocked moves = []) := by
  obtain ⟨pool, created, fresh, reaches, stays⟩ := exists_in_place size aligned reach
  refine ⟨pool, created, ?_⟩
  intro direct moves s passes
  obtain ⟨-, consistent, here⟩ := stays direct moves
  have counted : passes < 2 ^ 55 → s.pool.Counted passes :=
    counted_afterAll created reaches direct moves
  refine ⟨?_, consistent.run_seek, ?_, fun few spare => ?_, fun last none f => ?_,
    blocked_eq_nil (s := start direct pool) fresh size.1⟩
  · intro f unbound fits
    exact consistent.scanned unbound fits
  · intro m f id asks asleep
    exact unbound_of_asleep consistent asks asleep
  · have room : ¬ s.pool.Exhausted := by
      refine (counted few).not_exhausted few (fun whole => ?_) here
      exact Nat.lt_of_le_of_ne few fun last => spare ⟨whole, last⟩
    refine ⟨?_, ?_⟩
    · intro f unbound fits
      exact consistent.wrapped here room unbound fits
    · intro m f asks
      exact asleep_iff consistent here room asks
  · have few : passes < 2 ^ 55 := Nat.lt_of_succ_le last.2.le
    exact consistent.scan_error ((counted few).exhausted last.1 last.2 here) none f

/-- All `512` slots are held, `2 ^ 55 - 1` passes are over and the frame has no slot: the scan
does not answer that it found none, and the caller does not fall asleep. -/
theorem scan_error_of_crowd :
    let f : Frame := .ofNumber 512
    Layout.windowBase.toNat % tableSpan = 0 ∧
    Layout.windowBase.toNat + 512 * pageSize < 2 ^ 64 ∧
      ∃ pool : Pool 512 512, Pool.create ⟨by decide, by decide⟩ Layout.windowBase = .ok pool ∧
        let s := (start .standard pool).afterAll (crowd 512 (2 ^ 55 - 2))
        invalidations ((start .standard pool).trace (crowd 512 (2 ^ 55 - 2))) < 2 ^ 55 ∧
        (∀ nr, (s.pool.slot nr).frame? ≠ some f) ∧ f.number < 2 ^ 40 ∧
        (∀ nr, (s.pool.slot nr).isHeld = true) ∧
        (∃ fault, ((Pool.scan f).run s.pool).result = .error fault) ∧
        s.asks? (ask 512) = some f ∧ ¬ ∃ id, s.reply (ask 512) = .ok (.asleep id) := by
  intro f
  have aligned : Layout.windowBase.toNat % tableSpan = 0 := by decide
  have reach : Layout.windowBase.toNat + 512 * pageSize < 2 ^ 64 := by decide
  obtain ⟨pool, created, fresh, reaches, stays⟩ :=
    exists_in_place (n := 512) ⟨by decide, by decide⟩ aligned reach
  obtain ⟨-, consistent, here⟩ := stays .standard (crowd 512 (2 ^ 55 - 2))
  obtain ⟨full, passes⟩ := filled_crowd (k := 2 ^ 55 - 2) created reaches .standard (by decide)
  have counted := counted_afterAll created reaches .standard (crowd 512 (2 ^ 55 - 2))
    (by rw [passes]; decide)
  have exhausted := counted.exhausted rfl (by rw [passes]; decide) here
  obtain ⟨fault, awake⟩ := stuck_of_filled consistent exhausted full
  have few : invalidations ((start .standard pool).trace (crowd 512 (2 ^ 55 - 2))) < 2 ^ 55 := by
    rw [passes]
    decide
  exact ⟨aligned, reach, pool, created, few, full.unbound (Nat.le_refl 512) (by decide),
    by decide, full.isHeld, fault, asks?_ask 512, awake⟩

/-- Slot 0 is stale, slot 1 is held, and the cursor is at slot 0: the scan runs a pass and
takes slot 0. -/
theorem scanned_afterAll_wrap :
    let moves : List Move := [.submit ⟨.ofNumber 1, .slots, none⟩, .release Layout.windowBase,
      .submit ⟨.ofNumber 2, .slots, none⟩]
    let f : Frame := .ofNumber 3
    Layout.windowBase.toNat % tableSpan = 0 ∧ Layout.windowBase.toNat + 2 * pageSize < 2 ^ 64 ∧
      ∃ pool : Pool 2 2, Pool.create ⟨by decide, by decide⟩ Layout.windowBase = .ok pool ∧
        let s := (start .standard pool).afterAll moves
        invalidations ((start .standard pool).trace moves) < 2 ^ 55 ∧ 2 ≠ tableEntries ∧
        (∀ nr, (s.pool.slot nr).frame? ≠ some f) ∧ f.number < 2 ^ 40 ∧
        s.pool.Takes f 0 (fun nr => (s.pool.slot nr).swept) ((Pool.scan f).run s.pool) ∧
        (start .standard pool).blocked moves = [] := by
  intro moves f
  have aligned : Layout.windowBase.toNat % tableSpan = 0 := by decide
  have reach : Layout.windowBase.toNat + 2 * pageSize < 2 ^ 64 := by decide
  obtain ⟨pool, created, scans⟩ := scanned_afterAll (n := 2) ⟨by decide, by decide⟩ aligned reach
  obtain ⟨-, -, -, wrapped, -, awake⟩ := scans .standard moves
  have few : invalidations ((start .standard pool).trace moves) < 2 ^ 55 := by
    cases created
    decide
  have small : 2 ≠ tableEntries := by decide
  have unbound : ∀ nr, (((start .standard pool).afterAll moves).pool.slot nr).frame? ≠ some f := by
    cases created
    decide
  have fits : f.number < 2 ^ 40 := by decide
  have ahead : ((start .standard pool).afterAll moves).pool.freeAhead = ∅ := by
    refine Set.eq_empty_iff_forall_notMem.mpr fun nr mem => mem.1 ?_
    cases created
    decide
  have least : IsLeast ((start .standard pool).afterAll moves).pool.unheld 0 := by
    refine ⟨?_, fun nr _ => Fin.zero_le nr⟩
    change (((start .standard pool).afterAll moves).pool.slot 0).isHeld = false
    cases created
    decide
  have alternately : Along (fun s => (tally fun nr => (s.pool.slot nr).isHeld) ≤ 2 - 1)
      (start .standard pool) moves := by
    cases created
    decide
  obtain ⟨scan, -⟩ := wrapped few fun last => small last.1
  obtain ⟨-, -, takes⟩ := (scan f unbound fits).around ahead
  exact ⟨aligned, reach, pool, created, few, small, unbound, fits, takes 0 least,
    awake alternately⟩

/-- Take such a pool again, any session of it, and the cursor anywhere, and let the counters
of passes, of invalidated ranges and of invalidated pages have room for another pass. A pass
then ends well, and answers how many slots were stale. It turns these free, clears their
entries, forgets the reverse pointers of their frames, and leaves all other slots, entries
and pointers as they were, and the cursor and the tickets too. It invalidates the window
once, after the last entry was cleared, also where no slot was stale. -/
theorem purged_afterAll (size : Pool.Size n) {base : VirtAddr}
    (aligned : base.toNat % tableSpan = 0) (reach : base.toNat + n * pageSize < 2 ^ 64) :
    ∃ pool, Pool.create size base = .ok pool ∧
      ∀ (direct : DirectMap) (moves : List Move) (cursor : Fin n),
        let p := ((start direct pool).afterAll moves).pool.withCursor cursor
        p.passes + 1 < 2 ^ 64 → p.table.record.ranges + 1 < 2 ^ 64 →
        p.table.record.pages + n < 2 ^ 64 →
        (∀ nr : Fin n, p.slotAddress nr = .ok (p.address nr) ∧
          p.table.indexOf? (p.address nr) = some (p.index nr)) ∧
        ∃ q stop, stop.toNat = base.toNat + n * pageSize ∧
          Pool.sweep.run p = ⟨.ok p.staleCount, q,
            (((List.finRange n).filter fun nr => (p.slot nr).isStale).map
              fun nr => .cleared (p.address nr)) ++
                [.invalidated base stop, .swept p.staleCount]⟩ ∧
          p.Purged q := by
  obtain ⟨pool, created, -, -, stays⟩ := exists_in_place size aligned reach
  refine ⟨pool, created, ?_⟩
  intro direct moves cursor p passes ranges pages
  obtain ⟨place, before, here⟩ := stays direct moves
  have same : p.base = base := place
  have consistent : p.Consistent := before.withCursor cursor
  have here : p.Reaches := here
  refine ⟨fun nr => ⟨consistent.slotAddress_eq nr, consistent.indexOf?_address nr⟩, ?_⟩
  obtain ⟨q, run, purged⟩ :=
    consistent.run_sweep_ok here (here.not_exhausted passes ranges pages)
  rw [p.clearings_eq, Pool.flushed, same] at run
  exact ⟨q, base.page n, Nat.mod_eq_of_lt reach, run, purged⟩

/-- One slot is stale and one is held. -/
theorem purged_afterAll_mixed :
    let moves : List Move := [.submit ⟨.ofNumber 1, .slots, none⟩, .release Layout.windowBase,
      .submit ⟨.ofNumber 2, .slots, none⟩]
    Layout.windowBase.toNat % tableSpan = 0 ∧ Layout.windowBase.toNat + 2 * pageSize < 2 ^ 64 ∧
      ∃ pool : Pool 2 2, Pool.create ⟨by decide, by decide⟩ Layout.windowBase = .ok pool ∧
        let p := ((start .standard pool).afterAll moves).pool.withCursor 1
        p.passes + 1 < 2 ^ 64 ∧ p.table.record.ranges + 1 < 2 ^ 64 ∧
        p.table.record.pages + 2 < 2 ^ 64 ∧
        (Pool.sweep.run p).result = .ok 1 ∧ p.Purged (Pool.sweep.run p).state := by
  intro moves
  have aligned : Layout.windowBase.toNat % tableSpan = 0 := by decide
  have reach : Layout.windowBase.toNat + 2 * pageSize < 2 ^ 64 := by decide
  obtain ⟨pool, created, pass⟩ := purged_afterAll (n := 2) ⟨by decide, by decide⟩ aligned reach
  let p := ((start .standard pool).afterAll moves).pool.withCursor 1
  have passes : p.passes + 1 < 2 ^ 64 := by
    cases created
    decide
  have ranges : p.table.record.ranges + 1 < 2 ^ 64 := by
    cases created
    decide
  have pages : p.table.record.pages + 2 < 2 ^ 64 := by
    cases created
    decide
  have one : p.staleCount = 1 := by
    cases created
    decide
  obtain ⟨-, q, stop, -, run, purged⟩ := pass .standard moves 1 passes ranges pages
  refine ⟨aligned, reach, pool, created, passes, ranges, pages, ?_⟩
  rw [run]
  exact ⟨congrArg Except.ok one, purged⟩

end Session

end Highmem
