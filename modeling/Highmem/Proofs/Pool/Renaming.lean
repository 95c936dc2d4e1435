import Highmem.Proofs.Pool.Attempt
import Highmem.Proofs.Pool.Release
import Highmem.Proofs.Pool.Create
import Highmem.Proofs.Renaming

/-!
# Two pools that differ in their frames

Two consistent pools may have the same slots up to the names of their frames. Their reverse
maps then hold their entries at quite different places, and their page tables have different
contents, but no operation tells the pools apart: it answers the same addresses, draws and
serves the same tickets, and leaves two pools that again differ only in their frames. What
it reports, and how it fails, is the same up to the names of the frames.
-/

namespace Highmem

theorem Stats.enterAll_rename {r : Renaming} (s : Stats) (l : List Slot) :
    s.enterAll (l.map (Slot.rename r)) = s.enterAll l := by
  induction l generalizing s with
  | nil => rfl
  | cons slot rest ih =>
      have first : s.enter (slot.rename r) = s.enter slot := by cases slot <;> rfl
      rw [List.map_cons, enterAll, enterAll, first]
      exact bind_congr fun s' => ih s'

namespace Pool

open Paging Sync

variable {n c : Nat} {p q p' q' : Pool n c} {nr : Fin n} {f : Frame} {va : VirtAddr}
variable {r : Renaming}

/-- The second pool is the first with its frames renamed. -/
structure Renamed (r : Renaming) (p q : Pool n c) : Prop where
  consistent : p.Consistent
  consistent' : q.Consistent
  elsewhere : SameElsewhere p q
  slot_eq : ∀ nr, q.slot nr = (p.slot nr).rename r

namespace Renamed

/-- What operations make of the slots settles the rest. -/
theorem of_becomes (renamed : p.Renamed r q) {slots slots' : Fin n → Slot}
    (becomes : p.Becomes slots p') (becomes' : q.Becomes slots' q')
    (same : ∀ nr, slots' nr = (slots nr).rename r) : p'.Renamed r q' := by
  refine ⟨becomes.consistent, becomes'.consistent, ?_, fun nr => ?_⟩
  · obtain ⟨base, cursor, record, passes, tickets⟩ := becomes.elsewhere
    have later := renamed.elsewhere.trans becomes'.elsewhere
    exact ⟨later.base_eq.trans base.symm, later.cursor_eq.trans cursor.symm,
      later.record_eq.trans record.symm, later.passes_eq.trans passes.symm,
      later.tickets_eq.trans tickets.symm⟩
  · rw [becomes'.slot_eq, becomes.slot_eq, same]

/-- Cursors, counters and tickets may change together. -/
theorem of_sameBindings (renamed : p.Renamed r q) (same : SameBindings p p')
    (same' : SameBindings q q') (cursor : q'.cursor = p'.cursor)
    (record : q'.table.record = p'.table.record) (passes : q'.passes = p'.passes)
    (tickets : q'.tickets = p'.tickets) : p'.Renamed r q' := by
  refine ⟨renamed.consistent.of_sameBindings same, renamed.consistent'.of_sameBindings same',
    ⟨?_, cursor, record, passes, tickets⟩, fun nr => ?_⟩
  · rw [same'.base_eq, renamed.elsewhere.base_eq, same.base_eq]
  · rw [same'.slot_eq, renamed.slot_eq, same.slot_eq]

variable (renamed : p.Renamed r q)

include renamed

theorem address_eq (nr : Fin n) : q.address nr = p.address nr :=
  Pool.address_eq renamed.elsewhere.base_eq nr

/-- A slot is bound to a frame exactly if its counterpart is to the renamed one. -/
theorem frame?_iff (narrow : f.IsNarrow) :
    (q.slot nr).frame? = some (r.frame f) ↔ (p.slot nr).frame? = some f := by
  rw [renamed.slot_eq, Slot.frame?_rename, Option.map_eq_some_iff]
  constructor
  · rintro ⟨g, bound, same⟩
    rw [bound, r.injective g f (renamed.consistent.number_lt bound) narrow same]
  · intro bound
    exact ⟨f, bound, rfl⟩

/-- The reverse pointers lead to the same addresses, wherever the maps hold them. -/
theorem get?_eq (narrow : f.IsNarrow) : q.reverse.get? (r.frame f) = p.reverse.get? f := by
  ext va
  rw [renamed.consistent'.get?_iff, renamed.consistent.get?_iff]
  refine exists_congr fun nr => ?_
  rw [renamed.frame?_iff narrow, renamed.address_eq]

theorem withSlot {s : Slot} (same : s.frame? = (p.slot nr).frame?) :
    (p.withSlot nr s).Renamed r (q.withSlot nr (s.rename r)) := by
  have same' : (s.rename r).frame? = (q.slot nr).frame? := by
    rw [renamed.slot_eq, Slot.frame?_rename, Slot.frame?_rename, same]
  have elsewhere : SameElsewhere (p.withSlot nr s) (q.withSlot nr (s.rename r)) :=
    { renamed.elsewhere with }
  refine ⟨renamed.consistent.withSlot same, renamed.consistent'.withSlot same', elsewhere,
    fun other => ?_⟩
  rw [slot_withSlot, slot_withSlot, renamed.slot_eq]
  split <;> rfl

theorem notified : p.notified.Renamed r q.notified :=
  renamed.of_sameBindings ⟨rfl, rfl, rfl, rfl, rfl⟩ ⟨rfl, rfl, rfl, rfl, rfl⟩
    renamed.elsewhere.cursor_eq renamed.elsewhere.record_eq renamed.elsewhere.passes_eq
    (congrArg (·.notifyOne.2) renamed.elsewhere.tickets_eq)

theorem withCursor (nr : Fin n) : (p.withCursor nr).Renamed r (q.withCursor nr) :=
  renamed.of_sameBindings ⟨rfl, rfl, rfl, rfl, rfl⟩ ⟨rfl, rfl, rfl, rfl, rfl⟩ rfl
    renamed.elsewhere.record_eq renamed.elsewhere.passes_eq renamed.elsewhere.tickets_eq

theorem run_shareBound (narrow : f.IsNarrow) :
    Outcome.Renamed r (Renamed r) id ((shareBound f).run p) ((shareBound (r.frame f)).run q) := by
  by_cases exists? : ∃ nr, (p.slot nr).frame? = some f
  · obtain ⟨nr, bound⟩ := exists?
    obtain ⟨s, shared, -, run⟩ := renamed.consistent.run_shareBound bound
    obtain ⟨s', shared', -, run'⟩ :=
      renamed.consistent'.run_shareBound ((renamed.frame?_iff narrow).mpr bound)
    rw [renamed.slot_eq, Slot.share?_rename, shared] at shared'
    cases shared'
    rw [run, run', renamed.address_eq]
    exact ⟨rfl, renamed.withSlot (Slot.frame?_of_share? shared), rfl⟩
  · have unbound := renamed.consistent.get?_eq_none_iff.mpr (not_exists.mp exists?)
    rw [run_shareBound_unbound unbound,
      run_shareBound_unbound ((renamed.get?_eq narrow).trans unbound)]
    exact ⟨rfl, renamed, rfl⟩

theorem run_bindSlot (free : p.slot nr = .free) (unbound : p.reverse.get? f = none)
    (narrow : f.IsNarrow) :
    Outcome.Renamed r (Renamed r) id ((bindSlot nr f).run p)
      ((bindSlot nr (r.frame f)).run q) := by
  have free' : q.slot nr = .free := by
    rw [renamed.slot_eq, free]
    rfl
  obtain ⟨p', run, becomes⟩ := renamed.consistent.run_bindSlot free unbound narrow
  obtain ⟨q', run', becomes'⟩ := renamed.consistent'.run_bindSlot free'
    ((renamed.get?_eq narrow).trans unbound) (r.isNarrow f narrow)
  rw [run, run', renamed.address_eq]
  refine ⟨rfl, renamed.of_becomes becomes becomes' fun other => ?_, rfl⟩
  split
  · rfl
  · exact renamed.slot_eq other

theorem clearing_eq (nr : Fin n) : q.clearing nr = (p.clearing nr).map (Event.rename r) := by
  rw [clearing, clearing, renamed.slot_eq, Slot.isStale_rename, renamed.address_eq]
  split <;> rfl

theorem run_reclaimAll (l : List (Fin n)) (different : l.Nodup) :
    Outcome.Renamed r (Renamed r) id ((reclaimAll l).run p) ((reclaimAll l).run q) := by
  obtain ⟨p', run, becomes⟩ := renamed.consistent.run_reclaimAll l different
  obtain ⟨q', run', becomes'⟩ := renamed.consistent'.run_reclaimAll l different
  rw [run, run']
  refine ⟨?_, renamed.of_becomes becomes becomes' fun nr => ?_, ?_⟩
  · simp only [renamed.slot_eq, Slot.isStale_rename]
    rfl
  · rw [renamed.slot_eq]
    split
    · cases p.slot nr <;> rfl
    · rfl
  · rw [List.map_flatMap]
    exact List.flatMap_congr fun nr _ => renamed.clearing_eq nr

/-- An invalidation depends on the record of the invalidations alone. -/
theorem run_invalidate (start stop : VirtAddr) :
    Outcome.Renamed r (Renamed r) id ((onTable (LeafTable.invalidate start stop)).run p)
      ((onTable (LeafTable.invalidate start stop)).run q) := by
  have record := renamed.elsewhere.record_eq
  rw [onTable, Op.run_within, Op.run_within, LeafTable.run_invalidate, LeafTable.run_invalidate,
    record]
  refine ⟨?_, ?_, ?_⟩
  · rcases FlushRecord.run_enter_cases p.table.record start stop with
      ⟨-, run⟩ | ⟨-, cause, _, run⟩
    · rw [run]
      rfl
    · rw [run]
      rfl
  · exact renamed.of_sameBindings ⟨rfl, rfl, rfl, rfl, rfl⟩ ⟨rfl, rfl, rfl, rfl, rfl⟩
      renamed.elsewhere.cursor_eq rfl renamed.elsewhere.passes_eq renamed.elsewhere.tickets_eq
  · rcases FlushRecord.run_enter_cases p.table.record start stop with
      ⟨-, run⟩ | ⟨-, cause, _, run⟩
    · rw [run]
      rfl
    · rw [run]
      rfl

theorem pageAddress_eq (k : Nat) : q.pageAddress k = p.pageAddress k := by
  rw [pageAddress, pageAddress, renamed.elsewhere.base_eq]

theorem run_sweep : Outcome.Renamed r (Renamed r) id (sweep.run p) (sweep.run q) := by
  unfold sweep
  refine (renamed.run_reclaimAll _ (List.nodup_finRange n)).bind fun freed p q _ _ renamed =>
    .get_bind ?_
  rw [renamed.pageAddress_eq, renamed.elsewhere.base_eq, renamed.elsewhere.passes_eq]
  refine (Outcome.Renamed.lift _ renamed).bind fun stop _ _ _ _ renamed => ?_
  refine (renamed.run_invalidate _ stop).bind fun _ _ _ _ _ renamed => ?_
  refine (Outcome.Renamed.lift _ renamed).bind fun passes p q _ _ renamed => ?_
  have counted : Renamed r { p with passes } { q with passes } :=
    renamed.of_sameBindings ⟨rfl, rfl, rfl, rfl, rfl⟩ ⟨rfl, rfl, rfl, rfl, rfl⟩
      renamed.elsewhere.cursor_eq renamed.elsewhere.record_eq rfl renamed.elsewhere.tickets_eq
  refine (Outcome.Renamed.modify counted).bind fun _ _ _ _ _ renamed => ?_
  refine (Outcome.Renamed.emit (.swept freed) renamed).bind fun _ _ _ _ _ renamed => ?_
  exact .pure freed renamed

theorem run_drawTicket :
    Outcome.Renamed r (Renamed r) id (drawTicket.run p) (drawTicket.run q) := by
  have tickets := renamed.elsewhere.tickets_eq
  refine ⟨?_, ?_, rfl⟩
  · change Except.ok q.tickets.draw.1 = .ok p.tickets.draw.1
    rw [tickets]
  · exact renamed.of_sameBindings ⟨rfl, rfl, rfl, rfl, rfl⟩ ⟨rfl, rfl, rfl, rfl, rfl⟩
      renamed.elsewhere.cursor_eq renamed.elsewhere.record_eq renamed.elsewhere.passes_eq
      (congrArg (·.draw.2) tickets)

theorem freeAt_eq (nr : Fin n) : q.freeAt nr = p.freeAt nr := by
  rw [freeAt, freeAt, renamed.slot_eq, Slot.isFree_rename]

/-- A look at a slot, with a scan after it. -/
theorem run_look {rest : List (Fin n)} (narrow : f.IsNarrow) (unbound : p.reverse.get? f = none)
    (later : Outcome.Renamed r (Renamed r) id ((scanAlong f rest).run p)
      ((scanAlong (r.frame f) rest).run q)) :
    Outcome.Renamed r (Renamed r) id ((look f nr rest).run p)
      ((look (r.frame f) nr rest).run q) := by
  rw [Pool.run_look, Pool.run_look, renamed.freeAt_eq]
  split
  · rename_i free
    exact (renamed.run_bindSlot (Slot.isFree_iff.mp free) unbound narrow).map fun _ => rfl
  · exact later

end Renamed

/-- A caller that finds nothing to share leaves its frame unbound. -/
theorem Consistent.get?_of_shareBound {es : List Event} (consistent : p.Consistent)
    (nothing : (shareBound f).run p = ⟨.ok none, q, es⟩) : q.reverse.get? f = none := by
  by_cases exists? : ∃ nr, (p.slot nr).frame? = some f
  · obtain ⟨nr, bound⟩ := exists?
    obtain ⟨s, -, -, run⟩ := consistent.run_shareBound bound
    rw [run] at nothing
    cases nothing
  · have unbound := consistent.get?_eq_none_iff.mpr (not_exists.mp exists?)
    rw [run_shareBound_unbound unbound] at nothing
    cases nothing
    exact unbound

/-- A pass binds no frame. -/
theorem Swept.get?_eq_none (swept : Swept p q) (before : p.Consistent)
    (unbound : p.reverse.get? f = none) : q.reverse.get? f = none := by
  rw [swept.consistent.get?_eq_none_iff]
  intro nr bound
  rw [swept.slot_eq] at bound
  exact before.get?_eq_none_iff.mp unbound nr (Slot.frame?_of_swept bound)

namespace Renamed

variable (narrow : f.IsNarrow)

include narrow

theorem run_scanAlong (renamed : p.Renamed r q) (unbound : p.reverse.get? f = none)
    (l : List (Fin n)) :
    Outcome.Renamed r (Renamed r) id ((scanAlong f l).run p)
      ((scanAlong (r.frame f) l).run q) := by
  induction l generalizing p q with
  | nil => exact .pure none renamed
  | cons nr rest ih =>
      by_cases first : nr.val = 0
      · obtain rfl : nr = p.firstSlot := Fin.ext first
        have begun := renamed.withCursor (Cyclic.next p.firstSlot)
        change Outcome.Renamed r _ id _ ((scanAlong (r.frame f) (q.firstSlot :: rest)).run q)
        rw [run_scanAlong_first, run_scanAlong_first]
        refine begun.run_sweep.bind fun freed p q es swept renamed => ?_
        -- the pass may have moved the entries of the map about, but binds no frame
        have unbound : p.reverse.get? f = none := by
          have pass := begun.consistent.run_sweep.swept
          change Swept _ (sweep.run _).state at pass
          rw [swept] at pass
          exact pass.get?_eq_none begun.consistent unbound
        by_cases more : 1 < freed
        · simp only [id, if_pos more]
          refine (Outcome.Renamed.modify renamed.notified).bind fun _ _ _ _ served renamed => ?_
          cases served
          exact renamed.run_look narrow unbound (ih renamed unbound)
        · simp only [id, if_neg more]
          exact renamed.run_look narrow unbound (ih renamed unbound)
      · rw [run_scanAlong_later first, run_scanAlong_later first]
        have moved := renamed.withCursor (Cyclic.next nr)
        exact moved.run_look narrow unbound (ih moved unbound)

/-- A scan for a slot, wherever the cursor stands. -/
theorem run_scan (renamed : p.Renamed r q) (unbound : p.reverse.get? f = none) :
    Outcome.Renamed r (Renamed r) id ((scan f).run p) ((scan (r.frame f)).run q) := by
  refine .get_bind ?_
  rw [renamed.elsewhere.cursor_eq]
  exact renamed.run_scanAlong narrow unbound _

/-- A caller that found no slot takes a place in the queue. -/
theorem run_attempt (renamed : p.Renamed r q) :
    Outcome.Renamed r (Renamed r) id ((attempt f).run p) ((attempt (r.frame f)).run q) := by
  refine (renamed.run_shareBound narrow).bind fun bound p' q' es shared renamed' => ?_
  cases bound with
  | some va => exact .pure (Grant.granted va) renamed'
  | none =>
      have unbound := renamed.consistent.get?_of_shareBound shared
      refine (renamed'.run_scan narrow unbound).bind fun found p q _ _ renamed => ?_
      cases found with
      | some va => exact .pure (Grant.granted va) renamed
      | none =>
          refine (Outcome.Renamed.emit (.busy n f) renamed).bind fun _ p q _ _ renamed => ?_
          exact renamed.run_drawTicket.bind fun ticket _ _ _ _ renamed =>
            .pure (Grant.parked ticket) renamed

/-- Asking for a frame again. -/
theorem run_retry (renamed : p.Renamed r q) :
    Outcome.Renamed r (Renamed r) id ((retry f).run p) ((retry (r.frame f)).run q) :=
  (Outcome.Renamed.emit (.woken f) renamed).bind fun _ _ _ _ _ renamed => renamed.run_attempt narrow

end Renamed

/-- Where an address is no slot's, the refusal names no frame. -/
theorem rename_slotOf {cause : ReleaseError} (place : p.slotOf va = .error cause) :
    cause.rename r = cause := by
  unfold slotOf at place
  split at place
  · split at place
    · split at place
      · cases place
      · cases place
        rfl
    · cases place
      rfl
  · cases place
    rfl

namespace Renamed

/-- Giving back an address. -/
theorem run_tryRelease (renamed : p.Renamed r q) (va : VirtAddr) :
    Outcome.Renamed r (Renamed r) (Except.mapError (ReleaseError.rename r))
      ((tryRelease va).run p) ((tryRelease va).run q) := by
  refine .get_bind ?_
  have place : q.slotOf va = p.slotOf va := by
    rw [slotOf, slotOf, renamed.elsewhere.base_eq]
  rw [place]
  cases found : p.slotOf va with
  | error cause =>
      refine ⟨?_, renamed, rfl⟩
      change Except.ok (Except.error cause) = Except.ok (Except.error (cause.rename r))
      rw [rename_slotOf found]
  | ok nr =>
      dsimp only
      rw [renamed.slot_eq, Slot.release?_rename]
      cases released : (p.slot nr).release? with
      | none => exact .pure (Except.error (ReleaseError.notHeld va (p.slot nr))) renamed
      | some s =>
          have same := Slot.frame?_of_release? released
          refine (Outcome.Renamed.modify (renamed.withSlot same)).bind fun _ p q _ _ renamed => ?_
          rw [Slot.isStale_rename]
          by_cases stale : s.isStale = true
          · simp only [if_pos stale]
            refine (Outcome.Renamed.emit (.staled nr va) renamed).bind fun _ p q _ _ renamed => ?_
            refine (Outcome.Renamed.modify renamed.notified).bind fun _ _ _ _ _ renamed => ?_
            exact .pure (Except.ok ()) renamed
          · simp only [if_neg stale]
            exact .pure (Except.ok ()) renamed

/-- Giving back an address that must be held. -/
theorem run_release (renamed : p.Renamed r q) (va : VirtAddr) :
    Outcome.Renamed r (Renamed r) id ((release va).run p) ((release va).run q) := by
  refine (renamed.run_tryRelease va).bind fun ending p q _ _ renamed => ?_
  cases ending with
  | ok => exact .pure () renamed
  | error cause => exact ⟨rfl, renamed, rfl⟩

/-- The totals count no frames. -/
theorem stats_eq (renamed : p.Renamed r q) : q.stats = p.stats := by
  have slots : q.slots = p.slots.map (Slot.rename r) := by
    ext k lt
    rw [Vector.getElem_map]
    exact renamed.slot_eq ⟨k, lt⟩
  rw [stats, stats, renamed.elsewhere.passes_eq, renamed.elsewhere.tickets_eq, slots,
    Vector.toList_map, Stats.enterAll_rename]

/-- A pool whose slots are all free names no frame. -/
theorem of_create {size : Size n} {base : VirtAddr} {pool : Pool n n}
    (created : create size base = .ok pool) : pool.Renamed r pool := by
  have consistent := consistent_of_create created
  refine ⟨consistent, consistent, SameElsewhere.refl pool, fun nr => ?_⟩
  rw [slot_of_create created]
  rfl

end Renamed

end Pool

end Highmem
