import Highmem.Proofs.Pool.Window
import Highmem.Proofs.Session.Replies
import Highmem.Proofs.Session.Translation

/-!
# Which moves fault

A request faults only if the frame number does not fit a page-table entry, and a release
only if it is insisted on although it is refused. No assertion about the parts of the pool
fails: the slots, the entries and the reverse pointers agree whenever an operation begins,
a window that ends within the reach of addresses has all addresses that are calculated, and
few passes do not exhaust the counters.
-/

namespace Highmem

open Paging

variable {n c : Nat}

/-- The faults of a pool whose parts contradict each other, or whose addresses are beyond
the reach of a word. -/
def Fault.isInternal : Fault → Bool
  | bindingOccupied _ _ => true
  | sharingFree => true
  | escapedWindow _ => true
  | mappingLost _ _ _ => true
  | alreadyMapped _ => true
  | outsideTable _ _ => true
  | reverseFull _ _ => true
  | slotIndex _ _ => true
  | overflow .add => true
  | overflow .sub => true
  | overflow .mul => true
  | _ => false

namespace Pool

variable {p : Pool n c} {nr : Fin n} {f : Frame} {fault : Fault} {k : Nat}

/-- A new pool has counted nothing. -/
theorem counted_of_create {size : Size n} {base : VirtAddr} {pool : Pool n n}
    (created : create size base = .ok pool) : pool.Counted 0 := by
  obtain ⟨passes, record⟩ := counters_of_create created
  exact ⟨passes, by rw [record]; rfl, by rw [record, Nat.zero_mul]; rfl⟩

/-- A pass ends well while the counters suffice. -/
theorem Passes.not_error {o : Outcome (Pool n c) Nat} (pass : p.Passes o) (counted : p.Counted k)
    (reach : p.Reaches) (few : k + invalidations o.events < passLimit) :
    o.result ≠ .error fault := by
  cases pass with
  | complete => exact nofun
  | uncounted _ exhausted =>
      obtain ⟨-, once⟩ := invalidations_flushed p [] fun _ mem => absurd mem List.not_mem_nil
      rw [once] at few
      exact absurd exhausted (counted.not_exhausted (Nat.lt_of_succ_lt few) (fun _ => few) reach)
  | unreachable _ _ beyond => exact absurd reach beyond

/-- While the counters suffice, a request faults exactly if a slot could be had and the
frame number is too wide for it. -/
theorem Attempts.error_iff {o : Outcome (Pool n c) Grant} (ends : p.Attempts f o)
    (consistent : p.Consistent) (counted : p.Counted k) (reach : p.Reaches)
    (few : k + invalidations o.events < passLimit) :
    o.result = .error fault ↔
      fault = .overflow (.field 40) ∧ 2 ^ 40 ≤ f.number ∧ ∃ nr, (p.slot nr).isHeld = false := by
  cases ends with
  | shared bound =>
      refine iff_of_false nofun ?_
      rintro ⟨-, wide, -⟩
      exact Nat.not_le_of_lt (consistent.number_lt bound) wide
  | bound _ _ fits =>
      refine iff_of_false nofun ?_
      rintro ⟨-, wide, -⟩
      exact Nat.not_le_of_lt fits wide
  | parked _ search =>
      refine iff_of_false nofun ?_
      rintro ⟨-, -, nr, idle⟩
      rw [search.isHeld_of_none nr] at idle
      cases idle
  | @tooWide nr _ _ _ search wide =>
      have idle : (p.slot nr).isHeld = false := by
        rw [← search.isHeld_eq, search.free]
        rfl
      constructor
      · intro same
        cases same
        exact ⟨rfl, wide, nr, idle⟩
      · rintro ⟨rfl, -⟩
        rfl
  | aborted _ _ pass =>
      have counted : p.entered.Counted k := counted.of_eq rfl rfl
      exact absurd rfl (pass.not_error counted reach few)

end Pool

namespace Session

variable {s : Session n c} {m : Move} {f : Frame} {va : VirtAddr} {fault : Fault} {k : Nat}

/-- While the counters suffice, a move that asks for a frame faults exactly if a slot could
be had and the frame number is too wide for it. -/
theorem reply_error_iff_of_asks (consistent : s.pool.Consistent) (counted : s.pool.Counted k)
    (reach : s.pool.Reaches) (few : k + invalidations (s.emitted m) < Pool.passLimit)
    (asks : s.asks? m = some f) :
    s.reply m = .error fault ↔
      fault = .overflow (.field 40) ∧ 2 ^ 40 ≤ f.number ∧
        ∃ nr, (s.pool.slot nr).isHeld = false := by
  obtain ⟨o, ends, answers, -, emits⟩ := reply_of_asks consistent asks
  have same : invalidations (s.emitted m) = invalidations o.events := by
    rcases emits with emits | emits
    · rw [emits]
    · rw [emits]
      rfl
  rw [← ends.error_iff consistent counted reach (same ▸ few)]
  generalize o.result = result, s.reply m = reply at answers ⊢
  cases answers with
  | granted => exact iff_of_false nofun nofun
  | parked => exact iff_of_false nofun nofun
  | fault => exact ⟨fun same => by cases same; rfl, fun same => by cases same; rfl⟩

/-- A release faults only if it is insisted on although it is refused. -/
theorem refused_of_gives (consistent : s.pool.Consistent) (gives : s.gives? m = some va)
    (faults : s.reply m = .error fault) :
    ∃ cause, s.reply (.tryRelease va) = .ok (.refused cause) ∧ fault = .releaseRefused cause := by
  obtain ⟨ending, p, es, ran, -, settles, -⟩ := reply_of_gives consistent gives
  rw [faults] at settles
  cases settles with
  | insisted => exact ⟨_, reply_tryRelease ran, rfl⟩

/-- A caller that insists on a release faults exactly if the release is refused. -/
theorem reply_release_error_iff (consistent : s.pool.Consistent) :
    s.reply (.release va) = .error fault ↔
      ∃ cause, s.reply (.tryRelease va) = .ok (.refused cause) ∧
        fault = .releaseRefused cause := by
  refine ⟨refused_of_gives consistent rfl, ?_⟩
  rintro ⟨cause, refused, rfl⟩
  obtain ⟨ending, p, es, ran, -⟩ := run_tryRelease_ok consistent va
  rw [reply_tryRelease ran] at refused
  rw [reply_release ran]
  cases ending with
  | ok => cases refused
  | error => cases refused; rfl

theorem reaches_afterAll (consistent : s.pool.Consistent) (reach : s.pool.Reaches)
    (moves : List Move) : (s.afterAll moves).pool.Reaches := by
  rw [Pool.Reaches, base_afterAll consistent]
  exact reach

/-- A pool of any size can be created wherever a leaf table can begin. It is consistent and
stays in its place, within the reach of addresses if its window ends there. -/
theorem exists_in_place (size : Pool.Size n) {base : VirtAddr}
    (aligned : base.toNat % tableSpan = 0) (reach : base.toNat + n * pageSize < 2 ^ 64) :
    ∃ pool, Pool.create size base = .ok pool ∧ pool.Consistent ∧ pool.Reaches ∧
      ∀ (direct : DirectMap) (moves : List Move),
        let p := ((start direct pool).afterAll moves).pool
        p.base = base ∧ p.Consistent ∧ p.Reaches := by
  obtain ⟨pool, created⟩ := Pool.exists_of_aligned size aligned
  have place := Pool.base_of_create created
  have fresh := Pool.consistent_of_create created
  have reaches : pool.Reaches := by
    rw [Pool.Reaches, place]
    exact reach
  refine ⟨pool, created, fresh, reaches, ?_⟩
  intro direct moves p
  have same : p.base = base := (base_afterAll (s := start direct pool) fresh moves).trans place
  exact ⟨same, consistent_afterAll (s := start direct pool) fresh moves,
    reaches_afterAll (s := start direct pool) fresh reaches moves⟩

/-- A new pool has counted the invalidations of its run, while the counters suffice. -/
theorem counted_afterAll {size : Pool.Size n} {base : VirtAddr} {pool : Pool n n}
    (created : Pool.create size base = .ok pool) (reach : pool.Reaches) (direct : DirectMap)
    (moves : List Move) (few : invalidations ((start direct pool).trace moves) < Pool.passLimit) :
    ((start direct pool).afterAll moves).pool.Counted
      (invalidations ((start direct pool).trace moves)) := by
  have flushes := flushes_trace (s := start direct pool) (Pool.consistent_of_create created) moves
  have passes := flushes.counted 0 reach (Pool.counted_of_create created)
    ((Nat.zero_add _).trans_lt few)
  rw [Nat.zero_add] at passes
  exact passes

/-- In a run of a new pool in which the counters suffice, a move that asks for a frame faults
exactly if a slot could be had and the frame number is too wide for it. -/
theorem reply_error_iff_afterAll {size : Pool.Size n} {base : VirtAddr} {pool : Pool n n}
    (created : Pool.create size base = .ok pool) (reach : pool.Reaches) (direct : DirectMap)
    (moves : List Move)
    (few : invalidations ((start direct pool).trace (moves ++ [m])) < Pool.passLimit)
    (asks : ((start direct pool).afterAll moves).asks? m = some f) :
    ((start direct pool).afterAll moves).reply m = .error fault ↔
      fault = .overflow (.field 40) ∧ 2 ^ 40 ≤ f.number ∧
        ∃ nr, (((start direct pool).afterAll moves).pool.slot nr).isHeld = false := by
  have fresh := Pool.consistent_of_create created
  rw [trace_concat, invalidations_append] at few
  have counted := counted_afterAll created reach direct moves
    (Nat.lt_of_le_of_lt (Nat.le_add_right _ _) few)
  exact reply_error_iff_of_asks (consistent_afterAll (s := start direct pool) fresh moves) counted
    (reaches_afterAll (s := start direct pool) fresh reach moves) few asks

/-- A pool of any size can be created wherever a leaf table can begin. If its window ends
within the reach of addresses, then in every run with fewer passes than the counters allow:
a request faults exactly if a slot could be had for a frame number that is too wide, a
release faults exactly if it is insisted on and refused, no move ends in an internal fault
unless low memory itself is beyond the reach of addresses, and the addresses of the slots
and of the window can be calculated. -/
theorem faults_afterAll (size : Pool.Size n) {base : VirtAddr}
    (aligned : base.toNat % tableSpan = 0) (reach : base.toNat + n * pageSize < 2 ^ 64) :
    ∃ pool, Pool.create size base = .ok pool ∧
      ∀ (direct : DirectMap) (moves : List Move) (m : Move),
        invalidations ((start direct pool).trace (moves ++ [m])) < 2 ^ 55 →
        let s := (start direct pool).afterAll moves
        (∀ f fault, s.asks? m = some f → (s.reply m = .error fault ↔
          fault = .overflow (.field 40) ∧ 2 ^ 40 ≤ f.number ∧
            ∃ nr, (s.pool.slot nr).isHeld = false)) ∧
        (∀ va fault, s.gives? m = some va → s.reply m = .error fault →
          ∃ cause, s.reply (.tryRelease va) = .ok (.refused cause) ∧
            fault = .releaseRefused cause) ∧
        (∀ va fault, s.reply (.release va) = .error fault ↔
          ∃ cause, s.reply (.tryRelease va) = .ok (.refused cause) ∧
            fault = .releaseRefused cause) ∧
        (∀ fault, s.reply m = .error fault → fault.isInternal = true →
          ∃ r cause, m = .submit r ∧ r.route = .split ∧ s.direct.covers r.frame = true ∧
            s.direct.addressOf r.frame = .error cause) ∧
        (∀ nr : Fin n, ∃ va, s.pool.slotAddress nr = .ok va) ∧
        (∃ place, s.pool.window = .ok place) ∧
        ∀ va, ∃ inside, s.pool.contains va = .ok inside := by
  obtain ⟨pool, created⟩ := Pool.exists_of_aligned size aligned
  refine ⟨pool, created, ?_⟩
  intro direct moves m few s
  have fresh := Pool.consistent_of_create created
  have reaches : pool.Reaches := by
    rw [Pool.Reaches, Pool.base_of_create created]
    exact reach
  have consistent : s.pool.Consistent := consistent_afterAll (s := start direct pool) fresh moves
  have here : s.pool.Reaches := reaches_afterAll (s := start direct pool) fresh reaches moves
  have asked : ∀ f fault, s.asks? m = some f → (s.reply m = .error fault ↔
      fault = .overflow (.field 40) ∧ 2 ^ 40 ≤ f.number ∧
        ∃ nr, (s.pool.slot nr).isHeld = false) :=
    fun f fault => reply_error_iff_afterAll created reaches direct moves few
  have given : ∀ va fault, s.gives? m = some va → s.reply m = .error fault →
      ∃ cause, s.reply (.tryRelease va) = .ok (.refused cause) ∧
        fault = .releaseRefused cause :=
    fun va fault => refused_of_gives consistent
  refine ⟨asked, given, ?_, ?_, ?_, ?_, ?_⟩
  · intro va fault
    exact reply_release_error_iff consistent
  · intro fault faults internal
    cases asks : s.asks? m with
    | some f =>
        obtain ⟨rfl, -⟩ := (asked f fault asks).mp faults
        cases internal
    | none =>
        cases gives : s.gives? m with
        | some va =>
            obtain ⟨cause, -, rfl⟩ := given va fault gives faults
            cases internal
        | none =>
            obtain ⟨-, -, low⟩ := reply_of_neither asks gives
            obtain ⟨r, cause, rfl, beyond, -⟩ := low fault faults
            have covered : r.route = .split ∧ s.direct.covers r.frame := by
              by_contra high
              rw [asks?, if_neg high] at asks
              cases asks
            exact ⟨r, cause, rfl, covered.1, covered.2, beyond⟩
  · intro nr
    exact ⟨_, consistent.slotAddress_eq nr⟩
  · exact ⟨_, here.window_eq⟩
  · intro va
    exact ⟨_, here.contains_eq va⟩

theorem faults_afterAll_wide :
    let moves : List Move := [.submit ⟨.ofNumber 7, .slots, none⟩]
    let m : Move := .submit ⟨.ofNumber (1 <<< 40), .slots, none⟩
    Layout.windowBase.toNat % tableSpan = 0 ∧ Layout.windowBase.toNat + 2 * pageSize < 2 ^ 64 ∧
      ∃ pool : Pool 2 2, Pool.create ⟨by decide, by decide⟩ Layout.windowBase = .ok pool ∧
        invalidations ((start .standard pool).trace (moves ++ [m])) < 2 ^ 55 ∧
        ((start .standard pool).afterAll moves).reply m = .error (.overflow (.field 40)) := by
  intro moves m
  have aligned : Layout.windowBase.toNat % tableSpan = 0 := by decide
  have reach : Layout.windowBase.toNat + 2 * pageSize < 2 ^ 64 := by decide
  obtain ⟨pool, created, faults⟩ := faults_afterAll (n := 2) ⟨by decide, by decide⟩ aligned reach
  have few : invalidations ((start .standard pool).trace (moves ++ [m])) < 2 ^ 55 := by
    cases created
    decide
  have idle : ∃ nr, (((start .standard pool).afterAll moves).pool.slot nr).isHeld = false := by
    cases created
    exact ⟨1, by decide⟩
  obtain ⟨asked, -⟩ := faults .standard moves m few
  have asks : ((start .standard pool).afterAll moves).asks? m = some (.ofNumber (1 <<< 40)) := rfl
  exact ⟨aligned, reach, pool, created, few, (asked _ _ asks).mpr ⟨rfl, by decide, idle⟩⟩

end Session

end Highmem
