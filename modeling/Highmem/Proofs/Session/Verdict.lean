import Highmem.Proofs.Pool.Verdict
import Highmem.Proofs.Session.Faults
import Highmem.Proofs.Session.Wakeups

/-!
# What callers learn from a release

A release is answered at once, from the address and the state of its slot. One that is
refused leaves the whole session as it was. One that is accepted takes a holder from the
slot, and lets in the call that has waited longest exactly if that was the last one. A
caller that insists on a release differs from one that does not in the reply only.
-/

namespace Highmem

open Paging Sync

variable {n c : Nat}

namespace Line

variable {t : Tickets} {calls : List SleepingCall}

/-- The calls that still wait are the last ones of the line. -/
theorem waiting_eq_drop (line : Line t calls) (young : Young t calls) :
    (calls.filter fun call => !t.isServed call.ticket) = calls.drop (calls.length - t.waiting) := by
  have few := line.waiting_lt young
  obtain ⟨ahead, behind, rfl, before, ages⟩ := line
  have served : (ahead.filter fun call => !t.isServed call.ticket) = [] := by
    refine List.filter_eq_nil_iff.mpr fun call mem => ?_
    have := (Tickets.isServed_iff (young call (List.mem_append_left behind mem)) few).mpr
      (before call mem)
    simp [this]
  have waits : (behind.filter fun call => !t.isServed call.ticket) = behind := by
    refine List.filter_eq_self.mpr fun call mem => ?_
    have late := age_le_of_mem ages mem
    have := mt (Tickets.isServed_iff (young call (List.mem_append_right ahead mem)) few).mp
      (Nat.not_lt_of_le late)
    simp [this]
  have each : behind.length = t.waiting := by
    have lengths := congrArg List.length ages
    rw [List.length_map, List.length_reverse, List.length_range'] at lengths
    exact lengths
  rw [List.filter_append, served, waits, List.length_append, each, Nat.add_sub_cancel,
    List.drop_left]
  rfl

end Line

namespace Session

variable {s : Session n c} {va : VirtAddr}

/-- The calls that sleep and were not let in, oldest first. -/
def parked (s : Session n c) : List SleepingCall := s.sleeping.filter fun call => !s.mayResume call

/-- The call that has waited longest is let in. -/
theorem parked_notified (orderly : s.Orderly) (recent : s.Recent) (pool : Pool n c)
    (served : pool.tickets = s.pool.tickets.notifyOne.2) :
    parked { s with pool } = s.parked.tail := by
  have line := orderly.line
  have fewer := s.pool.tickets.waiting_notifyOne
  have most := line.countP_isServed recent
  have before : s.parked = _ := line.waiting_eq_drop recent
  have after := line.notifyOne.waiting_eq_drop recent.notifyOne
  rw [← served] at after fewer
  have after : parked { s with pool } = _ := after
  rw [before, after, fewer, List.tail_drop]
  cases waiting : s.pool.tickets.waiting with
  | zero => simp
  | succ k => congr 1; omega

/-- What a release of an address means in a session. -/
structure Judged (s : Session n c) (va : VirtAddr) : Prop where
  outside_iff : s.reply (.tryRelease va) = .ok (.refused (.outsideWindow va)) ↔ ¬ s.pool.Spans va
  unaligned_iff : s.reply (.tryRelease va) = .ok (.refused (.unaligned va)) ↔
    s.pool.Spans va ∧ va.toNat % pageSize ≠ 0
  notHeld_iff : ∀ slot, s.reply (.tryRelease va) = .ok (.refused (.notHeld va slot)) ↔
    ∃ nr, s.pool.Starts nr va ∧ s.pool.slot nr = slot ∧ slot.isHeld = false
  /-- Either the release is refused for one of these causes, and nothing happens, or it is
  accepted and takes one holder from a held slot. -/
  effect :
    (∃ cause, s.reply (.tryRelease va) = .ok (.refused cause) ∧
      (cause = .outsideWindow va ∨ cause = .unaligned va ∨ ∃ slot, cause = .notHeld va slot) ∧
      s.after (.tryRelease va) = s ∧ s.emitted (.tryRelease va) = []) ∨
    ∃ nr pool, s.pool.Starts nr va ∧ (s.pool.slot nr).isHeld = true ∧
      s.reply (.tryRelease va) = .ok .done ∧ s.pool.Loses pool nr ∧
      s.after (.tryRelease va) = { s with pool } ∧
      s.emitted (.tryRelease va) = if (pool.slot nr).isStale then [.staled nr va] else []
  /-- A caller that insists gets a fault in place of a refusal. -/
  insisted : ∀ fault, s.reply (.release va) = .error fault ↔
    ∃ cause, s.reply (.tryRelease va) = .ok (.refused cause) ∧ fault = .releaseRefused cause
  insisted_effect : s.after (.release va) = s.after (.tryRelease va) ∧
    s.emitted (.release va) = s.emitted (.tryRelease va)

/-- What a caller learns from how a release ended in the pool. -/
def told : Except ReleaseError Unit → Reply
  | .ok () => .done
  | .error cause => .refused cause

/-- What a caller learns that insists on the release. -/
def toldInsisting : Except ReleaseError Unit → Except Fault Reply
  | .ok () => .ok .done
  | .error cause => .error (.releaseRefused cause)

theorem run_step_tryRelease {ending : Except ReleaseError Unit} {p : Pool n c} {es : List Event}
    (ran : (Pool.tryRelease va).run s.pool = ⟨.ok ending, p, es⟩) :
    (step (.tryRelease va)).run s = ⟨.ok (told ending), { s with pool := p }, es⟩ := by
  cases ending <;> simp [step, onPool, ran, told]

theorem run_step_release {ending : Except ReleaseError Unit} {p : Pool n c} {es : List Event}
    (ran : (Pool.tryRelease va).run s.pool = ⟨.ok ending, p, es⟩) :
    (step (.release va)).run s = ⟨toldInsisting ending, { s with pool := p }, es⟩ := by
  cases ending <;> simp [step, onPool, Pool.release, ran, toldInsisting, Except.map]

theorem toldInsisting_eq_error_iff {ending : Except ReleaseError Unit} {fault : Fault} :
    toldInsisting ending = .error fault ↔
      ∃ cause, told ending = .refused cause ∧ fault = .releaseRefused cause := by
  cases ending <;> simp [toldInsisting, told, eq_comm]

/-- A release ends in the pool with an answer, which is the reply to a caller that does not
insist on it. -/
theorem verdict_step (s : Session n c) (va : VirtAddr) :
    ∃ ending p es, s.pool.Verdict va ⟨.ok ending, p, es⟩ ∧
      s.reply (.tryRelease va) = .ok (told ending) ∧ s.after (.tryRelease va) = { s with pool := p } ∧
      s.emitted (.tryRelease va) = es ∧
      s.reply (.release va) = toldInsisting ending ∧
      s.after (.release va) = { s with pool := p } ∧ s.emitted (.release va) = es := by
  obtain ⟨ending, p, es, ran, verdict⟩ := Pool.exists_verdict s.pool va
  unfold reply Session.after emitted
  rw [run_step_tryRelease ran, run_step_release ran]
  exact ⟨ending, p, es, verdict, rfl, rfl, rfl, rfl, rfl, rfl⟩

/-- Every release is judged so. -/
theorem judged (s : Session n c) (va : VirtAddr) : s.Judged va := by
  obtain ⟨ending, p, es, verdict, replied, after, emits, replied', after', emits'⟩ :=
    verdict_step s va
  have insisted : ∀ fault, s.reply (.release va) = .error fault ↔
      ∃ cause, s.reply (.tryRelease va) = .ok (.refused cause) ∧ fault = .releaseRefused cause := by
    intro fault
    simp only [replied, replied', Except.ok.injEq]
    exact toldInsisting_eq_error_iff
  have same := And.intro (after'.trans after.symm) (emits'.trans emits.symm)
  cases verdict with
  | outside beyond =>
      refine ⟨iff_of_true replied beyond, ?_, fun slot => ?_,
        Or.inl ⟨_, replied, Or.inl rfl, after, emits⟩, insisted, same⟩
      · exact iff_of_false (by simp [replied, told]) fun inside => beyond inside.1
      · refine iff_of_false (by simp [replied, told]) ?_
        rintro ⟨nr, starts, -⟩
        exact beyond starts.spans
  | unaligned inside offset =>
      refine ⟨?_, iff_of_true replied ⟨inside, offset⟩, fun slot => ?_,
        Or.inl ⟨_, replied, Or.inr (Or.inl rfl), after, emits⟩, insisted, same⟩
      · exact iff_of_false (by simp [replied, told]) fun beyond => beyond inside
      · refine iff_of_false (by simp [replied, told]) ?_
        rintro ⟨nr, starts, -⟩
        exact offset starts.offset_eq
  | @notHeld nr starts idle =>
      refine ⟨?_, ?_, fun slot => ?_,
        Or.inl ⟨_, replied, Or.inr (Or.inr ⟨_, rfl⟩), after, emits⟩, insisted, same⟩
      · exact iff_of_false (by simp [replied, told]) fun beyond => beyond starts.spans
      · exact iff_of_false (by simp [replied, told]) fun inside => inside.2 starts.offset_eq
      · rw [replied]
        constructor
        · intro same
          cases same
          exact ⟨nr, starts, rfl, idle⟩
        · rintro ⟨other, starts', rfl, -⟩
          rw [starts.unique starts', told]
  | @released nr q es starts held loses reports =>
      refine ⟨?_, ?_, fun slot => ?_,
        Or.inr ⟨nr, p, starts, held, replied, loses, after, emits.trans reports⟩, insisted, same⟩
      · exact iff_of_false (by simp [replied, told]) fun beyond => beyond starts.spans
      · exact iff_of_false (by simp [replied, told]) fun inside => inside.2 starts.offset_eq
      · refine iff_of_false (by simp [replied, told]) ?_
        rintro ⟨other, starts', rfl, idle⟩
        rw [← starts.unique starts', held] at idle
        cases idle

namespace Judged

variable {nr : Fin n} (starts : s.pool.Starts nr va) (held : (s.pool.slot nr).isHeld = true)

include starts held

/-- The address of a held slot is accepted. -/
theorem loses : ∃ pool, s.reply (.tryRelease va) = .ok .done ∧ s.pool.Loses pool nr ∧
    s.after (.tryRelease va) = { s with pool } := by
  have judged := judged s va
  rcases judged.effect with ⟨cause, replied, rfl | rfl | ⟨slot, rfl⟩, -⟩ |
    ⟨other, pool, starts', -, replied, loses, after, -⟩
  · exact absurd starts.spans (judged.outside_iff.mp replied)
  · exact absurd starts.offset_eq (judged.unaligned_iff.mp replied).2
  · obtain ⟨other, starts', rfl, idle⟩ := (judged.notHeld_iff slot).mp replied
    rw [← starts.unique starts', held] at idle
    cases idle
  · cases starts.unique starts'
    exact ⟨pool, replied, loses, after⟩

/-- While no sleeping call is too old, the call that has waited longest is let in exactly if
the last holder of the slot leaves. -/
theorem parked_eq (orderly : s.Orderly) (recent : s.Recent) :
    (s.after (.tryRelease va)).parked =
      if (s.pool.slot nr).holders = 1 then s.parked.tail else s.parked := by
  obtain ⟨pool, -, loses, after⟩ := loses starts held
  have served := loses.tickets_eq
  rw [after]
  by_cases last : (s.pool.slot nr).holders = 1
  · rw [if_pos (loses.stale_iff.mpr last)] at served
    rw [if_pos last, parked_notified orderly recent pool served]
  · rw [if_neg (mt loses.stale_iff.mp last)] at served
    rw [if_neg last]
    unfold parked mayResume
    rw [served]

end Judged

/-- In every run of a pool whose window ends within the reach of addresses, every address is
judged: it is refused exactly beyond the window, inside a page, or where nobody holds the
slot, and then nothing at all happens; otherwise its slot loses one holder. As long as no
call sleeps for too long, the one that has waited longest is let in with the last holder
that leaves, and none with any other. -/
theorem judged_afterAll (size : Pool.Size n) {base : VirtAddr}
    (aligned : base.toNat % tableSpan = 0) (reach : base.toNat + n * pageSize < 2 ^ 64) :
    ∃ pool, Pool.create size base = .ok pool ∧
      ∀ (direct : DirectMap) (moves : List Move) (va : VirtAddr),
        let s := (start direct pool).afterAll moves
        s.pool.base = base ∧ s.Judged va ∧
          (Along Recent (start direct pool) moves →
            ∀ nr, s.pool.Starts nr va → (s.pool.slot nr).isHeld = true →
              (s.after (.tryRelease va)).parked =
                if (s.pool.slot nr).holders = 1 then s.parked.tail else s.parked) := by
  obtain ⟨pool, created, -, -, place⟩ := exists_in_place size aligned reach
  refine ⟨pool, created, fun direct moves va => ?_⟩
  intro s
  have fresh := Pool.consistent_of_create created
  refine ⟨(place direct moves).1, judged s va, fun recent nr starts held => ?_⟩
  have orderly := orderly_afterAll (s := start direct pool) fresh (orderly_start created direct)
    moves recent
  exact Judged.parked_eq starts held orderly recent.last

theorem judged_afterAll_last :
    let moves : List Move :=
      [.submit ⟨.ofNumber 1, .slots, none⟩, .submit ⟨.ofNumber 2, .slots, none⟩]
    Layout.windowBase.toNat % tableSpan = 0 ∧ Layout.windowBase.toNat + 1 * pageSize < 2 ^ 64 ∧
      ∃ pool : Pool 1 1, Pool.create ⟨by decide, by decide⟩ Layout.windowBase = .ok pool ∧
        Along Recent (start .standard pool) moves ∧
        let s := (start .standard pool).afterAll moves
        s.parked = [⟨0, 0, ⟨.ofNumber 2, .slots, none⟩⟩] ∧
          (s.after (.tryRelease Layout.windowBase)).parked = [] ∧
          s.reply (.tryRelease Layout.windowEnd) =
            .ok (.refused (.outsideWindow Layout.windowEnd)) := by
  intro moves
  have aligned : Layout.windowBase.toNat % tableSpan = 0 := by decide
  have reach : Layout.windowBase.toNat + 1 * pageSize < 2 ^ 64 := by decide
  obtain ⟨pool, created, judged⟩ := judged_afterAll (n := 1) ⟨by decide, by decide⟩ aligned reach
  have recent : Along Recent (start .standard pool) moves := by
    cases created
    decide
  have parked : ((start .standard pool).afterAll moves).parked =
      [⟨0, 0, ⟨.ofNumber 2, .slots, none⟩⟩] := by
    cases created
    decide
  have held : (((start .standard pool).afterAll moves).pool.slot 0) = .held (.ofNumber 1) .one := by
    cases created
    decide
  obtain ⟨place, -, letsIn⟩ := judged .standard moves Layout.windowBase
  obtain ⟨-, beyond, -⟩ := judged .standard moves Layout.windowEnd
  refine ⟨aligned, reach, pool, created, recent, parked, ?_, beyond.outside_iff.mpr ?_⟩
  · have starts : ((start .standard pool).afterAll moves).pool.Starts 0 Layout.windowBase := by
      rw [Pool.Starts, place]
      rfl
    rw [letsIn recent 0 starts (by rw [held]; rfl), held, parked]
    rfl
  · rw [Pool.Spans, place]
    decide

end Session

end Highmem
