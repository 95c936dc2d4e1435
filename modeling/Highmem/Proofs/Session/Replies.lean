import Highmem.Proofs.Session.Run

/-!
# What callers learn from a move

A move asks the pool for a frame, gives an address back to it, or leaves it alone;
`asks?` and `gives?` tell which from the session before the move. What the caller
learns follows from how the request or the release ended in the pool. A release never
faults there: a caller that insists on it turns a refusal into a fault.
-/

namespace Highmem.Session

open Paging Sync

variable {n c : Nat} {s : Session n c} {m : Move} {f : Frame} {va : VirtAddr}

/-- How a move ends for its caller. -/
def reply (s : Session n c) (m : Move) : Except Fault Reply := ((step m).run s).result

def replies (s : Session n c) : List Move → List (Except Fault Reply)
  | [] => []
  | m :: later => s.reply m :: (s.after m).replies later

/-- The frame that a move asks the pool for. -/
def asks? (s : Session n c) : Move → Option Frame
  | .submit r => if r.route = .split ∧ s.direct.covers r.frame then none else some r.frame
  | .resume id =>
    (s.sleeping.find? fun call => call.id = id ∧ s.mayResume call).map (·.request.frame)
  | _ => none

/-- The address that a move gives back to the pool. -/
def gives? (s : Session n c) : Move → Option VirtAddr
  | .tryRelease va => some va
  | .release va => some va
  | .tryUnmap va => if s.direct.contains va then none else some va
  | .unmap va => if s.direct.contains va then none else some va
  | .drop name =>
    match s.kept.find? (·.1 = name) with
    | some (_, .slot va) => some va
    | _ => none
  | _ => none

/-- What a caller that gives back an address learns, told from how the release ended in
the pool. -/
inductive Settles : Except ReleaseError Unit → Except Fault Reply → Prop
  | done : Settles (.ok ()) (.ok .done)
  | refused {cause : ReleaseError} : Settles (.error cause) (.ok (.refused cause))
  | insisted {cause : ReleaseError} : Settles (.error cause) (.error (.releaseRefused cause))

/-- What a request for a frame comes to, in any pool. -/
theorem answers_of_asks (asks : s.asks? m = some f) :
    let o := (Pool.attempt f).run s.pool
    Answers o.result (s.reply m) ∧ (s.after m).pool = o.state ∧
      (s.emitted m = o.events ∨ s.emitted m = .woken f :: o.events) := by
  unfold reply after emitted
  cases m with
  | submit r =>
      by_cases low : r.route = .split ∧ s.direct.covers r.frame
      · rw [asks?, if_pos low] at asks
        cases asks
      · rw [asks?, if_neg low] at asks
        cases asks
        obtain ⟨kept, result, answers, run⟩ := run_submit_pool s low
        rw [step, run]
        exact ⟨answers, rfl, Or.inl rfl⟩
  | resume id =>
      rw [run_resume]
      obtain ⟨call, found, rfl⟩ := Option.map_eq_some_iff.mp asks
      rw [found]
      obtain ⟨kept, result, answers, run⟩ := run_wake_pool s call
      dsimp only
      rw [run]
      exact ⟨answers, rfl, Or.inr rfl⟩
  | tryRelease => cases asks
  | release => cases asks
  | tryUnmap => cases asks
  | unmap => cases asks
  | drop => cases asks

/-- The reply to a request, the pool that it leaves and the events that it causes. -/
theorem reply_of_asks (consistent : s.pool.Consistent) (asks : s.asks? m = some f) :
    ∃ o, s.pool.Attempts f o ∧ Answers o.result (s.reply m) ∧ (s.after m).pool = o.state ∧
      (s.emitted m = o.events ∨ s.emitted m = .woken f :: o.events) :=
  ⟨_, consistent.run_attempt f, answers_of_asks asks⟩

/-- A release ends in the pool with an answer. -/
theorem run_tryRelease_ok (consistent : s.pool.Consistent) (va : VirtAddr) :
    ∃ ending p es, (Pool.tryRelease va).run s.pool = ⟨.ok ending, p, es⟩ ∧
      s.pool.Releases va ⟨.ok ending, p, es⟩ := by
  have ends := consistent.run_tryRelease va
  cases ran : (Pool.tryRelease va).run s.pool with
  | mk result p es =>
    rw [ran] at ends
    cases result with
    | error fault => cases ends
    | ok ending => exact ⟨ending, p, es, rfl, ends⟩

theorem reply_tryRelease {ending : Except ReleaseError Unit} {p : Pool n c} {es : List Event}
    (ran : (Pool.tryRelease va).run s.pool = ⟨.ok ending, p, es⟩) :
    s.reply (.tryRelease va) =
      match ending with
      | .ok () => .ok .done
      | .error cause => .ok (.refused cause) := by
  cases ending <;> simp [reply, step, onPool, ran]

theorem reply_release {ending : Except ReleaseError Unit} {p : Pool n c} {es : List Event}
    (ran : (Pool.tryRelease va).run s.pool = ⟨.ok ending, p, es⟩) :
    s.reply (.release va) =
      match ending with
      | .ok () => .ok .done
      | .error cause => .error (.releaseRefused cause) := by
  cases ending <;> simp [reply, step, onPool, Pool.release, ran, Except.map]

/-- What giving back an address comes to, in any pool. -/
theorem settles_of_gives {ending : Except ReleaseError Unit} {p : Pool n c} {es : List Event}
    (gives : s.gives? m = some va)
    (ran : (Pool.tryRelease va).run s.pool = ⟨.ok ending, p, es⟩) :
    Settles ending (s.reply m) ∧ (s.after m).pool = p ∧ s.emitted m = es := by
  unfold reply after emitted
  cases m with
  | submit r => cases gives
  | resume id => cases gives
  | tryRelease va' =>
      cases gives
      cases ending with
      | ok => simpa [step, onPool, ran] using Settles.done
      | error cause => simpa [step, onPool, ran] using Settles.refused
  | release va' =>
      cases gives
      cases ending with
      | ok => simpa [step, onPool, Pool.release, ran, Except.map] using Settles.done
      | error cause => simpa [step, onPool, Pool.release, ran, Except.map] using Settles.insisted
  | tryUnmap va' =>
      by_cases direct : s.direct.contains va' = true
      · rw [gives?, if_pos direct] at gives
        cases gives
      · rw [gives?, if_neg direct] at gives
        cases gives
        cases ending with
        | ok => simpa [step, tryUnmap, direct, onPool, ran] using Settles.done
        | error cause => simpa [step, tryUnmap, direct, onPool, ran] using Settles.refused
  | unmap va' =>
      by_cases direct : s.direct.contains va' = true
      · rw [gives?, if_pos direct] at gives
        cases gives
      · rw [gives?, if_neg direct] at gives
        cases gives
        cases ending with
        | ok => simpa [step, tryUnmap, direct, onPool, ran] using Settles.done
        | error cause => simpa [step, tryUnmap, direct, onPool, ran] using Settles.insisted
  | drop name =>
      rw [run_drop]
      cases entry : s.kept.find? (·.1 = name) with
      | none =>
          rw [gives?, entry] at gives
          cases gives
      | some pair =>
          obtain ⟨key, mapping⟩ := pair
          rw [gives?, entry] at gives
          cases mapping with
          | direct => cases gives
          | slot va' =>
              cases gives
              cases ending with
              | ok => simpa [giveBack, onPool, Pool.release, ran, Except.map] using Settles.done
              | error cause =>
                  simpa [giveBack, onPool, Pool.release, ran, Except.map] using Settles.insisted

/-- The reply to a release, the pool that it leaves and the events that it causes. -/
theorem reply_of_gives (consistent : s.pool.Consistent) (gives : s.gives? m = some va) :
    ∃ ending p es, (Pool.tryRelease va).run s.pool = ⟨.ok ending, p, es⟩ ∧
      s.pool.Releases va ⟨.ok ending, p, es⟩ ∧ Settles ending (s.reply m) ∧
      (s.after m).pool = p ∧ s.emitted m = es := by
  obtain ⟨ending, p, es, ran, ends⟩ := run_tryRelease_ok consistent va
  exact ⟨ending, p, es, ran, ends, settles_of_gives gives ran⟩

/-- Any other move leaves the pool alone. It faults only where the direct map has no
address for a frame that it covers. -/
theorem reply_of_neither (asks : s.asks? m = none) (gives : s.gives? m = none) :
    (s.after m).pool = s.pool ∧ s.emitted m = [] ∧
      ∀ fault, s.reply m = .error fault → ∃ r cause, m = .submit r ∧
        s.direct.addressOf r.frame = .error cause ∧ fault = .overflow cause := by
  unfold reply after emitted
  cases m with
  | submit r =>
      by_cases low : r.route = .split ∧ s.direct.covers r.frame
      · obtain ⟨kept, va, run⟩ | ⟨cause, beyond, run⟩ := run_submit_direct s low
        · rw [step, run]
          refine ⟨rfl, rfl, ?_⟩
          intro fault same
          cases same
        · rw [step, run]
          refine ⟨rfl, rfl, fun fault same => ?_⟩
          exact ⟨r, cause, rfl, beyond, (Except.error.inj same).symm⟩
      · rw [asks?, if_neg low] at asks
        cases asks
  | resume id =>
      have found := Option.map_eq_none_iff.mp asks
      rw [run_resume, found]
      refine ⟨rfl, rfl, ?_⟩
      intro fault same
      cases same
  | tryRelease => cases gives
  | release => cases gives
  | tryUnmap va =>
      by_cases direct : s.direct.contains va = true
      · simp [step, tryUnmap, direct]
      · rw [gives?, if_neg direct] at gives
        cases gives
  | unmap va =>
      by_cases direct : s.direct.contains va = true
      · simp [step, tryUnmap, direct]
      · rw [gives?, if_neg direct] at gives
        cases gives
  | drop name =>
      rw [run_drop]
      cases entry : s.kept.find? (·.1 = name) with
      | none =>
          refine ⟨rfl, rfl, ?_⟩
          intro fault same
          cases same
      | some pair =>
          obtain ⟨key, mapping⟩ := pair
          rw [gives?, entry] at gives
          cases mapping with
          | direct =>
              refine ⟨rfl, rfl, ?_⟩
              intro fault same
              cases same
          | slot va => cases gives

end Highmem.Session
