import Highmem.Proofs.Pool.Surplus
import Highmem.Proofs.Session.Faults
import Highmem.Proofs.Session.Wakeups

/-!
# Settling a session

`settle` lets calls resume until none may. It is a run of resumptions like any other, and it
needs no more of them than it allows itself: each one ends a sleeping call and lets one
other in at most, or ends a claim and lets nobody in.
-/

namespace Highmem

open Sync

def Move.isResume : Move → Bool
  | resume _ => true
  | _ => false

namespace Session

variable {n c : Nat} {s : Session n c} {k : Nat}

/-- The sleeping call that returns in a move, if there is one: with an address or with a
fault. -/
def finishes (s : Session n c) : Move → List Nat
  | .resume id =>
    match s.reply (.resume id) with
    | .ok (.mapped _) => [id]
    | .error _ => [id]
    | _ => []
  | _ => []

/-- The sleeping calls that return in a run, in the order in which they do. -/
def finished (s : Session n c) : List Move → List Nat
  | [] => []
  | m :: later => s.finishes m ++ (s.after m).finished later

/-- Going on with a call that was not let in does nothing; one that was asks again. -/
theorem resume_cases (consistent : s.pool.Consistent) (id : Nat) :
    ((∀ call ∈ s.sleeping, call.id = id → s.mayResume call = false) ∧
        s.after (.resume id) = s ∧ s.reply (.resume id) = .ok .notServed) ∨
      ∃ call o, call ∈ s.sleeping ∧ call.id = id ∧ s.mayResume call = true ∧
        s.pool.Attempts call.request.frame o ∧ Answers o.result (s.reply (.resume id)) ∧
        (s.after (.resume id)).pool = o.state ∧
        (s.after (.resume id)).sleeping =
          s.sleeping.filter (·.id ≠ call.id) ++ queued call.id call.request o.result ∧
        (s.after (.resume id)).nextId = s.nextId := by
  unfold after reply
  rw [run_resume]
  cases found : s.sleeping.find? fun call => call.id = id ∧ s.mayResume call with
  | none =>
      refine Or.inl ⟨fun call mem here => ?_, rfl, rfl⟩
      have other := List.find?_eq_none.mp found call mem
      simp only [here, true_and, decide_eq_true_eq] at other
      exact Bool.eq_false_iff.mpr other
  | some call =>
      have chosen := List.find?_some found
      obtain ⟨here, served⟩ := of_decide_eq_true chosen
      obtain ⟨kept, result, answers, run⟩ := run_wake_pool s call
      dsimp only
      rw [run]
      exact Or.inr ⟨call, _, List.mem_of_find?_eq_some found, here, served,
        consistent.run_attempt call.request.frame, answers, rfl, rfl, rfl⟩

theorem pending_pos {call : SleepingCall} (mem : call ∈ s.sleeping)
    (served : s.mayResume call = true) : 0 < s.pending :=
  List.countP_pos_iff.mpr ⟨call, mem, served⟩

/-- The resumptions that are ahead at most: one for each call, and one more for each call
that was let in and goes back to sleep. -/
def load (s : Session n c) : Nat := s.sleeping.length + s.pending

/-- Every resumption of a call that was let in brings the session nearer to rest. -/
theorem load_resume (consistent : s.pool.Consistent) (orderly : s.Orderly) (recent : s.Recent)
    {call : SleepingCall} (mem : call ∈ s.sleeping) (served : s.mayResume call = true)
    (recent' : (s.after (.resume call.id)).Recent) : (s.after (.resume call.id)).load < s.load := by
  have transition := run_step consistent (.resume call.id)
  have before := orderly.pending_add_waiting recent
  have after := (transition.orderly orderly recent).pending_add_waiting recent'
  unfold load
  obtain ⟨unserved, -⟩ | ⟨other, o, there, -, -, ends, -, pool, sleeping, -⟩ :=
    resume_cases consistent call.id
  · rw [unserved call mem rfl] at served
    cases served
  · have fewer := length_leave orderly.distinct there
    rw [pool, sleeping, List.length_append] at after
    rw [sleeping, List.length_append]
    -- a call that returns is gone, and one that sleeps again has given up its claim
    rcases queued_cases other.id other.request o.result with
      ⟨none, returned⟩ | ⟨ticket, parked, one⟩
    · obtain ⟨one, -⟩ := ends.provides returned
      rw [none, List.length_nil] at after ⊢
      omega
    · have more := ends.waiting_of_parked parked (orderly.line.waiting_lt recent)
      rw [one, List.length_singleton] at after ⊢
      omega

theorem run_settleWithin_none (rest : s.sleeping.find? s.mayResume = none) :
    (settleWithin (k + 1)).run s = ⟨.ok [], s, []⟩ := by
  simp only [settleWithin, Op.run_bind, Op.run_get, rest]
  rfl

/-- How a sleeping call returned, if it did. -/
def report (call : SleepingCall) : Except Fault Reply → List Finished
  | .ok (.mapped m) => [⟨call.id, call.request, .ok m⟩]
  | .ok _ => []
  | .error fault => [⟨call.id, call.request, .error fault⟩]

theorem ids_report (s : Session n c) (call : SleepingCall) :
    (report call (s.reply (.resume call.id))).map (·.id) = s.finishes (.resume call.id) := by
  simp only [finishes]
  rcases s.reply (.resume call.id) with fault | (m | _ | _ | _ | _ | _) <;> rfl

/-- Letting calls resume begins with the first that may. -/
theorem run_settleWithin_some {call : SleepingCall} {later : List Finished}
    (first : s.sleeping.find? s.mayResume = some call)
    (rest : ((settleWithin k).run (s.after (.resume call.id))).result = .ok later) :
    ((settleWithin (k + 1)).run s).result =
        .ok (report call (s.reply (.resume call.id)) ++ later) ∧
      ((settleWithin (k + 1)).run s).state =
        ((settleWithin k).run (s.after (.resume call.id))).state := by
  cases ran : (settleWithin k).run (s.after (.resume call.id)) with
  | mk result s' es =>
    rw [ran] at rest
    cases rest
    unfold Session.after at ran
    unfold reply
    cases stepped : (step (.resume call.id)).run s with
    | mk answer s'' es' =>
      rw [stepped] at ran
      rcases answer with fault | (m | _ | _ | _ | _ | _) <;>
        simp [settleWithin, first, stepped, ran, report, Except.map]

/-- Letting calls resume is a run of resumptions, which ends in a settled session if there
are enough of them. -/
theorem run_settleWithin (k : Nat) (s : Session n c) :
    ∃ wakes done, (∀ w ∈ wakes, w.isResume = true) ∧
      ((settleWithin k).run s).result = .ok done ∧
      ((settleWithin k).run s).state = s.afterAll wakes ∧ done.map (·.id) = s.finished wakes ∧
      (s.pool.Consistent → s.Orderly → Along Recent s wakes → s.load ≤ k →
        (s.afterAll wakes).Settled) := by
  -- on the resumptions left; every one that is needed takes something off the load
  induction k generalizing s with
  | zero =>
      refine ⟨[], [], nofun, rfl, rfl, rfl, fun _ _ _ none call mem => ?_⟩
      refine Bool.eq_false_iff.mpr fun served => ?_
      have some := pending_pos (s := s) mem served
      unfold load at none
      omega
  | succ k ih =>
      cases first : s.sleeping.find? s.mayResume with
      | none =>
          have run := run_settleWithin_none (k := k) first
          refine ⟨[], [], nofun, by rw [run], by rw [run]; rfl, rfl, fun _ _ _ _ call mem => ?_⟩
          exact Bool.eq_false_iff.mpr (List.find?_eq_none.mp first call mem)
      | some call =>
          obtain ⟨wakes, later, resumes, result, state, ids, settled⟩ :=
            ih (s.after (.resume call.id))
          obtain ⟨result', state'⟩ := run_settleWithin_some first result
          refine ⟨.resume call.id :: wakes, _, ?_, result', state'.trans state, ?_, ?_⟩
          · exact List.forall_mem_cons.mpr ⟨rfl, resumes⟩
          · rw [List.map_append, ids, ids_report]
            rfl
          · intro consistent orderly recent enough
            have transition := run_step consistent (.resume call.id)
            have nearer := load_resume consistent orderly recent.1
              (List.mem_of_find?_eq_some first) (List.find?_some first) recent.2.first
            exact settled (transition.consistent consistent)
              (transition.orderly orderly recent.1) recent.2 (by omega)

end Session

end Highmem
