import Highmem.Proofs.Session.Parallel

/-!
# Sessions that act alike

By which route a sleeping call came to ask the pool does not matter any more, and under
which names callers keep their mappings matters to nobody but those who drop them. Sessions
that differ only in such things give the same replies and report the same events for ever.
-/

namespace Highmem

open Paging Sync

/-- What counts of a sleeping call. The name that it asks for counts where names do. -/
def SleepingCall.plain (names : Bool) (call : SleepingCall) : SleepingCall :=
  ⟨call.id, call.ticket,
    ⟨call.request.frame, .slots, if names then call.request.keepAs else none⟩⟩

/-- Two requests for one frame, under the same name where names count. -/
structure Request.Like (names : Bool) (r r' : Request) : Prop where
  frame_eq : r'.frame = r.frame
  keepAs_eq : names = true → r'.keepAs = r.keepAs

namespace SleepingCall

variable {names : Bool}

theorem like_of_plain {call call' : SleepingCall} (same : call'.plain names = call.plain names) :
    call'.id = call.id ∧ call.request.Like names call'.request := by
  simp only [plain, SleepingCall.mk.injEq, Request.mk.injEq, true_and] at same
  refine ⟨same.1, same.2.2.1, fun named => ?_⟩
  simpa [named] using same.2.2.2

theorem plain_of_like {id : Nat} {ticket : Ticket} {r r' : Request} (like : r.Like names r') :
    plain names ⟨id, ticket, r'⟩ = plain names ⟨id, ticket, r⟩ := by
  cases names with
  | false => simp [plain, like.frame_eq]
  | true => simp [plain, like.frame_eq, like.keepAs_eq rfl]

end SleepingCall

namespace Session

variable {n c : Nat} {s s' : Session n c} {names : Bool} {m : Move}

/-- The two sessions differ only in what does not count. -/
structure Like (names : Bool) (s s' : Session n c) : Prop where
  direct_eq : s'.direct = s.direct
  pool_eq : s'.pool = s.pool
  nextId_eq : s'.nextId = s.nextId
  sleeping_eq : s'.sleeping.map (SleepingCall.plain names) =
    s.sleeping.map (SleepingCall.plain names)
  kept_eq : names = true → s'.kept = s.kept

theorem Like.refl (s : Session n c) : Like names s s := ⟨rfl, rfl, rfl, rfl, fun _ => rfl⟩

theorem keeping_eq {r r' : Request} {kept kept' : List (String × Mapping)}
    (requests : r'.keepAs = r.keepAs) (same : kept' = kept) (result : Except Fault Reply) :
    keeping r' kept' result = keeping r kept result := by
  rw [same]
  rcases result with fault | (x | _ | _ | _ | _ | _)
  case ok.mapped => simp [keeping, requests]
  all_goals rfl

/-- Who asks for the same frame falls asleep alike. -/
theorem map_plain_queued {r r' : Request} (like : r.Like names r') (id : Nat)
    (result : Except Fault Pool.Grant) :
    (queued id r' result).map (SleepingCall.plain names) =
      (queued id r result).map (SleepingCall.plain names) := by
  rcases result with fault | va | ticket
  · rfl
  · rfl
  · exact congrArg (fun call => [call]) (SleepingCall.plain_of_like like)

theorem length_queued (id id' : Nat) (r r' : Request) (result : Except Fault Pool.Grant) :
    (queued id' r' result).length = (queued id r result).length := by
  rcases result with fault | va | ticket <;> rfl

namespace Like

variable (like : Like names s s')

include like

theorem with_pool (pool : Pool n c) : Like names { s with pool } { s' with pool } :=
  { like with pool_eq := rfl }

/-- Two requests for one frame that both go to the pool. -/
theorem run_submit_high {r r' : Request} (requests : r.Like names r')
    (high : ¬(r.route = .split ∧ s.direct.covers r.frame))
    (high' : ¬(r'.route = .split ∧ s.direct.covers r'.frame)) :
    Outcome.Renamed .identity (Like names) id ((submit r).run s) ((submit r').run s') := by
  rw [← like.direct_eq] at high'
  have run' := Session.run_submit_high s' high'
  simp only [requests.frame_eq, like.pool_eq, like.nextId_eq] at run'
  rw [Outcome.Renamed.identity_iff, Session.run_submit_high s high, run']
  refine ⟨rfl, rfl, like.direct_eq, rfl, ?_, ?_, fun named => ?_⟩
  · exact congrArg (s.nextId + ·) (length_queued ..)
  · rw [List.map_append, List.map_append, like.sleeping_eq, map_plain_queued requests]
  · exact keeping_eq (requests.keepAs_eq named) (like.kept_eq named) _

/-- The calls of one identity that may resume. -/
theorem find?_sleeping (id : Nat) :
    (s'.sleeping.find? fun call => call.id = id ∧ s'.mayResume call).map
        (SleepingCall.plain names) =
      (s.sleeping.find? fun call => call.id = id ∧ s.mayResume call).map
        (SleepingCall.plain names) := by
  have same : s'.mayResume = s.mayResume := by
    funext call
    rw [mayResume, mayResume, like.pool_eq]
  have found := congrArg (List.find? fun call => call.id = id ∧ s.mayResume call) like.sleeping_eq
  rw [List.find?_map, List.find?_map] at found
  rw [same]
  exact found

theorem filter_sleeping (id : Nat) :
    (s'.sleeping.filter (·.id ≠ id)).map (SleepingCall.plain names) =
      (s.sleeping.filter (·.id ≠ id)).map (SleepingCall.plain names) := by
  have left := congrArg (List.filter (·.id ≠ id)) like.sleeping_eq
  rw [List.filter_map, List.filter_map] at left
  exact left

/-- A call whose turn has come resumes alike. -/
theorem run_resume (k : Nat) :
    Outcome.Renamed .identity (Like names) id ((step (.resume k)).run s)
      ((step (.resume k)).run s') := by
  have chosen := like.find?_sleeping k
  rw [Session.run_resume, Session.run_resume]
  cases found : s.sleeping.find? fun call => call.id = k ∧ s.mayResume call with
  | none =>
      rw [found, Option.map_none, Option.map_eq_none_iff] at chosen
      rw [chosen]
      exact .pure Reply.notServed like
  | some call =>
      rw [found, Option.map_some, Option.map_eq_some_iff] at chosen
      -- the two calls need not be equal, but they ask for the same frame
      obtain ⟨call', found', same⟩ := chosen
      obtain ⟨ids, requests⟩ := SleepingCall.like_of_plain same
      have run' := run_wake_again s' call'
      simp only [requests.frame_eq, like.pool_eq, ids] at run'
      rw [found']
      dsimp only
      rw [run_wake_again, run']
      refine Outcome.Renamed.identity_iff.mpr
        ⟨rfl, rfl, like.direct_eq, rfl, like.nextId_eq, ?_, fun named => ?_⟩
      · rw [List.map_append, List.map_append, like.filter_sleeping, map_plain_queued requests]
      · exact keeping_eq (requests.keepAs_eq named) (like.kept_eq named) _

/-- What an operation does to equal pools. -/
theorem onPool {α : Type} (op : Op (Pool n c) α) :
    Outcome.Renamed .identity (Like names) id ((onPool op).run s) ((Session.onPool op).run s') := by
  rw [Outcome.Renamed.identity_iff, Session.onPool, Op.run_within, Op.run_within, like.pool_eq]
  exact ⟨rfl, rfl, like.with_pool _⟩

theorem run_deliver {r r' : Request} (requests : r.Like names r') (x : Mapping) :
    Outcome.Renamed .identity (Like names) id ((deliver r x).run s) ((deliver r' x).run s') := by
  rw [Outcome.Renamed.identity_iff, Session.run_deliver, Session.run_deliver]
  refine ⟨rfl, rfl, { like with kept_eq := fun named => ?_ }⟩
  exact keeping_eq (requests.keepAs_eq named) (like.kept_eq named) (.ok (.mapped x))

/-- Two requests for one frame that the direct map serves. -/
theorem run_submit_low {r r' : Request} (requests : r.Like names r')
    (low : r.route = .split ∧ s.direct.covers r.frame)
    (low' : r'.route = .split ∧ s.direct.covers r'.frame) :
    Outcome.Renamed .identity (Like names) id ((submit r).run s) ((submit r').run s') := by
  refine .get_bind ?_
  rw [like.direct_eq, if_pos low, if_pos low', requests.frame_eq]
  refine (Outcome.Renamed.lift _ like).bind fun va _ _ _ _ like => ?_
  exact (like.run_deliver requests (.direct va)).bind fun x _ _ _ _ like =>
    .pure (Reply.mapped x) like

/-- Two requests for one frame that go the same way. -/
theorem run_submit {r r' : Request} (requests : r.Like names r')
    (way : (r'.route = .split ∧ s.direct.covers r'.frame) ↔
      (r.route = .split ∧ s.direct.covers r.frame)) :
    Outcome.Renamed .identity (Like names) id ((submit r).run s) ((submit r').run s') := by
  by_cases low : r.route = .split ∧ s.direct.covers r.frame
  · exact like.run_submit_low requests low (way.mpr low)
  · exact like.run_submit_high requests low (mt way.mp low)

end Like

/-- Like sessions give their addresses back alike. -/
theorem Like.givesAlike :
    GivesAlike .identity names (Like names : Session n c → Session n c → Prop) where
  direct_eq := (·.direct_eq)
  kept_eq := (·.kept_eq)
  keep _ like := { like with kept_eq := fun _ => rfl }
  tryRelease va like := by
    rw [ReleaseError.mapError_identity]
    exact like.onPool _
  release va like := like.onPool _

/-- Every move, unless it drops a mapping by a name that does not count. -/
theorem Like.run_step (like : Like names s s') (m : Move)
    (named : m.isDrop = true → names = true) :
    Outcome.Renamed .identity (Like names) id ((step m).run s) ((step m).run s') := by
  cases m with
  | submit r => exact like.run_submit ⟨rfl, fun _ => rfl⟩ Iff.rfl
  | resume k => exact like.run_resume k
  | _ =>
      rw [← Reply.rename_identity]
      exact givesAlike.run_step nofun nofun named like

/-- Sessions that act alike do so for ever. -/
theorem Like.run (like : Like names s s') {moves : List Move}
    (named : ∀ m ∈ moves, m.isDrop = true → names = true) :
    Parallel .identity (Like names) s s' moves moves := by
  induction moves generalizing s s' with
  | nil => exact .nil like
  | cons m later ih =>
      obtain ⟨here, named⟩ := List.forall_mem_cons.mp named
      have first := like.run_step m here
      exact .cons_identity first (ih first.state named)

end Session

end Highmem
