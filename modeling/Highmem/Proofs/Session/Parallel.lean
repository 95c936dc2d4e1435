import Highmem.Proofs.Renaming
import Highmem.Proofs.Session.Replies

/-!
# Two runs side by side

Two runs are parallel if the second one gives the replies and reports the events of the
first with the frames renamed, and ends in a session that is alike. What alike means is up
to the comparison. The moves that give something back are treated here for all of them,
since such a move looks at nothing but the direct map, the pool and what is kept.
-/

namespace Highmem

open Paging

def Reply.rename (r : Renaming) : Reply → Reply
  | refused cause => refused (cause.rename r)
  | reply => reply

theorem Reply.rename_identity : rename .identity = id := by
  funext reply
  cases reply with
  | refused cause => exact congrArg refused cause.rename_identity
  | _ => rfl

def Move.isDrop : Move → Bool
  | drop _ => true
  | _ => false

namespace Session

variable {n c : Nat} {r : Renaming} {alike : Session n c → Session n c → Prop}
  {s s' : Session n c}

/-- The second run is the first with the frames renamed, and ends alike. -/
structure Parallel (r : Renaming) (alike : Session n c → Session n c → Prop)
    (s s' : Session n c) (moves moves' : List Move) : Prop where
  replies : s'.replies moves' = (s.replies moves).map (r.ending (Reply.rename r))
  trace : s'.trace moves' = (s.trace moves).map (Event.rename r)
  final : alike (s.afterAll moves) (s'.afterAll moves')

namespace Parallel

variable {m m' : Move} {moves moves' : List Move}

theorem nil (states : alike s s') : Parallel r alike s s' [] [] := ⟨rfl, rfl, states⟩

/-- Two moves that end alike, and two runs that go on from there. -/
theorem cons
    (first : Outcome.Renamed r alike (Reply.rename r) ((step m).run s) ((step m').run s'))
    (rest : Parallel r alike (s.after m) (s'.after m') moves moves') :
    Parallel r alike s s' (m :: moves) (m' :: moves') := by
  obtain ⟨replies, trace, final⟩ := rest
  refine ⟨?_, ?_, final⟩
  · exact congr (congrArg _ first.result) replies
  · rw [Session.trace, Session.trace, List.map_append]
    exact congr (congrArg _ first.events) trace

/-- Two first moves with equal replies and events. -/
theorem cons_identity
    (first : Outcome.Renamed .identity alike id ((step m).run s) ((step m').run s'))
    (rest : Parallel .identity alike (s.after m) (s'.after m') moves moves') :
    Parallel .identity alike s s' (m :: moves) (m' :: moves') := by
  refine cons ?_ rest
  rw [Reply.rename_identity]
  exact first

end Parallel

/-- Sessions that are alike give their addresses back alike. Where names count, they keep
the same mappings. -/
structure GivesAlike (r : Renaming) (names : Bool)
    (alike : Session n c → Session n c → Prop) : Prop where
  direct_eq : ∀ {s s'}, alike s s' → s'.direct = s.direct
  kept_eq : ∀ {s s'}, alike s s' → names = true → s'.kept = s.kept
  keep : ∀ {s s'} kept, alike s s' → alike { s with kept } { s' with kept }
  tryRelease : ∀ {s s'} va, alike s s' →
    Outcome.Renamed r alike (Except.mapError (ReleaseError.rename r))
      ((onPool (Pool.tryRelease va)).run s) ((onPool (Pool.tryRelease va)).run s')
  release : ∀ {s s'} va, alike s s' →
    Outcome.Renamed r alike id ((onPool (Pool.release va)).run s)
      ((onPool (Pool.release va)).run s')

namespace GivesAlike

variable {names : Bool} (gives : GivesAlike r names alike)

include gives

theorem run_tryUnmap (va : VirtAddr) (states : alike s s') :
    Outcome.Renamed r alike (Except.mapError (ReleaseError.rename r)) ((tryUnmap va).run s)
      ((tryUnmap va).run s') := by
  refine .get_bind ?_
  rw [gives.direct_eq states]
  split
  · exact .pure (Except.ok ()) states
  · exact gives.tryRelease va states

theorem run_giveBack (x : Mapping) (states : alike s s') :
    Outcome.Renamed r alike id ((giveBack x).run s) ((giveBack x).run s') := by
  cases x with
  | direct va => exact .pure () states
  | slot va => exact gives.release va states

/-- A move that neither asks nor resumes, unless it drops a mapping by a name that does not
count. -/
theorem run_step {m : Move} (request : ∀ q, m ≠ .submit q) (resumption : ∀ id, m ≠ .resume id)
    (named : m.isDrop = true → names = true) (states : alike s s') :
    Outcome.Renamed r alike (Reply.rename r) ((step m).run s) ((step m).run s') := by
  cases m with
  | submit q => exact absurd rfl (request q)
  | resume id => exact absurd rfl (resumption id)
  | tryRelease va =>
      refine (gives.tryRelease va states).bind fun ending _ _ _ _ states => ?_
      cases ending with
      | ok => exact .pure Reply.done states
      | error cause => exact .pure (Reply.refused cause) states
  | release va =>
      exact (gives.release va states).bind fun _ _ _ _ _ states => .pure Reply.done states
  | tryUnmap va =>
      refine (gives.run_tryUnmap va states).bind fun ending _ _ _ _ states => ?_
      cases ending with
      | ok => exact .pure Reply.done states
      | error cause => exact .pure (Reply.refused cause) states
  | unmap va =>
      refine (gives.run_tryUnmap va states).bind fun ending _ _ _ _ states => ?_
      cases ending with
      | ok => exact .pure Reply.done states
      | error cause => exact ⟨rfl, states, rfl⟩
  | drop name =>
      rw [run_drop, run_drop, gives.kept_eq states (named rfl)]
      cases s.kept.find? (·.1 = name) with
      | none => exact .pure Reply.nothingKept states
      | some pair =>
          have left := gives.keep (s.kept.filter (·.1 ≠ name)) states
          exact (gives.run_giveBack pair.2 left).bind fun _ _ _ _ _ states =>
            .pure Reply.done states

end GivesAlike

end Session

end Highmem
