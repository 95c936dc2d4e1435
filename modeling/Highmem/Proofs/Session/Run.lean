import Highmem.Session
import Highmem.Proofs.Pool.Attempt
import Highmem.Proofs.Pool.Release

/-!
# Runs of a session

A run is a list of moves; the moves of different callers may come in any order. A
move that faults leaves the state that it reached, and the run goes on from there.
`after`, `emitted` and their companions for runs describe what a session becomes and
what it reports.

`Transition` says what a move can do to the pool and to the sleeping calls: nothing,
one request for a frame, one resumption of a call that was let in, or one address
given back. Whatever holds along all transitions holds along all runs.
-/

namespace Highmem.Session

open Paging Sync

variable {n c : Nat} {s s' : Session n c}

def after (s : Session n c) (m : Move) : Session n c := ((step m).run s).state

def emitted (s : Session n c) (m : Move) : List Event := ((step m).run s).events

/-- The session after some moves. -/
def afterAll (s : Session n c) : List Move → Session n c
  | [] => s
  | m :: later => (s.after m).afterAll later

/-- The events of some moves. -/
def trace (s : Session n c) : List Move → List Event
  | [] => []
  | m :: later => s.emitted m ++ (s.after m).trace later

theorem afterAll_append (s : Session n c) (moves moves' : List Move) :
    s.afterAll (moves ++ moves') = (s.afterAll moves).afterAll moves' := by
  induction moves generalizing s with
  | nil => rfl
  | cons m later ih => exact ih (s.after m)

theorem trace_append (s : Session n c) (moves moves' : List Move) :
    s.trace (moves ++ moves') = s.trace moves ++ (s.afterAll moves).trace moves' := by
  induction moves generalizing s with
  | nil => rfl
  | cons m later ih =>
      change s.emitted m ++ (s.after m).trace (later ++ moves') = _
      rw [ih, ← List.append_assoc]
      rfl

theorem trace_concat (s : Session n c) (moves : List Move) (m : Move) :
    s.trace (moves ++ [m]) = s.trace moves ++ (s.afterAll moves).emitted m := by
  rw [trace_append]
  exact congrArg _ (List.append_nil _)

/-- Every session of a run has a property, the first and the last one included. -/
def Along (P : Session n c → Prop) (s : Session n c) : List Move → Prop
  | [] => P s
  | m :: later => P s ∧ Along P (s.after m) later

instance decidableAlong {P : Session n c → Prop} [DecidablePred P] (s : Session n c) :
    (moves : List Move) → Decidable (Along P s moves)
  | [] => inferInstanceAs (Decidable (P s))
  | m :: later =>
    have := decidableAlong (P := P) (s.after m) later
    inferInstanceAs (Decidable (P s ∧ Along P (s.after m) later))

theorem Along.first {P : Session n c → Prop} {moves : List Move} (along : Along P s moves) :
    P s := by
  cases moves with
  | nil => exact along
  | cons => exact along.1

theorem Along.last {P : Session n c → Prop} {moves : List Move} (along : Along P s moves) :
    P (s.afterAll moves) := by
  induction moves generalizing s with
  | nil => exact along
  | cons m later ih => exact ih along.2

/-- What a request adds to the sleeping calls: itself, if it got a ticket. -/
def queued (id : Nat) (r : Request) : Except Fault Pool.Grant → List SleepingCall
  | .ok (.parked ticket) => [⟨id, ticket, r⟩]
  | _ => []

/-- What a move can do to the pool and to the sleeping calls. -/
inductive Transition (s s' : Session n c) : List Event → Prop
  | rest (pool : s'.pool = s.pool) (sleeping : s'.sleeping = s.sleeping)
      (nextId : s'.nextId = s.nextId) : Transition s s' []
  | request {r : Request} {o : Outcome (Pool n c) Pool.Grant}
      (ends : s.pool.Attempts r.frame o) (pool : s'.pool = o.state)
      (sleeping : s'.sleeping = s.sleeping ++ queued s.nextId r o.result)
      (nextId : s'.nextId = s.nextId + (queued s.nextId r o.result).length) :
      Transition s s' o.events
  | resumption {call : SleepingCall} {o : Outcome (Pool n c) Pool.Grant}
      (mem : call ∈ s.sleeping) (served : s.mayResume call = true)
      (ends : s.pool.Attempts call.request.frame o) (pool : s'.pool = o.state)
      (sleeping : s'.sleeping =
        s.sleeping.filter (·.id ≠ call.id) ++ queued call.id call.request o.result)
      (nextId : s'.nextId = s.nextId) :
      Transition s s' (.woken call.request.frame :: o.events)
  | release {va : VirtAddr} {o : Outcome (Pool n c) (Except ReleaseError Unit)}
      (ends : s.pool.Releases va o) (pool : s'.pool = o.state)
      (sleeping : s'.sleeping = s.sleeping) (nextId : s'.nextId = s.nextId) :
      Transition s s' o.events

/-- What callers keep once a request was answered. A mapping that is delivered under a name
takes the place of one that was kept under it. -/
def keeping (r : Request) (kept : List (String × Mapping)) :
    Except Fault Reply → List (String × Mapping)
  | .ok (.mapped m) =>
    match r.keepAs with
    | none => kept
    | some name => (name, m) :: kept.filter (·.1 ≠ name)
  | _ => kept

theorem run_deliver (r : Request) (m : Mapping) (s : Session n c) :
    (deliver r m).run s = ⟨.ok m, { s with kept := keeping r s.kept (.ok (.mapped m)) }, []⟩ := by
  cases name : r.keepAs with
  | none => simp [deliver, keeping, name]
  | some key => simp [deliver, keeping, name, Except.map]

theorem run_conclude_granted (id : Nat) (r : Request) (va : VirtAddr) (s : Session n c) :
    (conclude id r (.granted va)).run s =
      ⟨.ok (.mapped (.slot va)),
        { s with kept := keeping r s.kept (.ok (.mapped (.slot va))) }, []⟩ := by
  simp [conclude, run_deliver, Except.map]

theorem run_conclude_parked (id : Nat) (r : Request) (ticket : Ticket) (s : Session n c) :
    (conclude id r (.parked ticket)).run s =
      ⟨.ok (.asleep id), { s with sleeping := s.sleeping ++ [⟨id, ticket, r⟩] }, []⟩ := by
  simp [conclude, Except.map]

/-- What a caller that asks the pool for a frame learns, told from how the request ended
in the pool. -/
inductive Answers : Except Fault Pool.Grant → Except Fault Reply → Prop
  | granted {va : VirtAddr} : Answers (.ok (.granted va)) (.ok (.mapped (.slot va)))
  | parked {ticket : Ticket} {id : Nat} : Answers (.ok (.parked ticket)) (.ok (.asleep id))
  | fault {cause : Fault} : Answers (.error cause) (.error cause)

/-- What the caller under a given identity learns. -/
def answer (id : Nat) : Except Fault Pool.Grant → Except Fault Reply
  | .ok (.granted va) => .ok (.mapped (.slot va))
  | .ok (.parked _) => .ok (.asleep id)
  | .error cause => .error cause

theorem answers_answer (id : Nat) (result : Except Fault Pool.Grant) :
    Answers result (answer id result) := by
  rcases result with cause | va | ticket
  · exact .fault
  · exact .granted
  · exact .parked

/-- A request that the direct map does not serve is one for the pool. -/
theorem run_submit_high (s : Session n c) {r : Request}
    (high : ¬ (r.route = .split ∧ s.direct.covers r.frame)) :
    let o := (Pool.attempt r.frame).run s.pool
    (submit r).run s =
      ⟨answer s.nextId o.result,
        { s with
          pool := o.state
          kept := keeping r s.kept (answer s.nextId o.result)
          sleeping := s.sleeping ++ queued s.nextId r o.result
          nextId := s.nextId + (queued s.nextId r o.result).length }, o.events⟩ := by
  cases attempted : (Pool.attempt r.frame).run s.pool with
  | mk result pool es =>
    rcases result with fault | va | ticket
    · simp [submit, high, onPool, attempted, queued, answer, keeping]
    · simp [submit, high, onPool, attempted, run_conclude_granted, queued, answer]
    · simp [submit, high, onPool, attempted, run_conclude_parked, queued, answer, keeping]

/-- A call that resumes asks the pool once more. -/
theorem run_wake_again (s : Session n c) (call : SleepingCall) :
    let o := (Pool.attempt call.request.frame).run s.pool
    (wake call).run s =
      ⟨answer call.id o.result,
        { s with
          pool := o.state
          kept := keeping call.request s.kept (answer call.id o.result)
          sleeping := s.sleeping.filter (·.id ≠ call.id) ++
            queued call.id call.request o.result },
        .woken call.request.frame :: o.events⟩ := by
  cases attempted : (Pool.attempt call.request.frame).run s.pool with
  | mk result pool es =>
    rcases result with fault | va | ticket
    · simp [wake, onPool, Pool.retry, attempted, queued, answer, keeping]
    · simp [wake, onPool, Pool.retry, attempted, run_conclude_granted, queued, answer]
    · simp [wake, onPool, Pool.retry, attempted, run_conclude_parked, queued, answer, keeping]

/-- A request that the direct map serves is answered at once. -/
theorem run_submit_low (s : Session n c) {r : Request} {va : VirtAddr}
    (low : r.route = .split ∧ s.direct.covers r.frame)
    (address : s.direct.addressOf r.frame = .ok va) :
    (submit r).run s =
      ⟨.ok (.mapped (.direct va)),
        { s with kept := keeping r s.kept (.ok (.mapped (.direct va))) }, []⟩ := by
  simp [submit, low, address, run_deliver, Except.map]

theorem run_submit_pool (s : Session n c) {r : Request}
    (high : ¬ (r.route = .split ∧ s.direct.covers r.frame)) :
    let o := (Pool.attempt r.frame).run s.pool
    ∃ kept result, Answers o.result result ∧ (submit r).run s =
      ⟨result,
        { s with
          pool := o.state, kept
          sleeping := s.sleeping ++ queued s.nextId r o.result
          nextId := s.nextId + (queued s.nextId r o.result).length }, o.events⟩ :=
  ⟨_, _, answers_answer s.nextId _, run_submit_high s high⟩

theorem run_wake_pool (s : Session n c) (call : SleepingCall) :
    let o := (Pool.attempt call.request.frame).run s.pool
    ∃ kept result, Answers o.result result ∧ (wake call).run s =
      ⟨result,
        { s with
          pool := o.state, kept
          sleeping := s.sleeping.filter (·.id ≠ call.id) ++
            queued call.id call.request o.result },
        .woken call.request.frame :: o.events⟩ :=
  ⟨_, _, answers_answer call.id _, run_wake_again s call⟩

/-- A request that the direct map serves does not touch the pool. -/
theorem run_submit_direct (s : Session n c) {r : Request}
    (low : r.route = .split ∧ s.direct.covers r.frame) :
    (∃ kept va, (submit r).run s = ⟨.ok (.mapped (.direct va)), { s with kept }, []⟩) ∨
      ∃ cause, s.direct.addressOf r.frame = .error cause ∧
        (submit r).run s = ⟨.error (.overflow cause), s, []⟩ := by
  cases address : s.direct.addressOf r.frame with
  | error cause =>
      refine Or.inr ⟨cause, rfl, ?_⟩
      simp [submit, low, address]
  | ok va => exact Or.inl ⟨_, va, run_submit_low s low address⟩

theorem run_submit (consistent : s.pool.Consistent) (r : Request) :
    Transition s ((submit r).run s).state ((submit r).run s).events := by
  by_cases low : r.route = .split ∧ s.direct.covers r.frame
  · obtain ⟨kept, va, run⟩ | ⟨cause, -, run⟩ := run_submit_direct s low
    · rw [run]
      exact .rest rfl rfl rfl
    · rw [run]
      exact .rest rfl rfl rfl
  · obtain ⟨kept, result, -, run⟩ := run_submit_pool s low
    rw [run]
    exact .request (consistent.run_attempt r.frame) rfl rfl rfl

theorem run_wake (consistent : s.pool.Consistent) {call : SleepingCall}
    (mem : call ∈ s.sleeping) (served : s.mayResume call = true) :
    Transition s ((wake call).run s).state ((wake call).run s).events := by
  obtain ⟨kept, result, -, run⟩ := run_wake_pool s call
  rw [run]
  exact .resumption mem served (consistent.run_attempt call.request.frame) rfl rfl rfl

/-- What follows an operation does not matter if it neither changes nor reports anything. -/
theorem transition_bind {α β : Type} {op : Op (Session n c) α} {next : α → Op (Session n c) β}
    (first : Transition s (op.run s).state (op.run s).events)
    (quiet : ∀ a s', ((next a).run s').state = s' ∧ ((next a).run s').events = []) :
    Transition s ((op >>= next).run s).state ((op >>= next).run s).events := by
  cases ran : op.run s with
  | mk result s' es =>
    rw [ran] at first
    cases result with
    | error fault =>
        rw [Op.run_bind_error ran]
        exact first
    | ok a =>
        rw [Op.run_bind_ok ran]
        rw [(quiet a s').1, (quiet a s').2, List.append_nil]
        exact first

theorem transition_tryRelease (consistent : s.pool.Consistent) (va : VirtAddr) :
    Transition s ((onPool (Pool.tryRelease va)).run s).state
      ((onPool (Pool.tryRelease va)).run s).events :=
  .release (consistent.run_tryRelease va) rfl rfl rfl

theorem transition_release (consistent : s.pool.Consistent) (va : VirtAddr) :
    Transition s ((onPool (Pool.release va)).run s).state
      ((onPool (Pool.release va)).run s).events := by
  obtain ⟨state, events⟩ := Pool.run_release s.pool va
  rw [onPool, Op.run_within, state, events]
  exact .release (consistent.run_tryRelease va) rfl rfl rfl

theorem transition_tryUnmap (consistent : s.pool.Consistent) (va : VirtAddr) :
    Transition s ((tryUnmap va).run s).state ((tryUnmap va).run s).events := by
  by_cases direct : s.direct.contains va = true
  · have run : (tryUnmap va).run s = ⟨.ok (.ok ()), s, []⟩ := by
      simp [tryUnmap, direct]
    rw [run]
    exact .rest rfl rfl rfl
  · have run : (tryUnmap va).run s = (onPool (Pool.tryRelease va)).run s := by
      simp [tryUnmap, direct]
    rw [run]
    exact transition_tryRelease consistent va

theorem transition_giveBack (consistent : s.pool.Consistent) (m : Mapping) :
    Transition s ((giveBack m).run s).state ((giveBack m).run s).events := by
  cases m with
  | direct va => exact .rest rfl rfl rfl
  | slot va => exact transition_release consistent va

/-- The kept mappings do not matter for what a move can do. -/
theorem Transition.of_kept {kept : List (String × Mapping)} {es : List Event}
    (transition : Transition { s with kept } s' es) : Transition s s' es := by
  cases transition with
  | rest pool sleeping nextId => exact .rest pool sleeping nextId
  | request ends pool sleeping nextId => exact .request ends pool sleeping nextId
  | resumption mem served ends pool sleeping nextId =>
      exact .resumption mem served ends pool sleeping nextId
  | release ends pool sleeping nextId => exact .release ends pool sleeping nextId

theorem transition_drop (consistent : s.pool.Consistent) (kept : List (String × Mapping))
    (m : Mapping) :
    Transition { s with kept }
      ((giveBack m >>= fun _ => pure Reply.done).run { s with kept }).state
      ((giveBack m >>= fun _ => pure Reply.done).run { s with kept }).events := by
  have here : ({ s with kept } : Session n c).pool.Consistent := consistent
  apply transition_bind (transition_giveBack here m)
  intro ending s'
  exact ⟨rfl, rfl⟩

theorem run_resume (s : Session n c) (id : Nat) :
    (step (.resume id)).run s =
      match s.sleeping.find? fun call => call.id = id ∧ s.mayResume call with
      | none => ⟨.ok .notServed, s, []⟩
      | some call => (wake call).run s := by
  simp only [step, Op.run_bind, Op.run_get]
  cases s.sleeping.find? fun call => call.id = id ∧ s.mayResume call <;> rfl

theorem run_drop (s : Session n c) (name : String) :
    (step (.drop name)).run s =
      match s.kept.find? (·.1 = name) with
      | none => ⟨.ok .nothingKept, s, []⟩
      | some (_, m) =>
        (giveBack m >>= fun _ => pure Reply.done).run
          { s with kept := s.kept.filter (·.1 ≠ name) } := by
  simp only [step, Op.run_bind, Op.run_get]
  cases s.kept.find? (·.1 = name) <;> rfl

/-- Every move is one of the transitions. -/
theorem run_step (consistent : s.pool.Consistent) (m : Move) :
    Transition s (s.after m) (s.emitted m) := by
  unfold after emitted
  cases m with
  | submit r => exact run_submit consistent r
  | resume id =>
      rw [run_resume]
      cases found : s.sleeping.find? fun call => call.id = id ∧ s.mayResume call with
      | none => exact .rest rfl rfl rfl
      | some call =>
          have chosen := List.find?_some found
          have served : s.mayResume call = true := (of_decide_eq_true chosen).2
          exact run_wake consistent (List.mem_of_find?_eq_some found) served
  | tryRelease va =>
      apply transition_bind (transition_tryRelease consistent va)
      intro ending s'
      cases ending <;> exact ⟨rfl, rfl⟩
  | release va =>
      apply transition_bind (transition_release consistent va)
      intro ending s'
      exact ⟨rfl, rfl⟩
  | tryUnmap va =>
      apply transition_bind (transition_tryUnmap consistent va)
      intro ending s'
      cases ending <;> exact ⟨rfl, rfl⟩
  | unmap va =>
      apply transition_bind (transition_tryUnmap consistent va)
      intro ending s'
      cases ending <;> exact ⟨rfl, rfl⟩
  | drop name =>
      rw [run_drop]
      cases s.kept.find? (·.1 = name) with
      | none => exact .rest rfl rfl rfl
      | some pair => exact (transition_drop consistent _ pair.2).of_kept

theorem Transition.consistent {es : List Event} (transition : Transition s s' es)
    (before : s.pool.Consistent) : s'.pool.Consistent := by
  cases transition with
  | rest pool => exact pool ▸ before
  | request ends pool => exact pool ▸ ends.consistent before
  | resumption _ _ ends pool => exact pool ▸ ends.consistent before
  | release ends pool => exact pool ▸ ends.consistent before

theorem Transition.base_eq {es : List Event} (transition : Transition s s' es) :
    s'.pool.base = s.pool.base := by
  cases transition with
  | rest pool => rw [pool]
  | request ends pool => rw [pool, ends.base_eq]
  | resumption _ _ ends pool => rw [pool, ends.base_eq]
  | release ends pool => rw [pool, ends.base_eq]

/-- What every transition keeps holds after every run. -/
theorem invariant_afterAll {P : Session n c → Prop}
    (keeps : ∀ s s' es, s.pool.Consistent → Transition s s' es → P s → P s')
    (consistent : s.pool.Consistent) (holds : P s) (moves : List Move) :
    P (s.afterAll moves) := by
  induction moves generalizing s with
  | nil => exact holds
  | cons m later ih =>
      have transition := run_step consistent m
      exact ih (transition.consistent consistent) (keeps _ _ _ consistent transition holds)

theorem consistent_afterAll (consistent : s.pool.Consistent) (moves : List Move) :
    (s.afterAll moves).pool.Consistent :=
  invariant_afterAll (fun _ _ _ _ transition before => transition.consistent before)
    consistent consistent moves

theorem base_afterAll (consistent : s.pool.Consistent) (moves : List Move) :
    (s.afterAll moves).pool.base = s.pool.base :=
  invariant_afterAll (fun _ _ _ _ transition before => transition.base_eq.trans before)
    consistent rfl moves

end Highmem.Session
