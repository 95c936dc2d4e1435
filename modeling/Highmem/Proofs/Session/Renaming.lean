import Highmem.Proofs.Pool.Renaming
import Highmem.Proofs.Session.Parallel

/-!
# Two runs that differ in their frames

Whoever renames the frames of all requests of a run sees the same run: the same calls fall
asleep and return in the same order, with the same addresses, and what names a frame names
the renamed one. So nothing that callers can see depends on the number of a frame, neither
on where the reverse map holds it nor on the bits of its page-table entry.
-/

namespace Highmem

open Paging Sync

section

variable (r : Renaming)

def Request.rename (q : Request) : Request := { q with frame := r.frame q.frame }

def SleepingCall.rename (call : SleepingCall) : SleepingCall :=
  { call with request := call.request.rename r }

def Move.rename : Move → Move
  | submit q => submit (q.rename r)
  | m => m

def Finished.rename (x : Finished) : Finished :=
  ⟨x.id, x.request.rename r, r.ending (fun m => m) x.result⟩

end

/-- The move asks for no frame, or for a slot for a narrow one. -/
def Move.IsNarrow : Move → Prop
  | submit q => q.route = .slots ∧ q.frame.IsNarrow
  | _ => True

instance decidableIsNarrow : (m : Move) → Decidable m.IsNarrow
  | .submit q => inferInstanceAs (Decidable (q.route = .slots ∧ q.frame.IsNarrow))
  | .resume _ | .tryRelease _ | .release _ | .tryUnmap _ | .unmap _ | .drop _ => .isTrue trivial

namespace Session

variable {n c : Nat} {s s' : Session n c} {r : Renaming}

/-- The second session is the first with the frames renamed. -/
structure Renamed (r : Renaming) (s s' : Session n c) : Prop where
  direct_eq : s'.direct = s.direct
  pool : s.pool.Renamed r s'.pool
  sleeping_eq : s'.sleeping = s.sleeping.map (SleepingCall.rename r)
  kept_eq : s'.kept = s.kept
  nextId_eq : s'.nextId = s.nextId
  isNarrow : ∀ call ∈ s.sleeping, call.request.frame.IsNarrow

namespace Renamed

variable (renamed : s.Renamed r s')

include renamed

theorem with_pool {p p' : Pool n c} (pools : p.Renamed r p') :
    Renamed r { s with pool := p } { s' with pool := p' } :=
  { renamed with pool := pools }

/-- An operation on the pools. -/
theorem onPool {α : Type} {value : α → α} {op op' : Op (Pool n c) α}
    (pools : Outcome.Renamed r (Pool.Renamed r) value (op.run s.pool) (op'.run s'.pool)) :
    Outcome.Renamed r (Renamed r) value ((onPool op).run s) ((Session.onPool op').run s') :=
  pools.within fun _ _ => renamed.with_pool

theorem run_deliver (q : Request) (m : Mapping) :
    Outcome.Renamed r (Renamed r) id ((deliver q m).run s) ((deliver (q.rename r) m).run s') := by
  unfold deliver Request.rename
  cases q.keepAs with
  | none => exact .pure m renamed
  | some name =>
      refine Outcome.Renamed.bind (.modify ?_) fun _ _ _ _ _ renamed => .pure m renamed
      rw [renamed.kept_eq]
      exact { renamed with kept_eq := rfl }

theorem run_conclude (id : Nat) {q : Request} (narrow : q.frame.IsNarrow) (grant : Pool.Grant) :
    Outcome.Renamed r (Renamed r) (Reply.rename r) ((conclude id q grant).run s)
      ((conclude id (q.rename r) grant).run s') := by
  cases grant with
  | granted va =>
      exact (renamed.run_deliver q (.slot va)).bind fun m _ _ _ _ renamed =>
        .pure (Reply.mapped m) renamed
  | parked ticket =>
      refine Outcome.Renamed.bind (.modify ?_) fun _ _ _ _ _ renamed =>
        .pure (Reply.asleep id) renamed
      have sleeping : s'.sleeping ++ [SleepingCall.mk id ticket (q.rename r)] =
          (s.sleeping ++ [SleepingCall.mk id ticket q]).map (SleepingCall.rename r) := by
        rw [List.map_append, ← renamed.sleeping_eq]
        rfl
      refine { renamed with sleeping_eq := sleeping, isNarrow := fun call mem => ?_ }
      rcases List.mem_append.mp mem with old | new
      · exact renamed.isNarrow call old
      · rw [List.mem_singleton.mp new]
        exact narrow

/-- A request for a slot. -/
theorem run_submit {q : Request} (slots : q.route = .slots) (narrow : q.frame.IsNarrow) :
    Outcome.Renamed r (Renamed r) (Reply.rename r) ((submit q).run s)
      ((submit (q.rename r)).run s') := by
  have high : ¬(q.route = .split ∧ s.direct.covers q.frame = true) := by
    rw [slots]
    exact fun split => nomatch split.1
  have high' : ¬((q.rename r).route = .split ∧ s'.direct.covers (q.rename r).frame = true) := by
    change ¬(q.route = .split ∧ _)
    rw [slots]
    exact fun split => nomatch split.1
  refine .get_bind ?_
  rw [if_neg high, if_neg high', renamed.nextId_eq]
  refine (renamed.onPool (renamed.pool.run_attempt narrow)).bind fun grant t t' _ _ renamed => ?_
  cases grant with
  | granted va => exact renamed.run_conclude s.nextId narrow (.granted va)
  | parked ticket =>
      have counted :
          Renamed r { t with nextId := t.nextId + 1 } { t' with nextId := t'.nextId + 1 } :=
        { renamed with nextId_eq := congrArg (· + 1) renamed.nextId_eq }
      refine (Outcome.Renamed.modify counted).bind fun _ _ _ _ _ renamed => ?_
      exact renamed.run_conclude s.nextId narrow (.parked ticket)

/-- Going on with a sleeping call. -/
theorem run_wake {call : SleepingCall} (mem : call ∈ s.sleeping) :
    Outcome.Renamed r (Renamed r) (Reply.rename r) ((wake call).run s)
      ((wake (call.rename r)).run s') := by
  have narrow := renamed.isNarrow call mem
  have left : Renamed r { s with sleeping := s.sleeping.filter (·.id ≠ call.id) }
      { s' with sleeping := s'.sleeping.filter (·.id ≠ (call.rename r).id) } := by
    refine { renamed with sleeping_eq := ?_, isNarrow := fun other kept => ?_ }
    · change s'.sleeping.filter _ = (s.sleeping.filter _).map _
      rw [renamed.sleeping_eq, List.filter_map]
      rfl
    · exact renamed.isNarrow other (List.mem_of_mem_filter kept)
  refine (Outcome.Renamed.modify left).bind fun _ _ _ _ _ renamed => ?_
  refine (renamed.onPool (renamed.pool.run_retry narrow)).bind fun grant _ _ _ _ renamed => ?_
  exact renamed.run_conclude call.id narrow grant

theorem mayResume_eq (call : SleepingCall) : s'.mayResume (call.rename r) = s.mayResume call := by
  rw [mayResume, mayResume, renamed.pool.elsewhere.tickets_eq]
  rfl

/-- The call whose turn comes is the same. -/
theorem find?_sleeping {pick pick' : SleepingCall → Bool}
    (same : ∀ call, pick' (call.rename r) = pick call) :
    s'.sleeping.find? pick' = (s.sleeping.find? pick).map (SleepingCall.rename r) := by
  rw [renamed.sleeping_eq, List.find?_map]
  congr 2
  exact funext same

theorem run_resume (id : Nat) :
    Outcome.Renamed r (Renamed r) (Reply.rename r) ((step (.resume id)).run s)
      ((step (.resume id)).run s') := by
  have chosen : (s'.sleeping.find? fun call => call.id = id ∧ s'.mayResume call) =
      (s.sleeping.find? fun call => call.id = id ∧ s.mayResume call).map
        (SleepingCall.rename r) := by
    refine renamed.find?_sleeping fun call => ?_
    rw [renamed.mayResume_eq]
    rfl
  rw [Session.run_resume, Session.run_resume, chosen]
  cases found : s.sleeping.find? fun call => call.id = id ∧ s.mayResume call with
  | none => exact .pure Reply.notServed renamed
  | some call => exact renamed.run_wake (List.mem_of_find?_eq_some found)

/-- Letting calls resume, the one whose turn came first always first. -/
theorem run_settleWithin (k : Nat) :
    Outcome.Renamed r (Renamed r) (List.map (Finished.rename r)) ((settleWithin k).run s)
      ((settleWithin k).run s') := by
  induction k generalizing s s' with
  | zero => exact .pure [] renamed
  | succ k ih =>
      refine .get_bind ?_
      rw [renamed.find?_sleeping renamed.mayResume_eq]
      cases s.sleeping.find? s.mayResume with
      | none => exact .pure [] renamed
      | some call =>
          refine (renamed.run_resume call.id).ending.bind fun reply _ _ _ _ renamed => ?_
          refine (ih renamed).bind fun later _ _ _ _ renamed => ?_
          -- only a call that returned is listed
          cases reply with
          | error fault =>
              exact .pure (Finished.mk call.id call.request (.error fault) :: later) renamed
          | ok answer =>
              cases answer with
              | mapped m =>
                  exact .pure (Finished.mk call.id call.request (.ok m) :: later) renamed
              | asleep => exact .pure later renamed
              | done => exact .pure later renamed
              | refused => exact .pure later renamed
              | nothingKept => exact .pure later renamed
              | notServed => exact .pure later renamed

theorem run_settle :
    Outcome.Renamed r (Renamed r) (List.map (Finished.rename r)) (settle.run s)
      (settle.run s') := by
  refine .get_bind ?_
  rw [renamed.sleeping_eq, List.length_map]
  exact renamed.run_settleWithin _

end Renamed

/-- Renamed sessions give their addresses back alike. -/
theorem Renamed.givesAlike :
    GivesAlike r true (Renamed r : Session n c → Session n c → Prop) where
  direct_eq := (·.direct_eq)
  kept_eq renamed _ := renamed.kept_eq
  keep _ renamed := { renamed with kept_eq := rfl }
  tryRelease va renamed := renamed.onPool (renamed.pool.run_tryRelease va)
  release va renamed := renamed.onPool (renamed.pool.run_release va)

/-- Every move does the same up to the names of the frames. -/
theorem Renamed.run_step (renamed : s.Renamed r s') {m : Move} (narrow : m.IsNarrow) :
    Outcome.Renamed r (Renamed r) (Reply.rename r) ((step m).run s)
      ((step (m.rename r)).run s') := by
  cases m with
  | submit q => exact renamed.run_submit narrow.1 narrow.2
  | resume id => exact renamed.run_resume id
  | _ => exact givesAlike.run_step nofun nofun (fun _ => rfl) renamed

/-- Every run does the same up to the names of the frames. -/
theorem Renamed.run {moves : List Move} (renamed : s.Renamed r s')
    (narrow : ∀ m ∈ moves, m.IsNarrow) :
    Parallel r (Renamed r) s s' moves (moves.map (Move.rename r)) := by
  induction moves generalizing s s' with
  | nil => exact .nil renamed
  | cons m later ih =>
      obtain ⟨here, narrow⟩ := List.forall_mem_cons.mp narrow
      have first := renamed.run_step here
      exact .cons first (ih first.state narrow)

theorem renamed_start {size : Pool.Size n} {base : VirtAddr} {pool : Pool n n}
    (created : Pool.create size base = .ok pool) (direct : DirectMap) :
    (start direct pool).Renamed r (start direct pool) :=
  ⟨rfl, .of_create created, rfl, rfl, rfl, nofun⟩

/-- Callers that rename the frames of all their requests learn the same, with the frames
renamed: the same addresses and errors, the same calls that sleep and may resume, the same
totals, slots and reverse pointers. -/
theorem renamed_afterAll {size : Pool.Size n} {base : VirtAddr} {pool : Pool n n}
    (created : Pool.create size base = .ok pool) (direct : DirectMap) (r : Renaming)
    {moves : List Move} (narrow : ∀ m ∈ moves, m.IsNarrow) :
    let s := (start direct pool).afterAll moves
    let s' := (start direct pool).afterAll (moves.map (Move.rename r))
    (start direct pool).replies (moves.map (Move.rename r)) =
        ((start direct pool).replies moves).map (r.ending (Reply.rename r)) ∧
      (start direct pool).trace (moves.map (Move.rename r)) =
        ((start direct pool).trace moves).map (Event.rename r) ∧
      s'.sleeping = s.sleeping.map (SleepingCall.rename r) ∧
      (∀ call, s'.mayResume (call.rename r) = s.mayResume call) ∧
      (settle.run s').result = r.ending (List.map (Finished.rename r)) (settle.run s).result ∧
      s'.pool.stats = s.pool.stats ∧
      (∀ nr, s'.pool.slot nr = (s.pool.slot nr).rename r) ∧
      ∀ f, f.IsNarrow → s'.pool.addressOf? (r.frame f) = s.pool.addressOf? f := by
  intro s s'
  obtain ⟨replies, trace, renamed⟩ := (renamed_start (r := r) created direct).run narrow
  exact ⟨replies, trace, renamed.sleeping_eq, renamed.mayResume_eq, renamed.run_settle.result,
    renamed.pool.stats_eq, renamed.pool.slot_eq, fun f => renamed.pool.get?_eq⟩

theorem renamed_afterAll_reversal :
    let moves : List Move :=
      [.submit ⟨.ofNumber 1, .slots, none⟩, .submit ⟨.ofNumber 2, .slots, none⟩,
        .submit ⟨.ofNumber 2, .slots, none⟩, .submit ⟨.ofNumber 9, .slots, none⟩,
        .tryRelease Layout.windowBase, .resume 0, .tryRelease (Layout.windowBase.page 1),
        .tryRelease (Layout.windowBase.page 5)]
    ∃ pool : Pool 2 2, Pool.create ⟨by decide, by decide⟩ Layout.windowBase = .ok pool ∧
      (∀ m ∈ moves, m.IsNarrow) ∧
      (start .standard pool).replies (moves.map (Move.rename .reversal)) =
        [.ok (.mapped (.slot Layout.windowBase)),
          .ok (.mapped (.slot (Layout.windowBase.page 1))),
          .ok (.mapped (.slot (Layout.windowBase.page 1))), .ok (.asleep 0), .ok .done,
          .ok (.mapped (.slot Layout.windowBase)), .ok .done,
          .ok (.refused (.outsideWindow (Layout.windowBase.page 5)))] ∧
      ((start .standard pool).afterAll (moves.map (Move.rename .reversal))).pool.addressOf?
        (Renaming.reversal.frame (.ofNumber 9)) = some Layout.windowBase := by
  intro moves
  have aligned : Layout.windowBase.toNat % tableSpan = 0 := by decide
  obtain ⟨pool, created⟩ := Pool.exists_of_aligned (n := 2) ⟨by decide, by decide⟩ aligned
  have narrow : ∀ m ∈ moves, m.IsNarrow := by decide
  obtain ⟨replies, -, -, -, -, -, -, addresses⟩ :=
    renamed_afterAll created .standard .reversal narrow
  refine ⟨pool, created, narrow, ?_, ?_⟩
  · rw [replies]
    cases created
    decide
  · rw [addresses _ (by decide)]
    cases created
    decide

end Session

end Highmem
