import Highmem.Proofs.Session.Draws
import Highmem.Proofs.Session.Keeping
import Highmem.Proofs.Session.Settling

/-!
# Handing slots over in order

A run is unhurried if every new call begins in a settled session: the calls that were let
in have resumed before anybody else comes. In such a run at most one call is let in at any
time, and a slot that nobody holds is there for it. So it never goes back to sleep, and
since it is the first in the line, the calls return in the order in which they fell asleep.
-/

namespace Highmem

open Paging Sync

variable {n c : Nat}

namespace Line

variable {t : Tickets} {calls : List SleepingCall}

/-- If only one call was let in, it is the first of the line. -/
theorem eq_cons (line : Line t calls) (young : Young t calls)
    (once : calls.countP (fun call => t.isServed call.ticket) ≤ 1) {call : SleepingCall}
    (mem : call ∈ calls) (served : t.isServed call.ticket = true) :
    ∃ rest, calls = call :: rest := by
  have few := line.waiting_lt young
  have older := (Tickets.isServed_iff (young call mem) few).mp served
  obtain ⟨ahead, behind, rfl, before, ages⟩ := line
  have here : call ∈ ahead := by
    refine (List.mem_append.mp mem).resolve_right fun late => ?_
    have := age_le_of_mem ages late
    omega
  have letIn : ahead.countP (fun call => t.isServed call.ticket) = ahead.length := by
    refine List.countP_eq_length.mpr fun call mem => ?_
    exact (Tickets.isServed_iff (young call (List.mem_append_left behind mem)) few).mpr
      (before call mem)
  rw [List.countP_append, letIn] at once
  -- all calls that are ahead were let in, and no more than one was
  obtain ⟨first, rfl⟩ : ∃ first, ahead = [first] := by
    apply List.length_eq_one_iff.mp
    have := List.length_pos_of_mem here
    omega
  rw [List.mem_singleton.mp here]
  exact ⟨behind, rfl⟩

end Line

namespace Session

variable {s s' : Session n c} {m : Move} {id k : Nat}

/-- What holds along a run holds along what comes after some moves of it. -/
theorem Along.later {P : Session n c → Prop} {moves moves' : List Move}
    (along : Along P s (moves ++ moves')) : Along P (s.afterAll moves) moves' := by
  induction moves generalizing s with
  | nil => exact along
  | cons m rest ih => exact ih along.2

/-- Every new call begins in a settled session. -/
def Unhurried (s : Session n c) : List Move → Prop
  | [] => True
  | m :: later => (m.isResume = true ∨ s.Settled) ∧ Unhurried (s.after m) later

instance decidableUnhurried (s : Session n c) : (moves : List Move) → Decidable (s.Unhurried moves)
  | [] => inferInstanceAs (Decidable True)
  | m :: later =>
    have := decidableUnhurried (s.after m) later
    inferInstanceAs (Decidable ((m.isResume = true ∨ s.Settled) ∧ (s.after m).Unhurried later))

/-- The call that falls asleep in a move, if there is one. -/
def blocks (s : Session n c) (m : Move) : List Nat :=
  match s.reply m with
  | .ok (.asleep id) => [id]
  | _ => []

/-- The calls that fall asleep in a run, in the order in which they do. -/
def blocked (s : Session n c) : List Move → List Nat
  | [] => []
  | m :: later => s.blocks m ++ (s.after m).blocked later

/-- At most one call was let in that has not resumed, and a slot is idle for it. -/
structure Provided (s : Session n c) : Prop where
  one : s.pending ≤ 1
  idle : 0 < s.pending → 0 < s.pool.idle

theorem Settled.pending_eq (settled : s.Settled) : s.pending = 0 := by
  refine List.countP_eq_zero.mpr fun call mem served => ?_
  rw [settled call mem] at served
  cases served

/-- What a critical section owes to the callers that it lets in. -/
theorem Provided.of_counts (calls : s.pending + s.pool.tickets.waiting = k)
    (one : k ≤ s.pool.tickets.waiting + 1)
    (idle : s.pool.tickets.waiting < k → 0 < s.pool.idle) : s.Provided := by
  constructor
  · omega
  · intro some
    exact idle (by omega)

/-- A move that begins in a settled session lets one call in at most. -/
theorem provided_of_settled (consistent : s.pool.Consistent) (orderly : s.Orderly)
    (recent : s.Recent) (recent' : (s.after m).Recent) (settled : s.Settled) :
    (s.after m).Provided := by
  have transition := run_step consistent m
  have before := orderly.pending_add_waiting recent
  have after := (transition.orderly orderly recent).pending_add_waiting recent'
  rw [settled.pending_eq, Nat.zero_add] at before
  generalize s.emitted m = es at transition
  cases transition with
  | rest pool sleeping =>
      rw [sleeping, ← before] at after
      refine .of_counts after ?_ ?_
      · rw [pool]
        exact Nat.le_succ _
      · rw [pool]
        exact fun less => absurd less (Nat.lt_irrefl _)
  | @request r o ends pool sleeping =>
      rw [sleeping] at after
      -- who returns may have let one other in; who falls asleep has let in nobody
      rcases queued_cases s.nextId r o.result with ⟨none, returned⟩ | ⟨ticket, parked, one⟩
      · obtain ⟨one, idle⟩ := ends.provides returned
        rw [none, List.append_nil, ← before] at after
        rw [← pool] at one idle
        exact .of_counts after one idle
      · have more := ends.waiting_of_parked parked (orderly.line.waiting_lt recent)
        rw [one, List.length_append, List.length_singleton, ← before] at after
        rw [← pool] at more
        rw [← more] at after
        exact .of_counts after (Nat.le_succ _) fun less => absurd less (Nat.lt_irrefl _)
  | resumption mem served =>
      rw [settled _ mem] at served
      cases served
  | release ends pool sleeping =>
      obtain ⟨one, idle⟩ := ends.provides
      rw [sleeping, ← before] at after
      rw [← pool] at one idle
      exact .of_counts after one idle

/-- A call that was let in returns, since a slot is idle for it, and lets one other call in
at most. -/
theorem Provided.resume (provided : s.Provided) (consistent : s.pool.Consistent)
    (orderly : s.Orderly) (recent : s.Recent) (recent' : (s.after (.resume id)).Recent) :
    (s.after (.resume id)).Provided := by
  have transition := run_step consistent (.resume id)
  have before := orderly.pending_add_waiting recent
  have after := (transition.orderly orderly recent).pending_add_waiting recent'
  obtain ⟨-, same, -⟩ | ⟨call, o, mem, -, served, ends, -, pool, sleeping, -⟩ :=
    resume_cases consistent id
  · rw [same]
    exact provided
  · have some := pending_pos mem served
    have alone := provided.one
    have returned := ends.not_parked (provided.idle some)
    obtain ⟨one, idle⟩ := ends.provides returned
    have fewer := length_leave orderly.distinct mem
    rw [sleeping, queued_of_returned returned, List.append_nil] at after
    rw [← pool] at one idle
    exact .of_counts (after.trans (by omega)) one idle

theorem Provided.after (provided : s.Provided) (consistent : s.pool.Consistent)
    (orderly : s.Orderly) (recent : s.Recent) (recent' : (s.after m).Recent)
    (calm : m.isResume = true ∨ s.Settled) : (s.after m).Provided := by
  rcases calm with resume | settled
  · cases m with
    | resume id => exact provided.resume consistent orderly recent recent'
    | _ => cases resume
  · exact provided_of_settled consistent orderly recent recent' settled

/-- Only a request puts its caller to sleep, and only a resumption ends a sleeping call. -/
theorem order_of_giving (request : ∀ r, m ≠ .submit r) (resumption : ∀ id, m ≠ .resume id) :
    (s.after m).sleeping = s.sleeping ∧ (s.after m).nextId = s.nextId ∧ s.blocks m = [] ∧
      s.finishes m = [] := by
  obtain ⟨pool, kept, state, -⟩ := after_giving (s := s) request resumption
  have awake : s.blocks m = [] := by
    unfold blocks
    split
    · rename_i replied
      obtain done | nothing | ⟨cause, refused⟩ := reply_of_giving request resumption replied
      · cases done
      · cases nothing
      · cases refused
    · rfl
  rw [state]
  refine ⟨rfl, rfl, awake, ?_⟩
  cases m with
  | resume id => exact absurd rfl (resumption id)
  | _ => rfl

/-- A new call falls asleep under the next identity, or it returns. -/
theorem order_of_submit (s : Session n c) (r : Request) :
    ((s.after (.submit r)).sleeping = s.sleeping ∧ (s.after (.submit r)).nextId = s.nextId ∧
        s.blocks (.submit r) = []) ∨
      ∃ ticket, (s.after (.submit r)).sleeping = s.sleeping ++ [⟨s.nextId, ticket, r⟩] ∧
        (s.after (.submit r)).nextId = s.nextId + 1 ∧ s.blocks (.submit r) = [s.nextId] := by
  unfold Session.after blocks reply
  by_cases low : r.route = .split ∧ s.direct.covers r.frame
  · obtain ⟨kept, va, run⟩ | ⟨cause, -, run⟩ := run_submit_direct s low
    · rw [step, run]
      exact Or.inl ⟨rfl, rfl, rfl⟩
    · rw [step, run]
      exact Or.inl ⟨rfl, rfl, rfl⟩
  · rw [step, run_submit_high s low]
    rcases ((Pool.attempt r.frame).run s.pool).result with fault | va | ticket
    · exact Or.inl ⟨List.append_nil _, rfl, rfl⟩
    · exact Or.inl ⟨List.append_nil _, rfl, rfl⟩
    · exact Or.inr ⟨ticket, rfl, rfl, rfl⟩

/-- The line after a move is the line before it with the caller that returns taken from its
front and the caller that falls asleep put at its end. -/
theorem order_step (provided : s.Provided) (consistent : s.pool.Consistent)
    (orderly : s.Orderly) (recent : s.Recent) (m : Move) :
    s.sleeping.map (·.id) ++ s.blocks m =
        s.finishes m ++ (s.after m).sleeping.map (·.id) ∧
      List.range s.nextId ++ s.blocks m = List.range (s.after m).nextId := by
  by_cases request : ∃ r, m = .submit r
  · obtain ⟨r, rfl⟩ := request
    have nobody : s.finishes (.submit r) = [] := rfl
    rw [nobody, List.nil_append]
    obtain ⟨sleeping, nextId, none⟩ | ⟨ticket, sleeping, nextId, one⟩ :=
      order_of_submit s r
    · rw [none, sleeping, nextId, List.append_nil, List.append_nil]
      exact ⟨rfl, rfl⟩
    · rw [one, sleeping, nextId, List.map_append, List.range_succ]
      exact ⟨rfl, rfl⟩
  · by_cases resumption : ∃ id, m = .resume id
    · obtain ⟨id, rfl⟩ := resumption
      obtain ⟨-, same, notServed⟩ | ⟨call, o, mem, here, served, ends, answers, -, sleeping, nextId⟩ :=
        resume_cases consistent id
      · rw [same, blocks, finishes, notServed]
        exact ⟨List.append_nil _, List.append_nil _⟩
      · have returned := ends.not_parked (provided.idle (pending_pos mem served))
        obtain ⟨rest, first⟩ := orderly.line.eq_cons recent provided.one mem served
        -- no other call has its identity, so taking it out leaves the rest of the line
        have others : s.sleeping.filter (·.id ≠ call.id) = rest := by
          have distinct := orderly.distinct
          rw [first, List.map_cons, List.nodup_cons] at distinct
          rw [first, List.filter_cons_of_neg (by simp)]
          refine List.filter_eq_self.mpr fun other late => decide_eq_true fun same => ?_
          exact distinct.1 (List.mem_map.mpr ⟨other, late, same⟩)
        have one : s.finishes (.resume id) = [id] ∧ s.blocks (.resume id) = [] := by
          simp only [finishes, blocks]
          generalize o.result = result, s.reply (.resume id) = reply at answers returned ⊢
          cases answers with
          | granted => exact ⟨rfl, rfl⟩
          | parked => exact absurd rfl (returned _)
          | fault => exact ⟨rfl, rfl⟩
        rw [one.1, one.2, sleeping, queued_of_returned returned, others, first, nextId,
          List.append_nil, List.append_nil, List.append_nil, List.map_cons, here]
        exact ⟨rfl, rfl⟩
    · obtain ⟨sleeping, nextId, none, nobody⟩ :=
        order_of_giving (s := s) (not_exists.mp request) (not_exists.mp resumption)
      rw [sleeping, nextId, none, nobody]
      exact ⟨List.append_nil _, List.append_nil _⟩

/-- Along an unhurried run the line loses calls at its front only. -/
theorem order_afterAll (provided : s.Provided) (consistent : s.pool.Consistent)
    (orderly : s.Orderly) (moves : List Move) (recent : Along Recent s moves)
    (unhurried : s.Unhurried moves) :
    (s.afterAll moves).Provided ∧
      s.sleeping.map (·.id) ++ s.blocked moves =
        s.finished moves ++ (s.afterAll moves).sleeping.map (·.id) ∧
      List.range s.nextId ++ s.blocked moves = List.range (s.afterAll moves).nextId := by
  induction moves generalizing s with
  | nil => exact ⟨provided, List.append_nil _, List.append_nil _⟩
  | cons m later ih =>
      obtain ⟨calm, unhurried⟩ := unhurried
      obtain ⟨young, recent⟩ := recent
      have transition := run_step consistent m
      obtain ⟨line, ids⟩ := order_step provided consistent orderly young m
      obtain ⟨last, lines, idss⟩ := ih (provided.after consistent orderly young recent.first calm)
        (transition.consistent consistent) (transition.orderly orderly young) recent unhurried
      refine ⟨last, ?_, ?_⟩
      · rw [blocked, ← List.append_assoc, line, List.append_assoc, lines, ← List.append_assoc]
        rfl
      · rw [blocked, ← List.append_assoc, ids, idss]
        rfl

/-- A pool of any size can be created wherever a leaf table can begin. If its window ends
within the reach of addresses, then in every unhurried run with fewer passes than the
counters allow: a call that was let in returns as soon as it resumes, with an address, or
with a fault if its frame number is too wide. The calls fall asleep once each, and return in
the order in which they fell asleep. Letting calls resume until none may is a run of
resumptions that ends in a settled session, so the run can go on with another call. -/
theorem finished_in_order (size : Pool.Size n) {base : VirtAddr}
    (aligned : base.toNat % tableSpan = 0) (reach : base.toNat + n * pageSize < 2 ^ 64) :
    ∃ pool, Pool.create size base = .ok pool ∧
      ∀ (direct : DirectMap) (moves : List Move),
        invalidations ((start direct pool).trace moves) < 2 ^ 55 →
        (start direct pool).Unhurried moves →
        let s := (start direct pool).afterAll moves
        (∀ id f, s.asks? (.resume id) = some f →
          invalidations ((start direct pool).trace (moves ++ [.resume id])) < 2 ^ 55 →
          (∃ va, s.reply (.resume id) = .ok (.mapped (.slot va))) ∨
            s.reply (.resume id) = .error (.overflow (.field 40)) ∧ 2 ^ 40 ≤ f.number) ∧
        (start direct pool).blocked moves = List.range s.nextId ∧
        (start direct pool).blocked moves =
          (start direct pool).finished moves ++ s.sleeping.map (·.id) ∧
        ∃ wakes done, (∀ w ∈ wakes, w.isResume = true) ∧ (settle.run s).result = .ok done ∧
          (settle.run s).state = s.afterAll wakes ∧ done.map (·.id) = s.finished wakes ∧
          (invalidations ((start direct pool).trace (moves ++ wakes)) < 2 ^ 55 →
            (s.afterAll wakes).Settled) := by
  obtain ⟨pool, created⟩ := Pool.exists_of_aligned size aligned
  refine ⟨pool, created, ?_⟩
  intro direct moves unlimited unhurried s
  have fresh : (start direct pool).pool.Consistent := Pool.consistent_of_create created
  have reaches : pool.Reaches := by
    rw [Pool.Reaches, Pool.base_of_create created]
    exact reach
  have early : (start direct pool).Early 0 := early_start created direct
  have young : ∀ moves, invalidations ((start direct pool).trace moves) < 2 ^ 55 →
      Along Recent (start direct pool) moves := by
    intro moves few
    exact recent_along fresh early moves ((Nat.zero_add _).trans_lt (few.trans (by decide)))
  have consistent : s.pool.Consistent := consistent_afterAll fresh moves
  have orderly := orderly_start created direct
  have nobody : (start direct pool).Provided := ⟨Nat.zero_le 1, fun some => by cases some⟩
  obtain ⟨provided, line, ids⟩ :=
    order_afterAll nobody fresh orderly moves (young moves unlimited) unhurried
  refine ⟨?_, ids, line, ?_⟩
  · intro id f asks few
    obtain ⟨call, found, -⟩ := Option.map_eq_some_iff.mp asks
    have chosen := List.find?_some found
    have some := pending_pos (List.mem_of_find?_eq_some found) (of_decide_eq_true chosen).2
    obtain ⟨o, ends, answers, -⟩ := reply_of_asks consistent asks
    have returned := ends.not_parked (provided.idle some)
    have faults : ∀ fault, s.reply (.resume id) = .error fault → _ := fun fault =>
      (reply_error_iff_afterAll created reaches direct moves few asks).mp
    generalize o.result = result, s.reply (.resume id) = reply at answers returned faults ⊢
    cases answers with
    | granted => exact Or.inl ⟨_, rfl⟩
    | parked => exact absurd rfl (returned _)
    | fault =>
        obtain ⟨rfl, wide, -⟩ := faults _ rfl
        exact Or.inr ⟨rfl, wide⟩
  · obtain ⟨wakes, done, resumes, result, state, returned, settled⟩ :=
      run_settleWithin (2 * s.sleeping.length) s
    have run : settle.run s = (settleWithin (2 * s.sleeping.length)).run s := rfl
    rw [run]
    refine ⟨wakes, done, resumes, result, state, returned, fun few => ?_⟩
    -- each call resumes once, and once more if it was let in already
    have calls : s.pending ≤ s.sleeping.length := List.countP_le_length
    exact settled consistent (orderly_afterAll fresh orderly moves (young moves unlimited))
      (young (moves ++ wakes) few).later (by unfold load; omega)

theorem finished_in_order_shared :
    let moves : List Move :=
      [.submit ⟨.ofNumber 1, .slots, none⟩, .submit ⟨.ofNumber 2, .slots, none⟩,
        .submit ⟨.ofNumber 9, .slots, none⟩, .submit ⟨.ofNumber 9, .slots, none⟩,
        .submit ⟨.ofNumber 10, .slots, none⟩, .release Layout.windowBase, .resume 0,
        .release (Layout.windowBase.page 1), .resume 1, .release Layout.windowBase,
        .release Layout.windowBase]
    Layout.windowBase.toNat % tableSpan = 0 ∧ Layout.windowBase.toNat + 2 * pageSize < 2 ^ 64 ∧
      ∃ pool : Pool 2 2, Pool.create ⟨by decide, by decide⟩ Layout.windowBase = .ok pool ∧
        invalidations ((start .standard pool).trace moves) < 2 ^ 55 ∧
        (start .standard pool).Unhurried moves ∧
        (start .standard pool).blocked moves = [0, 1, 2] ∧
        (start .standard pool).finished moves = [0, 1] ∧
        ∃ va, ((start .standard pool).afterAll moves).reply (.resume 2) =
          .ok (.mapped (.slot va)) := by
  intro moves
  have aligned : Layout.windowBase.toNat % tableSpan = 0 := by decide
  have reach : Layout.windowBase.toNat + 2 * pageSize < 2 ^ 64 := by decide
  obtain ⟨pool, created, ordered⟩ :=
    finished_in_order (n := 2) ⟨by decide, by decide⟩ aligned reach
  have few : invalidations ((start .standard pool).trace (moves ++ [.resume 2])) < 2 ^ 55 := by
    cases created
    decide
  have fewer : invalidations ((start .standard pool).trace moves) < 2 ^ 55 := by
    cases created
    decide
  have unhurried : (start .standard pool).Unhurried moves := by
    cases created
    decide
  have asks : ((start .standard pool).afterAll moves).asks? (.resume 2) = some (.ofNumber 10) := by
    cases created
    decide
  have count : ((start .standard pool).afterAll moves).nextId = 3 := by
    cases created
    decide
  have asleep : ((start .standard pool).afterAll moves).sleeping.map (·.id) = [2] := by
    cases created
    decide
  obtain ⟨returns, blocked, line, -⟩ := ordered .standard moves fewer unhurried
  rw [count] at blocked
  rw [blocked, asleep] at line
  refine ⟨aligned, reach, pool, created, fewer, unhurried, blocked, ?_, ?_⟩
  · have front : [0, 1] ++ [2] = (start .standard pool).finished moves ++ [2] := line
    exact (List.append_cancel_right front).symm
  · refine (returns 2 _ asks few).resolve_right ?_
    rintro ⟨-, wide⟩
    exact absurd wide (by decide)

end Session

end Highmem
