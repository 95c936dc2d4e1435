import Highmem.Proofs.Pool.Balance
import Highmem.Proofs.Pool.Create
import Highmem.Proofs.Session.Queue
import Highmem.Proofs.Session.Run

/-!
# Wakeups and idle slots

A call that is let in has a claim on an idle slot. It may resume without taking one: it
then shares a slot that was bound to its frame meanwhile, or ends in a fault. Its claim
is lost with it, because nobody else is let in for the slot, and calls may go on
sleeping although a slot could be had. The ledger of a run says how many such slots
there are: it starts anew when a call goes to sleep, at which moment no slot is idle,
and from then on it adds up the credits of the events.
-/

namespace Highmem.Session

open Sync

variable {n c : Nat} {s s' : Session n c} {es : List Event}

/-- The sleeping calls form a line, and each has its own identity. -/
structure Orderly (s : Session n c) : Prop where
  line : Line s.pool.tickets s.sleeping
  distinct : (s.sleeping.map (·.id)).Nodup
  fresh : ∀ call ∈ s.sleeping, call.id < s.nextId

/-- No call has slept for so long that its ticket would be taken for a waiting one. -/
def Recent (s : Session n c) : Prop := Young s.pool.tickets s.sleeping

instance (s : Session n c) : Decidable s.Recent :=
  inferInstanceAs (Decidable (∀ call ∈ s.sleeping, _ < Tickets.horizon))

/-- No call that was let in has yet to resume. -/
def Settled (s : Session n c) : Prop := ∀ call ∈ s.sleeping, s.mayResume call = false

instance (s : Session n c) : Decidable s.Settled :=
  inferInstanceAs (Decidable (∀ call ∈ s.sleeping, _ = false))

/-- How many sleeping calls were let in. -/
def pending (s : Session n c) : Nat := s.sleeping.countP s.mayResume

/-- The idle slots to which no call that was let in has a claim. -/
def balance (s : Session n c) : Int := s.pool.idle - s.pending

/-- What the balance must be after some moves, if it is `balance` before them. -/
def ledger (s : Session n c) (balance : Int) : List Move → Int
  | [] => balance
  | m :: later =>
    (s.after m).ledger
      (if (s.emitted m).any Event.isBusy then -(s.after m).pending
        else balance + credit (s.emitted m))
      later

theorem queued_cases (id : Nat) (r : Request) (result : Except Fault Pool.Grant) :
    (queued id r result = [] ∧ ∀ ticket, result ≠ .ok (.parked ticket)) ∨
      ∃ ticket, result = .ok (.parked ticket) ∧ queued id r result = [⟨id, ticket, r⟩] := by
  cases result with
  | error fault => exact Or.inl ⟨rfl, nofun⟩
  | ok grant =>
      cases grant with
      | granted va => exact Or.inl ⟨rfl, nofun⟩
      | parked ticket => exact Or.inr ⟨ticket, rfl, rfl⟩

/-- A request that returns joins no queue. -/
theorem queued_of_returned {result : Except Fault Pool.Grant}
    (returned : ∀ ticket, result ≠ .ok (.parked ticket)) (id : Nat) (r : Request) :
    queued id r result = [] := by
  rcases queued_cases id r result with ⟨none, -⟩ | ⟨ticket, parked, -⟩
  · exact none
  · exact absurd parked (returned ticket)

/-- A request keeps the line, and joins it if it has to wait. -/
theorem line_queued {calls : List SleepingCall} {p : Pool n c} {f : Frame}
    {o : Outcome (Pool n c) Pool.Grant} (ends : p.Attempts f o) (line : Line p.tickets calls)
    (young : Young p.tickets calls) (id : Nat) (r : Request) :
    Line o.state.tickets (calls ++ queued id r o.result) := by
  have searched : ∀ {found q es}, p.Search found q es →
      Line q.tickets calls ∧ Young q.tickets calls := by
    intro found q es search
    rcases search.tickets_eq with same | served
    · rw [same]
      exact ⟨line, young⟩
    · rw [served]
      exact ⟨line.notifyOne, young.notifyOne⟩
  cases ends with
  | shared =>
      change Line p.tickets (calls ++ [])
      rw [List.append_nil]
      exact line
  | bound _ search _ becomes =>
      change Line _ (calls ++ [])
      rw [List.append_nil, becomes.elsewhere.tickets_eq]
      exact (searched search).1
  | parked _ search =>
      obtain ⟨line, young⟩ := searched search
      exact line.draw young rfl
  | tooWide _ search =>
      change Line _ (calls ++ [])
      rw [List.append_nil]
      exact (searched search).1
  | aborted _ _ pass =>
      change Line _ (calls ++ [])
      rw [List.append_nil, pass.swept.tickets_eq]
      exact line

theorem id_of_mem_queued {id : Nat} {r : Request} {result : Except Fault Pool.Grant}
    {call : SleepingCall} (mem : call ∈ queued id r result) : call.id = id := by
  rcases queued_cases id r result with ⟨none, -⟩ | ⟨ticket, -, one⟩
  · rw [none] at mem
    cases mem
  · rw [one] at mem
    rw [List.mem_singleton.mp mem]

/-- A call whose identity is not taken can join without a clash. -/
theorem distinct_queued {calls : List SleepingCall} (distinct : (calls.map (·.id)).Nodup)
    {id : Nat} (untaken : ∀ call ∈ calls, call.id ≠ id) (r : Request)
    (result : Except Fault Pool.Grant) :
    ((calls ++ queued id r result).map (·.id)).Nodup := by
  rw [List.map_append]
  refine List.Nodup.append distinct ?_ fun k mem mem' => ?_
  · rcases queued_cases id r result with ⟨none, -⟩ | ⟨ticket, -, one⟩
    · rw [none]
      exact List.nodup_nil
    · rw [one]
      exact List.nodup_singleton _
  · obtain ⟨call, here, rfl⟩ := List.mem_map.mp mem
    obtain ⟨other, there, same⟩ := List.mem_map.mp mem'
    exact untaken call here (same.symm.trans (id_of_mem_queued there))

theorem Transition.orderly (transition : Transition s s' es) (orderly : s.Orderly)
    (recent : s.Recent) : s'.Orderly := by
  obtain ⟨line, distinct, fresh⟩ := orderly
  cases transition with
  | rest pool sleeping nextId =>
      constructor
      · rw [pool, sleeping]
        exact line
      · rw [sleeping]
        exact distinct
      · rw [sleeping, nextId]
        exact fresh
  | @request r o ends pool sleeping nextId =>
      constructor
      · rw [pool, sleeping]
        exact line_queued ends line recent _ _
      · rw [sleeping]
        exact distinct_queued distinct (fun call mem => Nat.ne_of_lt (fresh call mem)) _ _
      · intro call mem
        rw [nextId]
        rw [sleeping] at mem
        rcases List.mem_append.mp mem with old | new
        · exact Nat.lt_add_right _ (fresh call old)
        · rw [id_of_mem_queued new]
          exact Nat.lt_add_of_pos_right (List.length_pos_of_mem new)
  | @resumption call o mem served ends pool sleeping nextId =>
      have left := line.leave recent distinct mem served
      constructor
      · rw [pool, sleeping]
        exact line_queued ends left (recent.filter _) _ _
      · rw [sleeping]
        refine distinct_queued (distinct.sublist (List.Sublist.map _ List.filter_sublist)) ?_ _ _
        intro other here
        exact of_decide_eq_true (List.mem_filter.mp here).2
      · intro other here
        rw [nextId]
        rw [sleeping] at here
        rcases List.mem_append.mp here with old | new
        · exact fresh other (List.mem_filter.mp old).1
        · rw [id_of_mem_queued new]
          exact fresh call mem
  | release ends pool sleeping nextId =>
      constructor
      · rw [pool, sleeping]
        cases ends with
        | unknown => exact line
        | unheld => exact line
        | fewer => exact line
        | last => exact line.notifyOne
      · rw [sleeping]
        exact distinct
      · rw [sleeping, nextId]
        exact fresh

theorem Orderly.pending_add_waiting (orderly : s.Orderly) (recent : s.Recent) :
    s.pending + s.pool.tickets.waiting = s.sleeping.length :=
  orderly.line.countP_isServed recent

/-- A request without going to sleep, if its events do not say so. -/
theorem returned_of_awake {p : Pool n c} {f : Frame} {o : Outcome (Pool n c) Pool.Grant}
    (ends : p.Attempts f o) (awake : o.events.any Event.isBusy = false) :
    ∀ ticket, o.result ≠ .ok (.parked ticket) := by
  intro ticket parked
  have busy := ends.any_isBusy_iff.mpr ⟨ticket, parked⟩
  rw [awake] at busy
  cases busy

theorem queued_of_awake {p : Pool n c} {f : Frame} {o : Outcome (Pool n c) Pool.Grant}
    (ends : p.Attempts f o) (awake : o.events.any Event.isBusy = false) (id : Nat) (r : Request) :
    queued id r o.result = [] :=
  queued_of_returned (returned_of_awake ends awake) id r

theorem Transition.waiting_le (transition : Transition s s' es)
    (awake : es.any Event.isBusy = false) :
    s'.pool.tickets.waiting ≤ s.pool.tickets.waiting := by
  cases transition with
  | rest pool => rw [pool]
  | request ends pool =>
      rw [pool]
      exact ends.waiting_le (returned_of_awake ends awake)
  | resumption _ _ ends pool =>
      rw [pool]
      exact ends.waiting_le (returned_of_awake ends awake)
  | release ends pool =>
      rw [pool]
      exact ends.waiting_le

/-- One call leaves. -/
theorem length_leave {calls : List SleepingCall} (distinct : (calls.map (·.id)).Nodup)
    {call : SleepingCall} (mem : call ∈ calls) :
    (calls.filter (·.id ≠ call.id)).length + 1 = calls.length := by
  have once : (calls.filter (·.id = call.id)).length = 1 := by
    have count := List.count_eq_one_of_mem distinct (List.mem_map_of_mem mem)
    rw [List.count, List.countP_map, List.countP_eq_length_filter] at count
    exact count
  have parts := List.length_eq_length_filter_add (l := calls) fun other => other.id = call.id
  rw [once, Nat.add_comm] at parts
  simp only [ne_eq, decide_not]
  exact parts.symm

/-- While calls wait and none goes to sleep, the balance changes by the credit. -/
theorem Transition.balance_of_awake (transition : Transition s s' es) (orderly : s.Orderly)
    (recent : s.Recent) (recent' : s'.Recent) (awake : es.any Event.isBusy = false)
    (waits : 0 < s'.pool.tickets.waiting) : s'.balance = s.balance + credit es := by
  have before := orderly.pending_add_waiting recent
  have after := (transition.orderly orderly recent).pending_add_waiting recent'
  unfold balance
  cases transition with
  | rest pool sleeping =>
      have credits : credit [] = 0 := rfl
      rw [sleeping] at after
      rw [pool] at after ⊢
      omega
  | request ends pool sleeping =>
      rw [sleeping, queued_of_awake ends awake, List.append_nil] at after
      rw [pool] at waits after ⊢
      have gain := ends.balance (returned_of_awake ends awake) waits
      omega
  | @resumption call o mem _ ends pool sleeping =>
      have fewer := length_leave orderly.distinct mem
      rw [sleeping, queued_of_awake ends awake, List.append_nil] at after
      rw [pool] at waits after ⊢
      have gain := ends.balance (returned_of_awake ends awake) waits
      have credits : credit (.woken call.request.frame :: o.events) = 1 + credit o.events :=
        credit_append [.woken _] o.events
      omega
  | release ends pool sleeping =>
      rw [sleeping] at after
      rw [pool] at waits after ⊢
      have gain := ends.balance waits
      omega

/-- When a call goes to sleep no slot is idle. -/
theorem Transition.balance_of_busy (transition : Transition s s' es)
    (busy : es.any Event.isBusy = true) : s'.balance = -s'.pending := by
  have idle : s'.pool.idle = 0 := by
    cases transition with
    | rest => cases busy
    | request ends pool =>
        obtain ⟨ticket, parked⟩ := ends.any_isBusy_iff.mp busy
        rw [pool]
        exact ends.idle_of_parked parked
    | resumption _ _ ends pool =>
        obtain ⟨ticket, parked⟩ := ends.any_isBusy_iff.mp busy
        rw [pool]
        exact ends.idle_of_parked parked
    | release ends =>
        rw [ends.any_isBusy] at busy
        cases busy
  rw [balance, idle]
  exact Int.zero_sub _

/-- While calls wait, the ledger of a run is the balance that it leaves. -/
theorem balance_afterAll (consistent : s.pool.Consistent) (orderly : s.Orderly) (b : Int)
    (opening : 0 < s.pool.tickets.waiting → s.balance = b) (moves : List Move)
    (recent : Along Recent s moves) (waits : 0 < (s.afterAll moves).pool.tickets.waiting) :
    (s.afterAll moves).balance = s.ledger b moves := by
  induction moves generalizing s b with
  | nil => exact opening waits
  | cons m later ih =>
      have transition := run_step consistent m
      obtain ⟨young, recent⟩ := recent
      have young' : (s.after m).Recent := recent.first
      refine ih (transition.consistent consistent) (transition.orderly orderly young) _ ?_
        recent waits
      intro waits'
      by_cases busy : (s.emitted m).any Event.isBusy = true
      · rw [if_pos busy]
        exact transition.balance_of_busy busy
      · have awake := Bool.eq_false_iff.mpr busy
        have waits := Nat.lt_of_lt_of_le waits' (transition.waiting_le awake)
        rw [if_neg busy, ← opening waits]
        exact transition.balance_of_awake orderly young young' awake waits'

theorem orderly_start {size : Pool.Size n} {base : VirtAddr} {pool : Pool n n}
    (created : Pool.create size base = .ok pool) (direct : DirectMap) :
    (start direct pool).Orderly := by
  refine ⟨?_, List.nodup_nil, nofun⟩
  change Line pool.tickets []
  rw [Pool.tickets_of_create created]
  exact line_nil

/-- In a settled session in which a call sleeps, the balance is the number of idle slots. -/
theorem Orderly.idle_of_settled (orderly : s.Orderly) (recent : s.Recent) (settled : s.Settled)
    (asleep : s.sleeping ≠ []) :
    0 < s.pool.tickets.waiting ∧ (s.pool.idle : Int) = s.balance := by
  have claims : s.pending = 0 := List.countP_eq_zero.mpr fun call mem served => by
    rw [settled call mem] at served
    cases served
  have line := orderly.pending_add_waiting recent
  have some := List.length_pos_of_ne_nil asleep
  rw [balance, claims]
  omega

theorem orderly_afterAll (consistent : s.pool.Consistent) (orderly : s.Orderly)
    (moves : List Move) (recent : Along Recent s moves) : (s.afterAll moves).Orderly := by
  induction moves generalizing s with
  | nil => exact orderly
  | cons m later ih =>
      have transition := run_step consistent m
      exact ih (transition.consistent consistent) (transition.orderly orderly recent.1) recent.2

section

variable {size : Pool.Size n} {base : VirtAddr} {pool : Pool n n}
variable (created : Pool.create size base = .ok pool) (direct : DirectMap) (moves : List Move)
variable (recent : Along Recent (start direct pool) moves)
variable (settled : ((start direct pool).afterAll moves).Settled)
variable (asleep : ((start direct pool).afterAll moves).sleeping ≠ [])

include created recent settled asleep

theorem idle_afterAll :
    (((start direct pool).afterAll moves).pool.idle : Int) =
      (start direct pool).ledger 0 moves := by
  have consistent := Pool.consistent_of_create created
  have orderly := orderly_start created direct
  have after := orderly_afterAll (s := start direct pool) consistent orderly moves recent
  obtain ⟨waits, idle⟩ := after.idle_of_settled recent.last settled asleep
  have opening : 0 < (start direct pool).pool.tickets.waiting →
      (start direct pool).balance = 0 := by
    intro some
    change 0 < pool.tickets.waiting at some
    rw [Pool.tickets_of_create created] at some
    cases some
  rw [idle]
  exact balance_afterAll consistent orderly 0 opening moves recent waits

/-- In a settled session of a new pool in which a call sleeps, the ledger of the run is
the number of slots that nobody holds. So all slots are held exactly if it is zero: if
since a call last went to sleep as many calls have resumed as there were calls with a
claim at that moment, slots taken and callers let in by passes. -/
theorem idle_eq_ledger :
    (((start direct pool).afterAll moves).pool.idle : Int) =
        (start direct pool).ledger 0 moves ∧
      ((∀ nr, (((start direct pool).afterAll moves).pool.slot nr).isHeld = true) ↔
        (start direct pool).ledger 0 moves = 0) := by
  have idle := idle_afterAll created direct moves recent settled asleep
  refine ⟨idle, ?_⟩
  rw [← idle, ← Pool.idle_eq_zero_iff]
  exact Int.natCast_eq_zero.symm

end

theorem idle_eq_ledger_handover :
    let moves : List Move := [.submit ⟨.ofNumber 1, .slots, none⟩,
      .submit ⟨.ofNumber 2, .slots, none⟩, .submit ⟨.ofNumber 3, .slots, none⟩,
      .release Layout.windowBase, .resume 0]
    ∃ pool : Pool 1 1, Pool.create ⟨by decide, by decide⟩ Layout.windowBase = .ok pool ∧
      Along Recent (start .standard pool) moves ∧
      ((start .standard pool).afterAll moves).Settled ∧
      ((start .standard pool).afterAll moves).sleeping ≠ [] ∧
      ∀ nr, (((start .standard pool).afterAll moves).pool.slot nr).isHeld = true := by
  intro moves
  obtain ⟨pool, created⟩ : ∃ pool : Pool 1 1,
      Pool.create ⟨by decide, by decide⟩ Layout.windowBase = .ok pool := ⟨_, rfl⟩
  have recent : Along Recent (start .standard pool) moves := by
    cases created
    decide
  have settled : ((start .standard pool).afterAll moves).Settled := by
    cases created
    decide
  have asleep : ((start .standard pool).afterAll moves).sleeping ≠ [] := by
    cases created
    decide
  have closed : (start .standard pool).ledger 0 moves = 0 := by
    cases created
    decide
  obtain ⟨-, all⟩ := idle_eq_ledger created .standard moves recent settled asleep
  exact ⟨pool, created, recent, settled, asleep, all.mpr closed⟩

/-- One holder leaves each of two slots, and the second call that is let in shares the
slot of the first: a third one goes on sleeping beside an idle slot. -/
theorem idle_beside_sleeping :
    ∃ pool : Pool 2 2, Pool.create ⟨by decide, by decide⟩ Layout.windowBase = .ok pool ∧
      let s := (start .standard pool).afterAll
        [.submit ⟨.ofNumber 1, .slots, none⟩, .submit ⟨.ofNumber 2, .slots, none⟩,
          .submit ⟨.ofNumber 9, .slots, none⟩, .submit ⟨.ofNumber 9, .slots, none⟩,
          .submit ⟨.ofNumber 10, .slots, none⟩, .release Layout.windowBase, .resume 0,
          .release (Layout.windowBase.page 1), .resume 1]
      s.Settled ∧ s.sleeping ≠ [] ∧ ¬ ∀ nr, (s.pool.slot nr).isHeld = true :=
  ⟨_, rfl, by decide, by decide, by decide⟩

end Highmem.Session
