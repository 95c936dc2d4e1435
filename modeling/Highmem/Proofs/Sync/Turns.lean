import Highmem.Sync.Threads

/-!
# Turns of threads

`Turn` lists what one access of one thread can do. Most accesses only move the thread on;
the others take or give back the lock, draw or serve tickets, or leave `wait`.

The flag of the lock is up exactly while a thread has the guard, and no two threads have it
at once. So the check of the flag on dropping the guard never fails, in any interleaving.
-/

namespace Highmem.Sync

/-- The ticket that a thread in this phase waits with: it has drawn one, and has not found
it served. -/
def Phase.ticket? : Phase → Option Ticket
  | .checking (.watch ticket) => some ticket
  | .clearing (.watch ticket) => some ticket
  | .parked ticket => some ticket
  | _ => none

/-- The phase in which a thread is without the guard that it has dropped. -/
def AfterDrop.phase : AfterDrop → Phase
  | .leave => .outside
  | .watch ticket => .parked ticket

namespace Threads

variable {s s' : Threads} {i j : ThreadId} {a : Action} {script : List (ThreadId × Action)}

/-- What an access of a thread can do. -/
inductive Turn (s : Threads) (i : ThreadId) : Action → Threads → Prop
  | onward {a : Action} {value : Int} {phase : Phase}
      (quiet : a ≠ .wait ∧ a ≠ .notifyOne ∧ a ≠ .notifyAll)
      (guard : phase.hasGuard = (s.phase i).hasGuard)
      (ticket : phase.ticket? = (s.phase i).ticket?) : Turn s i a ({ s with value }.enter i phase)
  | take (free : s.lock.isLocked = false) (guard : (s.phase i).hasGuard = false)
      (ticket : (s.phase i).ticket? = none) :
      Turn s i .advance ({ s with lock := ⟨true⟩ }.enter i (.inside none))
  | clear {after : AfterDrop} (clearing : s.phase i = .clearing after) :
      Turn s i .advance ({ s with lock := ⟨false⟩ }.enter i after.phase)
  | fail {after : AfterDrop} (checking : s.phase i = .checking after)
      (free : s.lock.isLocked = false) : Turn s i .advance (s.enter i .broken)
  | draw {known : Option Int} (inside : s.phase i = .inside known) :
      Turn s i .wait
        ({ s with tickets := s.tickets.draw.2 }.enter i (.checking (.watch s.tickets.next)))
  | serveOne {known : Option Int} (inside : s.phase i = .inside known) :
      Turn s i .notifyOne { s with tickets := s.tickets.notifyOne.2 }
  | serveAll {known : Option Int} (inside : s.phase i = .inside known) :
      Turn s i .notifyAll { s with tickets := s.tickets.notifyAll.2 }
  | pass {ticket : Ticket} (parked : s.phase i = .parked ticket)
      (served : s.tickets.isServed ticket = true) : Turn s i .advance (s.enter i .exchanging)

/-- An access that only moves its thread on. -/
theorem Turn.enter {phase : Phase} (quiet : a ≠ .wait ∧ a ≠ .notifyOne ∧ a ≠ .notifyAll)
    (guard : phase.hasGuard = (s.phase i).hasGuard)
    (ticket : phase.ticket? = (s.phase i).ticket?) : Turn s i a (s.enter i phase) :=
  show Turn s i a ({ s with value := s.value }.enter i phase) from .onward quiet guard ticket

/-- An exchange of the flag takes the lock, or leaves everything for another try. -/
theorem turn_of_exchange {missed : Phase} (guard : (s.phase i).hasGuard = false)
    (ticket : (s.phase i).ticket? = none) (guard' : missed.hasGuard = false)
    (ticket' : missed.ticket? = none) :
    Turn s i .advance
      ({ s with lock := s.lock.exchange.2 }.enter i
        (if s.lock.exchange.1 then .inside none else missed)) := by
  cases flag : s.lock.isLocked with
  | true =>
      have exchange : s.lock.exchange = (false, s.lock) := if_pos flag
      rw [exchange]
      refine .enter ⟨nofun, nofun, nofun⟩ ?_ ?_
      · rw [guard]
        exact guard'
      · rw [ticket]
        exact ticket'
  | false =>
      have exchange : s.lock.exchange = (true, ⟨true⟩) := if_neg (by rw [flag]; nofun)
      rw [exchange]
      exact .take flag guard ticket

theorem advance_turn (step : s.advance i = some s') : Turn s i .advance s' := by
  have quiet : Action.advance ≠ .wait ∧ Action.advance ≠ .notifyOne ∧
      Action.advance ≠ .notifyAll := ⟨nofun, nofun, nofun⟩
  unfold advance at step
  cases phase : s.phase i with
  | outside => rw [phase] at step; cases step
  | inside => rw [phase] at step; cases step
  | broken => rw [phase] at step; cases step
  | exchanging =>
      rw [phase] at step
      cases step
      exact turn_of_exchange (by rw [phase]; rfl) (by rw [phase]; rfl) rfl rfl
  | grabbing =>
      rw [phase] at step
      cases step
      exact turn_of_exchange (by rw [phase]; rfl) (by rw [phase]; rfl) rfl rfl
  | spinning =>
      rw [phase] at step
      cases step
      exact .enter quiet (by rw [phase]; split <;> rfl) (by rw [phase]; split <;> rfl)
  | peeking =>
      rw [phase] at step
      cases step
      exact .enter quiet (by rw [phase]; split <;> rfl) (by rw [phase]; split <;> rfl)
  | checking after =>
      rw [phase] at step
      cases step
      cases flag : s.lock.isLocked with
      | true => exact .enter quiet (by rw [phase]; rfl) (by rw [phase]; cases after <;> rfl)
      | false => exact .fail phase flag
  | clearing after =>
      rw [phase] at step
      cases after with
      | leave =>
          cases step
          exact .clear phase
      | watch ticket =>
          cases step
          exact .clear phase
  | parked ticket =>
      rw [phase] at step
      cases step
      cases served : s.tickets.isServed ticket with
      | true => exact .pass phase served
      | false => exact .enter quiet (by rw [phase]; rfl) (by rw [phase]; rfl)

/-- A call that begins outside the lock moves its thread on. -/
theorem turn_of_call {phase : Phase} (quiet : a ≠ .wait ∧ a ≠ .notifyOne ∧ a ≠ .notifyAll)
    (guard : phase.hasGuard = false) (ticket : phase.ticket? = none)
    (step : (if s.phase i = .outside then some (s.enter i phase) else none) = some s') :
    Turn s i a s' := by
  obtain ⟨outside, same⟩ := Option.ite_none_right_eq_some.mp step
  cases same
  exact .enter quiet (by rw [outside]; exact guard) (by rw [outside]; exact ticket)

/-- All other accesses need the guard. -/
theorem inside_of_step (step : s.step i a = some s') (advance : a ≠ .advance) (lock : a ≠ .lock)
    (tryLock : a ≠ .tryLock) : ∃ known, s.phase i = .inside known := by
  cases phase : s.phase i with
  | inside known => exact ⟨known, rfl⟩
  | _ => cases a <;> simp_all [Threads.step]

/-- What a thread can do with the guard. -/
theorem turn_of_inside {known : Option Int} (inside : s.phase i = .inside known)
    (step : s.step i a = some s') : Turn s i a s' := by
  have kept (known' : Option Int) : (Phase.inside known').hasGuard = (s.phase i).hasGuard ∧
      (Phase.inside known').ticket? = (s.phase i).ticket? := by
    rw [inside]
    exact ⟨rfl, rfl⟩
  have leaving : (Phase.checking .leave).hasGuard = (s.phase i).hasGuard ∧
      (Phase.checking .leave).ticket? = (s.phase i).ticket? := by
    rw [inside]
    exact ⟨rfl, rfl⟩
  unfold Threads.step at step
  rw [inside] at step
  cases a with
  | advance => exact advance_turn step
  | lock => cases step
  | tryLock => cases step
  | read =>
      cases step
      exact .enter ⟨nofun, nofun, nofun⟩ (kept _).1 (kept _).2
  | write value =>
      cases step
      exact .onward ⟨nofun, nofun, nofun⟩ (kept _).1 (kept _).2
  | notifyOne =>
      cases step
      exact .serveOne inside
  | notifyAll =>
      cases step
      exact .serveAll inside
  | wait =>
      cases step
      exact .draw inside
  | drop =>
      cases step
      exact .enter ⟨nofun, nofun, nofun⟩ leaving.1 leaving.2
  | abort =>
      cases step
      exact .enter ⟨nofun, nofun, nofun⟩ leaving.1 leaving.2

/-- Every access is one of those listed. -/
theorem step_turn (step : s.step i a = some s') : Turn s i a s' := by
  cases a with
  | advance => exact advance_turn step
  | lock => exact turn_of_call ⟨nofun, nofun, nofun⟩ rfl rfl step
  | tryLock => exact turn_of_call ⟨nofun, nofun, nofun⟩ rfl rfl step
  | _ =>
      obtain ⟨known, inside⟩ := inside_of_step step nofun nofun nofun
      exact turn_of_inside inside step

/-- An access of a thread leaves the other threads where they are. -/
theorem Turn.phase_eq (turn : Turn s i a s') (apart : j ≠ i) : s'.phase j = s.phase j := by
  cases turn with
  | serveOne => rfl
  | serveAll => rfl
  | _ => exact phase_enter_of_ne _ _ apart

/-- A thread without the guard leaves a raised flag alone. -/
theorem Turn.lock_eq (turn : Turn s i a s') (without : (s.phase i).hasGuard = false)
    (raised : s.lock.isLocked = true) : s'.lock = s.lock := by
  cases turn with
  | take free => cases free.symm.trans raised
  | clear clearing =>
      rw [clearing] at without
      cases without
  | _ => rfl

/-- A thread gets the guard only by raising a flag that is down. -/
theorem Turn.free (turn : Turn s i a s') (without : (s.phase i).hasGuard = false)
    (guard : (s'.phase i).hasGuard = true) : s.lock.isLocked = false := by
  cases turn with
  | take free => exact free
  | onward _ same =>
      rw [phase_enter_self, same, without] at guard
      cases guard
  | clear clearing =>
      rw [clearing] at without
      cases without
  | fail _ free => exact free
  | draw inside =>
      rw [inside] at without
      cases without
  | serveOne => exact absurd guard (by simp [without])
  | serveAll => exact absurd guard (by simp [without])
  | pass =>
      rw [phase_enter_self] at guard
      cases guard

/-- A run begins with its first access. -/
theorem exists_of_run_cons {x : ThreadId × Action} (ran : s.run (x :: script) = some s') :
    ∃ middle, s.step x.1 x.2 = some middle ∧ middle.run script = some s' := by
  obtain ⟨i, a⟩ := x
  rw [run] at ran
  cases step : s.step i a with
  | none => rw [step] at ran; cases ran
  | some middle => rw [step] at ran; exact ⟨middle, rfl, ran⟩

/-- The flag of the lock is up exactly while somebody has the guard, and only one has it. -/
structure Exclusive (s : Threads) : Prop where
  raised : s.lock.isLocked = true ↔ ∃ i, (s.phase i).hasGuard = true
  alone : ∀ i j, (s.phase i).hasGuard = true → (s.phase j).hasGuard = true → i = j

theorem exclusive_start (value : Int) : (start value).Exclusive := by
  constructor
  · refine iff_of_false nofun ?_
    rintro ⟨i, guard⟩
    cases guard
  · intro i j guard
    cases guard

/-- A thread that enters a phase without gaining or losing the guard. -/
theorem Exclusive.of_guards (exclusive : s.Exclusive) (lock : s'.lock = s.lock)
    (guards : ∀ j, (s'.phase j).hasGuard = (s.phase j).hasGuard) : s'.Exclusive := by
  constructor
  · rw [lock, exclusive.raised]
    exact exists_congr fun j => by rw [guards]
  · intro i j guard guard'
    rw [guards] at guard guard'
    exact exclusive.alone i j guard guard'

/-- What a thread enters looks the same as what it leaves. -/
theorem view_enter {β : Type} (view : Phase → β) {phase : Phase}
    (same : view phase = view (s.phase i)) (j : ThreadId) :
    view ((s.enter i phase).phase j) = view (s.phase j) := by
  by_cases here : j = i
  · rw [here, phase_enter_self, same]
  · rw [phase_enter_of_ne s phase here]

/-- Nobody has the guard while the flag is down. -/
theorem Exclusive.hasGuard_eq_false (exclusive : s.Exclusive) (free : s.lock.isLocked = false)
    (j : ThreadId) : (s.phase j).hasGuard = false := by
  refine Bool.eq_false_iff.mpr fun guard => ?_
  rw [exclusive.raised.mpr ⟨j, guard⟩] at free
  cases free

/-- Whoever drops the guard finds the flag up. -/
theorem Exclusive.isLocked_of_checking (exclusive : s.Exclusive) {after : AfterDrop}
    (checking : s.phase i = .checking after) : s.lock.isLocked = true :=
  exclusive.raised.mpr ⟨i, by rw [checking]; rfl⟩

/-- No access breaks the exclusion, in particular none that a thread does without the
guard. -/
theorem Turn.exclusive (turn : Turn s i a s') (before : s.Exclusive) : s'.Exclusive := by
  cases turn with
  | onward _ guard => exact before.of_guards rfl (view_enter Phase.hasGuard guard)
  | take free =>
      -- the flag was down, so the thread that raises it is the only one with the guard
      have nobody := before.hasGuard_eq_false free
      have others : ∀ j, ((s.enter i (.inside none)).phase j).hasGuard = true ↔ j = i := by
        intro j
        by_cases here : j = i
        · rw [here, phase_enter_self]
          exact iff_of_true rfl rfl
        · rw [phase_enter_of_ne s _ here, nobody]
          exact iff_of_false nofun here
      constructor
      · exact iff_of_true rfl ⟨i, (others i).mpr rfl⟩
      · intro j k guard guard'
        exact ((others j).mp guard).trans ((others k).mp guard').symm
  | @clear after clearing =>
      have mine : (s.phase i).hasGuard = true := by
        rw [clearing]
        rfl
      have none : ∀ j, ((s.enter i after.phase).phase j).hasGuard = false := by
        intro j
        by_cases here : j = i
        · rw [here, phase_enter_self]
          cases after <;> rfl
        · rw [phase_enter_of_ne s _ here]
          exact Bool.eq_false_iff.mpr fun guard => here (before.alone j i guard mine)
      constructor
      · refine iff_of_false nofun ?_
        rintro ⟨j, guard⟩
        have lost : ((s.enter i after.phase).phase j).hasGuard = true := guard
        rw [none] at lost
        cases lost
      · intro j k guard
        have lost : ((s.enter i after.phase).phase j).hasGuard = true := guard
        rw [none] at lost
        cases lost
  | fail checking free => cases free.symm.trans (before.isLocked_of_checking checking)
  | draw inside =>
      exact before.of_guards rfl (view_enter (s := s) Phase.hasGuard (by rw [inside]; rfl))
  | serveOne => exact before.of_guards rfl fun _ => rfl
  | serveAll => exact before.of_guards rfl fun _ => rfl
  | pass parked => exact before.of_guards rfl (view_enter Phase.hasGuard (by rw [parked]; rfl))

end Threads

end Highmem.Sync
