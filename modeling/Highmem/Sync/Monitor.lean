import Highmem.Sync.Mutex

/-!
# Waiting for a notification

Threads wait under a mutex until they are notified, and then add an amount to
its integer. A waiter may ask for a least value: one that wakes and finds less
waits again, behind all others.

After each call the notified waiters run one after another, in the order of
their tickets, until every waiter has finished or waits. That too is an
interleaving of accesses of the `Threads` below (`Monitor.Reachable.leads`).
-/

namespace Highmem.Sync

/-- A thread that waits. -/
structure Waiter where
  id : Nat
  thread : ThreadId
  amount : Int
  /-- The least value with which the waiter is content. -/
  atLeast : Option Int
  deriving DecidableEq

/-- A mutex with a queue, and the threads that wait in it. -/
structure Monitor where
  threads : Threads
  /-- In the order of their tickets. -/
  waiters : List Waiter
  nextId : Nat

namespace Monitor

def start (value : Int) : Monitor := ⟨.start value, [], 0⟩

def value (m : Monitor) : Int := m.threads.value

/-- Waiters that were not notified. -/
def waiting (m : Monitor) : Nat := m.threads.tickets.waiting

/-- The accesses of a thread that holds the guard and waits. -/
def waitActions : List Action := [.wait, .advance, .advance]

/-- A new thread takes the lock and waits. -/
def wait (m : Monitor) (amount : Int) (atLeast : Option Int) : Nat × Monitor :=
  let thread := Mutex.keeper + 1 + m.nextId
  let threads := m.threads.perform thread (.lock :: .advance :: waitActions)
  (m.nextId, ⟨threads, m.waiters ++ [⟨m.nextId, thread, amount, atLeast⟩], m.nextId + 1⟩)

/-- The main thread takes the lock, performs some accesses and drops the guard. -/
def locked (m : Monitor) (actions : List Action) : Monitor :=
  { m with
    threads := (m.threads.perform Mutex.keeper (.lock :: .advance :: actions)).leave Mutex.keeper }

def setValue (m : Monitor) (value : Int) : Monitor := m.locked [.write value]

/-- Notify the waiter that has waited longest, and answer whether there was one. -/
def notifyOne (m : Monitor) : Bool × Monitor :=
  (m.threads.tickets.notifyOne.1, m.locked [.notifyOne])

/-- Notify all waiters, and answer how many there were. -/
def notifyAll (m : Monitor) : Nat × Monitor :=
  (m.threads.tickets.notifyAll.1, m.locked [.notifyAll])

def mayRun (m : Monitor) (w : Waiter) : Bool :=
  match m.threads.phase w.thread with
  | .parked ticket => m.threads.tickets.isServed ticket
  | _ => false

/-- A notified waiter takes the lock and looks at the value. It finishes, or waits
again at the end of the queue. Answers whether it has finished. -/
def resume (m : Monitor) (w : Waiter) : Bool × Monitor :=
  let threads := m.threads.perform w.thread [.advance, .advance, .read]
  let others := m.waiters.filter (·.id ≠ w.id)
  let content :=
    match w.atLeast, threads.known? w.thread with
    | some least, some value => decide (least ≤ value)
    | _, _ => true
  if content then
    (true, ⟨(threads.addInside w.thread w.amount).leave w.thread, others, m.nextId⟩)
  else
    (false, ⟨threads.perform w.thread waitActions, others ++ [w], m.nextId⟩)

/-- Run notified waiters, `resumptions` of them at most, and answer those that
finished. -/
def settleWithin (m : Monitor) : (resumptions : Nat) → List Nat × Monitor
  | 0 => ([], m)
  | resumptions + 1 =>
    match m.waiters.find? m.mayRun with
    | none => ([], m)
    | some w =>
      let (finished, m') := m.resume w
      let (later, last) := m'.settleWithin resumptions
      (if finished then w.id :: later else later, last)

/-- Run all notified waiters. None of them notifies another, so each runs once. -/
def settle (m : Monitor) : List Nat × Monitor := m.settleWithin m.waiters.length

end Monitor

end Highmem.Sync
