import Highmem.Sync.SpinLock
import Highmem.Sync.Tickets

/-!
# Threads that share a mutex

Any number of threads share a value, the spin lock that protects it, and a ticket
queue. A thread is in some `Phase` of what it is doing, and `step` lets one thread
do one `Action`: a load, an exchange or a store of the lock's flag, a read or a
write of the value, a look at the ticket counters or a change of them. A list of
actions of different threads is one interleaving under sequential consistency, and
every interleaving is such a list. A notification reads and writes the counters in
one action, which is fair because they only change under the lock.

A thread may call `lock` or `tryLock` while it has no guard, and read, write,
notify, wait or drop the guard while it has one; `advance` does the next access of
a call that is under way. Waiting draws a ticket, drops the guard, watches the
ticket, and locks again.
-/

namespace Highmem.Sync

abbrev ThreadId := Nat

/-- What follows once a guard has been dropped. -/
inductive AfterDrop where
  /-- The thread goes on without the lock. -/
  | leave
  /-- The thread waits for its ticket. -/
  | watch (ticket : Ticket)
  deriving DecidableEq

/-- What a thread is doing. -/
inductive Phase where
  /-- Nothing that concerns the lock. -/
  | outside
  /-- In `lock`, about to exchange the flag. -/
  | exchanging
  /-- In `lock`, looking at the flag until it is down. -/
  | spinning
  /-- In `tryLock`, about to look at the flag. -/
  | peeking
  /-- In `tryLock`, about to exchange the flag. -/
  | grabbing
  /-- Holding the guard, with the value that the thread read or wrote last. -/
  | inside (known : Option Int)
  /-- Dropping the guard, about to check that the flag is up. -/
  | checking (after : AfterDrop)
  /-- Dropping the guard, about to lower the flag. -/
  | clearing (after : AfterDrop)
  /-- Watching a ticket. -/
  | parked (ticket : Ticket)
  /-- Stopped by the check that the flag is up. -/
  | broken
  deriving DecidableEq

/-- Whether a thread in this phase has the guard. -/
def Phase.hasGuard : Phase → Bool
  | inside _ => true
  | checking _ => true
  | clearing _ => true
  | _ => false

/-- One atomic access of a thread. -/
inductive Action where
  /-- Call `lock`. -/
  | lock
  /-- Call `tryLock`. -/
  | tryLock
  /-- Go on with a call. -/
  | advance
  /-- Read the value. -/
  | read
  /-- Write the value. -/
  | write (value : Int)
  /-- Serve the oldest ticket. -/
  | notifyOne
  /-- Serve all tickets. -/
  | notifyAll
  /-- Call `wait`, which draws a ticket. -/
  | wait
  /-- Begin to drop the guard. -/
  | drop
  /-- Fail inside the critical section, which drops the guard. -/
  | abort
  deriving DecidableEq

/-- The shared memory, and the phase of every thread. -/
structure Threads where
  lock : SpinLock
  value : Int
  tickets : Tickets
  phase : ThreadId → Phase

namespace Threads

/-- No thread has begun anything. -/
def start (value : Int) : Threads := ⟨.unlocked, value, .empty, fun _ => .outside⟩

def enter (s : Threads) (i : ThreadId) (phase : Phase) : Threads :=
  { s with phase := fun j => if j = i then phase else s.phase j }

@[simp] theorem phase_enter_self (s : Threads) (i : ThreadId) (phase : Phase) :
    (s.enter i phase).phase i = phase := if_pos rfl

theorem phase_enter_of_ne (s : Threads) {i j : ThreadId} (phase : Phase) (h : j ≠ i) :
    (s.enter i phase).phase j = s.phase j := if_neg h

/-- The next access of a call that is under way. -/
def advance (s : Threads) (i : ThreadId) : Option Threads :=
  match s.phase i with
  | .exchanging =>
    let (taken, lock) := s.lock.exchange
    some ({ s with lock }.enter i (if taken then .inside none else .spinning))
  | .spinning => some (s.enter i (if s.lock.isLocked then .spinning else .exchanging))
  | .peeking => some (s.enter i (if s.lock.isLocked then .outside else .grabbing))
  | .grabbing =>
    let (taken, lock) := s.lock.exchange
    some ({ s with lock }.enter i (if taken then .inside none else .outside))
  | .checking after => some (s.enter i (if s.lock.isLocked then .clearing after else .broken))
  | .clearing .leave => some ({ s with lock := s.lock.store }.enter i .outside)
  | .clearing (.watch ticket) => some ({ s with lock := s.lock.store }.enter i (.parked ticket))
  | .parked ticket =>
    some (s.enter i (if s.tickets.isServed ticket then .exchanging else .parked ticket))
  | _ => none

/-- One access of one thread; `none` if the thread cannot do it in its phase. -/
def step (s : Threads) (i : ThreadId) : Action → Option Threads
  | .advance => s.advance i
  | .lock => if s.phase i = .outside then some (s.enter i .exchanging) else none
  | .tryLock => if s.phase i = .outside then some (s.enter i .peeking) else none
  | action =>
    match s.phase i, action with
    | .inside _, .read => some (s.enter i (.inside (some s.value)))
    | .inside _, .write value => some ({ s with value }.enter i (.inside (some value)))
    | .inside _, .notifyOne => some { s with tickets := s.tickets.notifyOne.2 }
    | .inside _, .notifyAll => some { s with tickets := s.tickets.notifyAll.2 }
    | .inside _, .wait =>
      let (ticket, tickets) := s.tickets.draw
      some ({ s with tickets }.enter i (.checking (.watch ticket)))
    | .inside _, .drop => some (s.enter i (.checking .leave))
    | .inside _, .abort => some (s.enter i (.checking .leave))
    | _, _ => none

/-- Several accesses in turn; `none` if one of them is not possible. -/
def run (s : Threads) : List (ThreadId × Action) → Option Threads
  | [] => some s
  | (i, action) :: rest =>
    match s.step i action with
    | some s' => s'.run rest
    | none => none

/-- The accesses of one thread in turn, leaving out those that are not possible. -/
def perform (s : Threads) (i : ThreadId) : List Action → Threads
  | [] => s
  | action :: rest => ((s.step i action).getD s).perform i rest

/-- The value that a thread read or wrote last in its critical section. -/
def known? (s : Threads) (i : ThreadId) : Option Int :=
  match s.phase i with
  | .inside known => known
  | _ => none

def isInside (s : Threads) (i : ThreadId) : Bool :=
  match s.phase i with
  | .inside _ => true
  | _ => false

/-- Add to the value inside a critical section: read it, then write the sum. -/
def addInside (s : Threads) (i : ThreadId) (amount : Int) : Threads :=
  let s := s.perform i [.read]
  match s.known? i with
  | some value => s.perform i [.write (value + amount)]
  | none => s

/-- Drop the guard. -/
def leave (s : Threads) (i : ThreadId) : Threads := s.perform i [.drop, .advance, .advance]

end Threads

end Highmem.Sync
