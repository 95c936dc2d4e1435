import Highmem.Sync.Threads

/-!
# A mutex with one keeper

A main thread works on an integer behind a mutex and may keep the guard between
its calls. Critical sections of other threads then wait; each of them is a
worker, a thread that takes the lock once, adds an amount and leaves. When the
main thread gives the guard back, the workers get the lock in the order in which
they came.

Each call but `replace` is a sequence of accesses of the `Threads` below it, so
what holds of all interleavings holds of these (`Mutex.leads_call`).
-/

namespace Highmem.Sync

/-- The main thread's mutex and the workers that wait for it. -/
structure Mutex where
  threads : Threads
  /-- Workers inside `lock`, with the amounts that they add; oldest first. -/
  pending : List (ThreadId × Int)
  /-- The next worker. -/
  nextWorker : ThreadId

namespace Mutex

/-- The thread that may keep the guard. -/
def keeper : ThreadId := 0

/-- A call of the main thread. -/
inductive Call where
  /-- Take the lock and keep the guard. -/
  | lock
  /-- Take the lock and keep the guard, if the lock is free. -/
  | tryLock
  /-- Drop the guard. -/
  | unlock
  | get
  | set (value : Int)
  | add (amount : Int)
  /-- Add in a critical section of its own; a worker's if the guard is kept. -/
  | addLocked (amount : Int)
  /-- Set the value in a critical section of its own, which then fails. -/
  | abortAfter (value : Int)
  /-- Exchange the value without the lock, which needs exclusive access. -/
  | replace (value : Int)
  deriving DecidableEq

/-- The answer to a call. -/
inductive Reply where
  /-- The guard is kept now. -/
  | locked
  /-- The guard is kept already. -/
  | held
  /-- No guard is kept. -/
  | notHeld
  /-- Whether the lock could be taken. -/
  | taken (success : Bool)
  /-- The lock was given back, and this many workers then had it. -/
  | unlocked (served : Nat)
  | value (value : Int)
  | done
  /-- A worker waits for the lock. -/
  | pending
  deriving DecidableEq

def start (value : Int) : Mutex := ⟨.start value, [], keeper + 1⟩

def isKept (m : Mutex) : Bool := m.threads.isInside keeper

def act (m : Mutex) (actions : List Action) : Mutex :=
  { m with threads := m.threads.perform keeper actions }

/-- Let the waiting workers have the lock, one after another. -/
def serve (s : Threads) : List (ThreadId × Int) → Threads
  | [] => s
  | (i, amount) :: rest =>
    serve (((s.perform i [.advance, .advance]).addInside i amount).leave i) rest

/-- Drop the kept guard and let all waiting workers finish. -/
def giveBack (m : Mutex) : Mutex :=
  { m with threads := serve (m.threads.leave keeper) m.pending, pending := [] }

def call (c : Call) : Op Mutex Reply := do
  let m ← get
  match c, m.isKept with
  | .lock, true => return .held
  | .lock, false =>
    set (m.act [.lock, .advance])
    return .locked
  | .tryLock, true => return .taken false
  | .tryLock, false =>
    let m := m.act [.tryLock, .advance, .advance]
    set m
    return .taken m.isKept
  | .unlock, false => return .notHeld
  | .unlock, true =>
    set m.giveBack
    return .unlocked m.pending.length
  | .get, false => return .notHeld
  | .get, true =>
    let m := m.act [.read]
    set m
    return .value m.threads.value
  | .set _, false => return .notHeld
  | .set value, true =>
    set (m.act [.write value])
    return .done
  | .add _, false => return .notHeld
  | .add amount, true =>
    let m := { m with threads := m.threads.addInside keeper amount }
    set m
    return .value m.threads.value
  | .addLocked amount, false =>
    let threads := ((m.act [.lock, .advance]).threads.addInside keeper amount).leave keeper
    set { m with threads }
    return .value threads.value
  | .addLocked amount, true =>
    let threads := m.threads.perform m.nextWorker [.lock, .advance]
    let pending := m.pending ++ [(m.nextWorker, amount)]
    set { m with threads, pending, nextWorker := m.nextWorker + 1 }
    return .pending
  | .abortAfter _, true => return .held
  | .abortAfter value, false =>
    set (m.act [.lock, .advance, .write value, .abort, .advance, .advance])
    Op.fail .sectionAborted
  | .replace _, true => return .held
  | .replace value, false =>
    set { m with threads := { m.threads with value } }
    return .value m.threads.value

/-- The value that is left when a kept guard has been dropped and all workers
have finished. -/
def intoValue (m : Mutex) : Int :=
  if m.isKept then m.giveBack.threads.value else m.threads.value

end Mutex

end Highmem.Sync
