import Highmem.Operation

/-!
# The spin lock

A spin lock is one flag. It offers three atomic accesses, `isLocked`, `exchange`
and `store`, and everything else is made of them: a thread that wants the lock
repeats `exchange` until it succeeds, and looks at the flag in between.

The functions here run all accesses of one call together, as they come about
when no other thread interferes.
-/

namespace Highmem.Sync

/-- A lock that is waited for by spinning. -/
@[ext] structure SpinLock where
  isLocked : Bool
  deriving DecidableEq

namespace SpinLock

def unlocked : SpinLock := ⟨false⟩

/-- Raise the flag if it is down, and answer whether it was. -/
def exchange (l : SpinLock) : Bool × SpinLock :=
  if l.isLocked then (false, l) else (true, ⟨true⟩)

/-- Lower the flag. -/
def store (_ : SpinLock) : SpinLock := ⟨false⟩

/-- Take the lock, if nobody holds it: look at the flag first, and try to raise it
only if it is down. -/
def tryLock : Op SpinLock Bool := do
  let l ← get
  if l.isLocked then return false
  else modifyGet exchange

/-- Give the lock back. It must be taken. -/
def unlock : Op SpinLock Unit := do
  let l ← get
  if l.isLocked then set l.store
  else Op.fail .lockNotTaken

end SpinLock

end Highmem.Sync
