import Highmem.Pool.Basic

/-!
# Releasing a slot

Releasing takes the address of a slot. An address that is not one, or whose slot
nobody holds, is refused and nothing changes. When the last holder leaves, the
slot turns stale and the caller that has waited longest is let in.
-/

namespace Highmem.Pool

open Paging

variable {n c : Nat}

/-- The slot whose first address is `va`. -/
def slotOf (p : Pool n c) (va : VirtAddr) : Except ReleaseError (Fin n) :=
  match va.pagesSince? p.base with
  | some nr =>
    if h : nr < n then
      if va.isPageAligned then .ok ⟨nr, h⟩ else .error (.unaligned va)
    else .error (.outsideWindow va)
  | none => .error (.outsideWindow va)

/-- Give up one hold on the slot at `va`. -/
def tryRelease (va : VirtAddr) : Op (Pool n c) (Except ReleaseError Unit) := do
  let p ← get
  match p.slotOf va with
  | .error e => return .error e
  | .ok nr =>
    match (p.slot nr).release? with
    | none => return .error (.notHeld va (p.slot nr))
    | some s =>
      putSlot nr s
      if s.isStale then
        Op.emit (.staled nr va)
        notifyOne
      return .ok ()

/-- Give up one hold on the slot at `va`, which must be held. -/
def release (va : VirtAddr) : Op (Pool n c) Unit := do
  match ← tryRelease va with
  | .ok () => return ()
  | .error e => Op.fail (.releaseRefused e)

end Highmem.Pool
