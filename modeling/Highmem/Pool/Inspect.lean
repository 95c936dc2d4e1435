import Highmem.Pool.Basic

/-!
# Inspecting a pool

Read-only views of a pool: the place of its window, the state of a slot, totals
over all slots, and `audit`, which compares the slots with the page table and
the reverse pointers.
-/

namespace Highmem

/-- Totals over the slots of a pool. -/
structure Stats where
  free : Nat
  stale : Nat
  held : Nat
  /-- Holders of all held slots. -/
  holders : Nat
  /-- Invalidation passes so far. -/
  passes : Nat
  /-- Callers that are asleep. -/
  waiting : Nat
  deriving DecidableEq

namespace Stats

/-- A pool in which nothing has happened and which has no slots. -/
def zero : Stats := ⟨0, 0, 0, 0, 0, 0⟩

def label (s : Stats) : String :=
  Text.record "PkmapStats"
    [("free", toString s.free), ("stale", toString s.stale), ("held", toString s.held),
      ("holders", toString s.holders), ("flushes", toString s.passes),
      ("waiting", toString s.waiting)]

/-- Enter one slot into the totals. -/
def enter (s : Stats) : Slot → Except Overflow Stats
  | .free => .ok { s with free := s.free + 1 }
  | .stale _ => .ok { s with stale := s.stale + 1 }
  | .held _ holders => do
    let sum ← Word.add s.holders holders.toNat
    return { s with held := s.held + 1, holders := sum }

def enterAll (s : Stats) : List Slot → Except Overflow Stats
  | [] => .ok s
  | slot :: rest => do
    let s' ← s.enter slot
    s'.enterAll rest

end Stats

namespace Pool

variable {n c : Nat}

def capacity (_ : Pool n c) : Nat := n

/-- The first address of the window and the first one above it. -/
def window (p : Pool n c) : Except Overflow (VirtAddr × VirtAddr) := do
  let stop ← p.pageAddress n
  return (p.base, stop)

def contains (p : Pool n c) (va : VirtAddr) : Except Overflow Bool := do
  let (start, stop) ← p.window
  return decide (start ≤ va) && decide (va < stop)

def slotAddress (p : Pool n c) (nr : Nat) : Except Fault VirtAddr :=
  if nr < n then (p.pageAddress nr : Except Fault VirtAddr) else .error (.slotNumber nr)

def slotState (p : Pool n c) (nr : Nat) : Except Fault Slot :=
  if h : nr < n then .ok (p.slot ⟨nr, h⟩) else .error (.slotIndex n nr)

/-- The address that a frame is bound to. -/
def addressOf? (p : Pool n c) (f : Frame) : Option VirtAddr := p.reverse.get? f

def stats (p : Pool n c) : Except Overflow Stats :=
  { Stats.zero with passes := p.passes, waiting := p.tickets.waiting }.enterAll p.slots.toList

/-- The slots that are not free, with their numbers. -/
def occupied (p : Pool n c) : List (Fin n × Slot) :=
  (List.finRange n).filterMap fun nr =>
    if (p.slot nr).isFree then none else some (nr, p.slot nr)

/-- Compare one slot with the page table and the reverse pointers: the entry of a
free slot maps nothing, the entry of a bound slot maps its frame, and that
frame's reverse pointer names the slot. -/
def auditSlot (p : Pool n c) (nr : Fin n) : Except Fault Unit := do
  let va ← p.pageAddress nr
  let found ← p.table.lookup va
  match (p.slot nr).frame? with
  | none =>
    match found with
    | none => return ()
    | some f => throw (.stillMapped nr f)
  | some f =>
    if found = some f then
      if p.reverse.get? f = some va then return ()
      else throw (.wrongReverse nr f (p.reverse.get? f) va)
    else throw (.wrongMapping nr found f)

/-- Compare some slots, in order, up to the first that fails. -/
def auditSlots (p : Pool n c) : List (Fin n) → Except Fault Unit
  | [] => .ok ()
  | nr :: rest => do
    p.auditSlot nr
    p.auditSlots rest

def boundCount (p : Pool n c) : Nat := p.slots.toList.countP (!·.isFree)

/-- Compare all slots, and then the number of reverse pointers with the number of
bound slots. -/
def audit (p : Pool n c) : Except Fault Unit := do
  p.auditSlots (List.finRange n)
  if p.reverse.size = p.boundCount then return ()
  else throw (.strayReverse p.reverse.size p.boundCount)

end Pool

end Highmem
