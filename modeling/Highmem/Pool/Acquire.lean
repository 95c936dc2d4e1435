import Highmem.Pool.Basic

/-!
# Acquiring a slot

A caller that asks for a frame shares the slot that the frame is bound to, if it
is bound to one. Otherwise the slots are scanned for a free one. The scan begins
at the cursor and runs to the last slot; slot zero is looked at only after an
invalidation pass, which turns all stale slots free, and then one whole round of
slots follows. A caller that finds nothing draws a ticket and sleeps.

Every definition here runs inside one critical section, from taking the lock to
giving it back or going to sleep. `attempt` is the section of a caller that has
just arrived, `retry` that of a caller that was woken.
-/

namespace Highmem.Pool

open Paging Sync

variable {n c : Nat}

/-- Take a hold on the slot that a frame is bound to, if there is one. -/
def shareBound (f : Frame) : Op (Pool n c) (Option VirtAddr) := do
  let p ← get
  match p.reverse.get? f with
  | none => return none
  | some va =>
    let nr ← p.slotAt va
    match (p.slot nr).share? with
    | none => Op.fail .sharingFree
    | some s =>
      putSlot nr s
      Op.emit (.shared f nr s)
      return some va

/-- Bind a slot to a frame, with one holder: program its entry, then enter it in
the slot table and in the reverse map. -/
def bindSlot (nr : Fin n) (f : Frame) : Op (Pool n c) VirtAddr := do
  let p ← get
  let va ← p.pageAddress nr
  onTable (LeafTable.commit va f)
  match (p.slot nr).bind? f with
  | none => Op.fail (.bindingOccupied f (p.slot nr))
  | some s =>
    putSlot nr s
    onReverse (ReverseMap.insert f va)
    Op.emit (.bound f nr va)
    return va

/-- Turn a slot free if it is stale, and answer whether it was. Its entry must
still map its frame. -/
def reclaim (nr : Fin n) : Op (Pool n c) Bool := do
  let p ← get
  match (p.slot nr).reclaim? with
  | none => return false
  | some f =>
    putSlot nr .free
    let va ← p.pageAddress nr
    let found ← onTable (LeafTable.clear va)
    if found = some f then
      onReverse (modify (·.erase f))
      return true
    else
      Op.fail (.mappingLost nr found f)

/-- Turn the stale ones among some slots free, and count them. -/
def reclaimAll : List (Fin n) → Op (Pool n c) Nat
  | [] => return 0
  | nr :: rest => do
    let freed ← reclaim nr
    let more ← reclaimAll rest
    return if freed then more + 1 else more

/-- An invalidation pass: turn all stale slots free, then drop the cached
translations of the whole window at once. Answers the number of freed slots. -/
def sweep : Op (Pool n c) Nat := do
  let freed ← reclaimAll (List.finRange n)
  let p ← get
  let stop ← p.pageAddress n
  onTable (LeafTable.invalidate p.base stop)
  let passes ← Word.add p.passes 1
  modify fun p => { p with passes }
  Op.emit (.swept freed)
  return freed

/-- The slots in the order in which a scan from `start` looks at them: up to the
last one, and then one whole round, unless it is a whole round already. -/
def itinerary (start : Fin n) : List (Fin n) :=
  if start.val = 0 then List.finRange n
  else (List.finRange n).drop start ++ List.finRange n

/-- A scan looks at `2 * n - 1` slots at most: it never passes its start again. -/
theorem length_itinerary_le (start : Fin n) : (itinerary start).length ≤ 2 * n - 1 := by
  have := start.isLt
  unfold itinerary
  split
  · rw [List.length_finRange]
    omega
  · rw [List.length_append, List.length_drop, List.length_finRange]
    omega

/-- Look at some slots in turn, and bind the first free one. Looking at slot zero
begins with an invalidation pass; the caller takes one of the slots that the
pass freed, so a waiting caller is let in when there are more. -/
def scanAlong (f : Frame) : List (Fin n) → Op (Pool n c) (Option VirtAddr)
  | [] => return none
  | nr :: rest => do
    modify fun p => { p with cursor := Cyclic.next nr }
    if nr.val = 0 then
      let freed ← sweep
      if 1 < freed then notifyOne
    let p ← get
    if (p.slot nr).isFree then
      let va ← bindSlot nr f
      return some va
    else
      scanAlong f rest

/-- Bind the first free slot from the cursor on. -/
def scan (f : Frame) : Op (Pool n c) (Option VirtAddr) := do
  let p ← get
  scanAlong f (itinerary p.cursor)

/-- What a caller gets out of a critical section. -/
inductive Grant where
  /-- The address of its frame. -/
  | granted (va : VirtAddr)
  /-- A ticket to wait with. -/
  | parked (ticket : Ticket)
  deriving DecidableEq

def attempt (f : Frame) : Op (Pool n c) Grant := do
  match ← shareBound f with
  | some va => return .granted va
  | none =>
    match ← scan f with
    | some va => return .granted va
    | none =>
      Op.emit (.busy n f)
      return .parked (← drawTicket)

/-- Ask for a frame again, after the ticket was served. The frame may have been
bound meanwhile, so this begins from the start. -/
def retry (f : Frame) : Op (Pool n c) Grant := do
  Op.emit (.woken f)
  attempt f

end Highmem.Pool
