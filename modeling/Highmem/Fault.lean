import Highmem.Slot

/-!
# Refusals and faults

A *refusal* is an answer: the operation was asked for something that it does not
do, and nothing has changed. A *fault* is a failed assertion. The operation
stops where it is, the state keeps what had been changed before, and the lock is
given back, so the allocator stays in use.

Causes are data; `message` spells them out.
-/

namespace Highmem

/-- A window that does not begin at a multiple of a leaf table's span. -/
structure UnalignedBase where
  base : VirtAddr
  deriving DecidableEq

def UnalignedBase.message (e : UnalignedBase) : String :=
  s!"window base {e.base} is not aligned to a full page table"

/-- Why an address cannot be released. -/
inductive ReleaseError where
  /-- No slot has its page there. -/
  | outsideWindow (va : VirtAddr)
  /-- The address is inside a slot's page but not its first. -/
  | unaligned (va : VirtAddr)
  /-- The slot has no holder. -/
  | notHeld (va : VirtAddr) (state : Slot)
  deriving DecidableEq

def ReleaseError.message : ReleaseError → String
  | .outsideWindow va => s!"{va} is outside the kmap window"
  | .unaligned va => s!"{va} is not a slot address"
  | .notHeld va state => s!"kmap slot {va} is not held (state {state.label})"

/-- A failed assertion. -/
inductive Fault where
  /-- A calculation left its range. -/
  | overflow (cause : Overflow)
  /-- The slot table has `length` entries and was read at `index`. -/
  | slotIndex (length index : Nat)
  /-- A slot was asked for by a number that no slot has. -/
  | slotNumber (nr : Nat)
  /-- The window does not begin on a page boundary. -/
  | misalignedWindow (base : VirtAddr)
  /-- The leaf table has no entry for the address. -/
  | outsideTable (va base : VirtAddr)
  /-- The entry to be programmed is present already. -/
  | alreadyMapped (va : VirtAddr)
  /-- A reverse pointer names an address above the window. -/
  | escapedWindow (va : VirtAddr)
  /-- A reverse pointer names a slot that is free. -/
  | sharingFree
  /-- A slot to be bound is not free. -/
  | bindingOccupied (frame : Frame) (state : Slot)
  /-- The reverse map has no room for another frame. -/
  | reverseFull (capacity : Nat) (frame : Frame)
  /-- The entry of a stale slot does not map the slot's frame. -/
  | mappingLost (nr : Nat) (found : Option Frame) (frame : Frame)
  /-- The entry of a free slot maps a frame. -/
  | stillMapped (nr : Nat) (found : Frame)
  /-- The entry of a bound slot does not map the slot's frame. -/
  | wrongMapping (nr : Nat) (found : Option Frame) (frame : Frame)
  /-- The reverse pointer of a slot's frame is not the slot's address. -/
  | wrongReverse (nr : Nat) (frame : Frame) (found : Option VirtAddr) (va : VirtAddr)
  /-- There are not as many reverse pointers as bound slots. -/
  | strayReverse (size bound : Nat)
  /-- A release that must succeed was refused. -/
  | releaseRefused (cause : ReleaseError)
  /-- A lock that is free was released. -/
  | lockNotTaken
  /-- A critical section ended abnormally. -/
  | sectionAborted
  deriving DecidableEq

namespace Fault

/-- An equality that was asserted and does not hold, with both of its sides. -/
private def unequal (text left right : String) : String :=
  s!"assertion `left == right` failed: {text}\n  left: {left}\n right: {right}"

private def frameText (frame : Option Frame) : String := Text.optional (frame.map Frame.label)

private def addressText (va : Option VirtAddr) : String := Text.optional (va.map VirtAddr.label)

def message : Fault → String
  | overflow cause => cause.message
  | slotIndex length index => s!"index out of bounds: the len is {length} but the index is {index}"
  | slotNumber nr => s!"kmap slot {nr} out of range"
  | misalignedWindow base => s!"kmap window base {base} is not page aligned"
  | outsideTable va base => s!"{va} is outside the pkmap window at {base}"
  | alreadyMapped va => s!"{va} already mapped"
  | escapedWindow va => s!"{va} escaped the kmap window"
  | sharingFree => "reverse pointer names a free kmap slot"
  | bindingOccupied frame state => s!"binding {frame} to a {state.label} slot"
  | reverseFull capacity frame =>
    s!"page address table full ({capacity} entries) while binding {frame}"
  | mappingLost nr found frame =>
    unequal s!"stale kmap slot {nr} lost its mapping" (frameText found) (frameText frame)
  | stillMapped nr found =>
    unequal s!"free kmap slot {nr} is still mapped" (frameText found) (frameText none)
  | wrongMapping nr found frame =>
    unequal s!"kmap slot {nr} does not map {frame}" (frameText found) (frameText frame)
  | wrongReverse nr frame found va =>
    unequal s!"reverse pointer of {frame} does not name slot {nr}"
      (addressText found) (addressText va)
  | strayReverse size bound =>
    unequal "reverse pointers outlive their slots" (toString size) (toString bound)
  | releaseRefused cause => s!"kunmap: {cause.message}"
  | lockNotTaken => "unlocking an unlocked spin lock"
  | sectionAborted => "holder died"

end Fault

end Highmem
