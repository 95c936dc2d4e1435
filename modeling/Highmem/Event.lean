import Highmem.Slot

/-!
# Events

What an operation does besides changing its own state, in the order in which it
happens. Writes to the page table and invalidations are what the translation
hardware sees; the other events are progress reports. An event that is worth
reporting has a log line with its level.
-/

namespace Highmem

/-- One observable effect. -/
inductive Event where
  /-- The entry of `va` was programmed to map `frame`. -/
  | mapped (va : VirtAddr) (frame : Frame)
  /-- The entry of `va` was cleared. -/
  | cleared (va : VirtAddr)
  /-- Cached translations of the addresses from `start` up to `stop` were dropped. -/
  | invalidated (start stop : VirtAddr)
  /-- A bound slot gained a holder, and is now in `state`. -/
  | shared (frame : Frame) (nr : Nat) (state : Slot)
  /-- A free slot was bound. -/
  | bound (frame : Frame) (nr : Nat) (va : VirtAddr)
  /-- An invalidation pass ended, with `reclaimed` slots turned free. -/
  | swept (reclaimed : Nat)
  /-- None of `slots` slots could be had, and the caller goes to sleep. -/
  | busy (slots : Nat) (frame : Frame)
  /-- A caller has been woken. -/
  | woken (frame : Frame)
  /-- The last holder of a slot left. -/
  | staled (nr : Nat) (va : VirtAddr)
  deriving DecidableEq

/-- The log line of an event, if it has one. -/
def Event.line? : Event → Option String
  | .mapped _ _ => none
  | .cleared _ => none
  | .invalidated start stop => some s!"TRACE Invalidating TLB for {start}..{stop}"
  | .shared frame nr state => some s!"TRACE kmap: {frame} already at slot {nr}, {state.label}"
  | .bound frame nr va => some s!"TRACE kmap: bound {frame} to slot {nr} at {va}"
  | .swept reclaimed =>
    some s!"DEBUG kmap: invalidated window, reclaimed {reclaimed} stale slots"
  | .busy slots frame => some s!"DEBUG kmap: all {slots} slots busy, {frame} waits"
  | .woken frame => some s!"DEBUG kmap: {frame} woke up, retrying"
  | .staled nr va => some s!"TRACE kmap: slot {nr} at {va} is stale"

def Event.log (events : List Event) : List String := events.filterMap Event.line?

end Highmem
