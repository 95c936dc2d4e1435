import Highmem.Fault
import Highmem.Layout

/-!
# The direct map

Physical memory below a limit is mapped permanently, at a fixed distance. A frame
is *covered* when its base lies below the limit; its address needs no slot and
is never released.
-/

namespace Highmem

/-- A permanent mapping of low physical memory. -/
structure DirectMap where
  /-- Address of physical address zero. -/
  base : VirtAddr
  /-- First physical address that is not covered. -/
  limit : PhysAddr
  deriving DecidableEq

namespace DirectMap

def standard : DirectMap := ⟨Layout.directMapBase, Layout.lowMemoryEnd⟩

def label (d : DirectMap) (window : VirtAddr) : String :=
  Text.record "KmapConfig"
    [("hhdm_base", d.base.label), ("lowmem_end", d.limit.label),
      ("pkmap", Layout.windowLabel window)]

/-- Whether the frame is mapped permanently. -/
def covers (d : DirectMap) (f : Frame) : Bool := f.base < d.limit

/-- Permanent address of a covered frame. -/
def addressOf (d : DirectMap) (f : Frame) : Except Overflow VirtAddr := d.base.add f.base.toNat

def contains (d : DirectMap) (va : VirtAddr) : Bool :=
  match va.bytesSince? d.base with
  | some offset => offset < d.limit.toNat
  | none => false

theorem covers_iff {d : DirectMap} {f : Frame} :
    d.covers f = true ↔ f.number * pageSize < d.limit.toNat := decide_eq_true_iff

/-- The direct map is as long as the memory that it covers. -/
theorem contains_iff {d : DirectMap} {va : VirtAddr} :
    d.contains va = true ↔
      d.base.toNat ≤ va.toNat ∧ va.toNat < d.base.toNat + d.limit.toNat := by
  unfold contains
  split
  · rename_i offset h
    have := VirtAddr.bytesSince?_eq_some_iff.mp h
    rw [decide_eq_true_iff]
    omega
  · rename_i h
    have below : ¬ d.base.toNat ≤ va.toNat := fun le => by
      simp [VirtAddr.bytesSince?, le] at h
    simp [below]

end DirectMap

end Highmem
