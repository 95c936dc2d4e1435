import Highmem.Address

/-!
# Invalidation page by page

Where there is a translation cache, a range is invalidated one page at a time, beginning
with the page that holds its first address. A page is named by its own first address. The
address of the next page is calculated after each page, the last one included, so a walk
can fault at the top of the address space when no page is left to visit.
-/

namespace Highmem.Paging

/-- What a walk over pages has done. -/
structure PageWalk where
  /-- The pages that were invalidated, oldest first. -/
  visited : List VirtAddr
  ending : Except Overflow Unit

namespace PageWalk

/-- What follows the page that begins at `va`, if that page is to be visited at all. -/
def next? (stop va : VirtAddr) : Option (Except Overflow VirtAddr) :=
  if va < stop then some (va.add pageSize) else none

/-- Each page leaves less of the range. -/
theorem shorter_of_next? {stop va next : VirtAddr} (step : next? stop va = some (.ok next)) :
    stop.toNat - next.toNat < stop.toNat - va.toNat := by
  unfold next? at step
  split at step
  case isTrue inside =>
    have further := VirtAddr.add_eq_ok_iff.mp (Option.some.inj step)
    have inside : va.toNat < stop.toNat := inside
    have room : 0 < pageSize := by decide
    omega
  case isFalse => cases step

/-- Visit the pages from the one that begins at `va` on, up to `stop`. -/
def onward (stop va : VirtAddr) : PageWalk :=
  match _ : next? stop va with
  | some (.ok next) =>
    let later := onward stop next
    ⟨va :: later.visited, later.ending⟩
  | some (.error cause) => ⟨[va], .error cause⟩
  | none => ⟨[], .ok ()⟩
termination_by stop.toNat - va.toNat
decreasing_by exact shorter_of_next? ‹_›

/-- Visit the pages of the range from `start` up to `stop`. -/
def through (start stop : VirtAddr) : PageWalk := onward stop start.pageStart

theorem onward_of_ok {stop va next : VirtAddr} (step : next? stop va = some (.ok next)) :
    onward stop va = ⟨va :: (onward stop next).visited, (onward stop next).ending⟩ := by
  rw [onward]
  split <;> simp_all

theorem onward_of_error {stop va : VirtAddr} {cause : Overflow}
    (step : next? stop va = some (.error cause)) : onward stop va = ⟨[va], .error cause⟩ := by
  rw [onward]
  split <;> simp_all

theorem onward_of_none {stop va : VirtAddr} (step : next? stop va = none) :
    onward stop va = ⟨[], .ok ()⟩ := by
  rw [onward]
  split <;> simp_all

end PageWalk

end Highmem.Paging
