import Highmem.Operation

/-!
# Record of invalidations

Where there is no translation cache, an invalidation is only recorded: how many
ranges were invalidated, how many pages they had in total, and which range came
last. The length of a range is rounded up to whole pages, and a range that ends
before it starts has none.
-/

namespace Highmem.Paging

/-- What has been invalidated so far. -/
structure FlushRecord where
  ranges : Nat
  pages : Nat
  last : Option (VirtAddr × VirtAddr)
  deriving DecidableEq

namespace FlushRecord

def empty : FlushRecord := ⟨0, 0, none⟩

/-- Length in pages of the range from `start` up to `stop`. -/
def pagesOf (start stop : VirtAddr) : Nat :=
  ((stop.bytesSince? start).getD 0 + (pageSize - 1)) / pageSize

/-- Enter the range from `start` up to `stop`. The counters are words. -/
def enter (start stop : VirtAddr) : Op FlushRecord Unit := do
  let r ← get
  let ranges ← Word.add r.ranges 1
  set { r with ranges }
  let pages ← Word.add r.pages (pagesOf start stop)
  set (⟨ranges, pages, some (start, stop)⟩ : FlushRecord)

end FlushRecord

end Highmem.Paging
