import Highmem.Paging.PageWalk
import Highmem.Proofs.Paging.Refinement
import Mathlib.Order.Interval.Finset.Nat

/-!
# Pages that a range covers

A range covers the pages that have a byte in it. How many these are depends on where the
range begins within its first page, and the record only looks at the length: it counts one
page too few exactly for the ranges that `Straddles` describes. A walk over the pages of a
range begins at the first page, so it visits the covered pages and no others.

`pages_enterAll` is the account of a whole sequence of invalidations.
-/

namespace Highmem.Paging

variable {start stop va : VirtAddr}

/-- The numbers of the pages that have a byte in the range from `start` up to `stop`. -/
def covered (start stop : VirtAddr) : Finset Nat :=
  (Finset.Ico start.toNat stop.toNat).image (· / pageSize)

/-- How many pages it takes from address zero on to reach every address below `a`. -/
def pagesBelow (a : VirtAddr) : Nat := (a.toNat + (pageSize - 1)) / pageSize

theorem lt_pagesBelow_iff {k : Nat} : k < pagesBelow stop ↔ k * pageSize < stop.toNat := by
  simp only [pagesBelow, pageSize]
  omega

theorem pagesBelow_le (a : VirtAddr) : pagesBelow a ≤ frameCount := by
  have := a.isLt
  unfold pagesBelow pageSize frameCount wordCount at *
  omega

theorem covered_of_le (empty : stop ≤ start) : covered start stop = ∅ := by
  have none : Finset.Ico start.toNat stop.toNat = ∅ := Finset.Ico_eq_empty_of_le empty
  rw [covered, none, Finset.image_empty]

/-- The covered pages follow one another. -/
theorem covered_of_lt (filled : start < stop) :
    covered start stop = Finset.Ico start.pageNumber (pagesBelow stop) := by
  have filled : start.toNat < stop.toNat := filled
  ext k
  simp only [covered, Finset.mem_image, Finset.mem_Ico, lt_pagesBelow_iff]
  constructor
  · rintro ⟨x, ⟨lower, upper⟩, rfl⟩
    exact ⟨Nat.div_le_div_right lower, Nat.lt_of_le_of_lt (Nat.div_mul_le_self x _) upper⟩
  · rintro ⟨lower, upper⟩
    -- the first byte of the page, or the first one of the range in it
    refine ⟨max start.toNat (k * pageSize), ?_, ?_⟩
    all_goals
      simp only [VirtAddr.pageNumber, pageSize] at *
      omega

/-- The bytes of a range lie in one page more than its length needs. -/
def Straddles (start stop : VirtAddr) : Prop :=
  start < stop ∧ pageSize ≤ start.pageOffset + (stop.toNat - start.toNat - 1) % pageSize

instance (start stop : VirtAddr) : Decidable (Straddles start stop) :=
  inferInstanceAs (Decidable (_ ∧ _))

/-- The number of covered pages, told from the length of the range. -/
theorem card_covered (start stop : VirtAddr) :
    (covered start stop).card =
      FlushRecord.pagesOf start stop + if Straddles start stop then 1 else 0 := by
  by_cases filled : start < stop
  · rw [covered_of_lt filled, Nat.card_Ico]
    have filled' : start.toNat < stop.toNat := filled
    have length : stop.bytesSince? start = some (stop.toNat - start.toNat) :=
      if_pos (Nat.le_of_lt filled')
    rw [FlushRecord.pagesOf, length, Option.getD_some]
    simp only [Straddles, filled, true_and, pagesBelow, VirtAddr.pageNumber, VirtAddr.pageOffset,
      pageSize]
    split <;> omega
  · have empty : stop ≤ start := Nat.le_of_not_lt filled
    have unmoved : ¬ Straddles start stop := fun straddles => filled straddles.1
    have length : FlushRecord.pagesOf start stop = 0 := by
      have empty : stop.toNat ≤ start.toNat := empty
      unfold FlushRecord.pagesOf VirtAddr.bytesSince?
      split
      · simp only [Option.getD_some, pageSize]
        omega
      · rfl
    rw [covered_of_le empty, length, if_neg unmoved, Finset.card_empty]

namespace PageWalk

theorem next?_eq_some {k : Nat} (first : va.toNat = k * pageSize) (more : k < pagesBelow stop) :
    next? stop va = some (va.add pageSize) := by
  have inside := lt_pagesBelow_iff.mp more
  rw [← first] at inside
  exact if_pos inside

theorem next?_eq_none {k : Nat} (first : va.toNat = k * pageSize) (enough : pagesBelow stop ≤ k) :
    next? stop va = none := by
  have beyond := mt lt_pagesBelow_iff.mpr (Nat.not_lt_of_le enough)
  rw [← first] at beyond
  exact if_neg beyond

/-- From the first address of a page on, a walk visits each page up to the last one below
`stop`. The induction is on the number of these pages. -/
theorem visited_onward {k : Nat} (first : va.toNat = k * pageSize) :
    (onward stop va).visited.map VirtAddr.toNat =
      (List.range' k (pagesBelow stop - k)).map (· * pageSize) := by
  generalize left : pagesBelow stop - k = pages
  induction pages generalizing va k with
  | zero =>
      rw [onward_of_none (next?_eq_none first (by omega))]
      rfl
  | succ pages ih =>
      have more : next? stop va = some (va.add pageSize) := next?_eq_some first (by omega)
      rw [List.range'_succ, List.map_cons]
      cases step : va.add pageSize with
      | ok next =>
          have further := VirtAddr.add_eq_ok_iff.mp step
          rw [step] at more
          have following : next.toNat = (k + 1) * pageSize := by rw [further, first, Nat.succ_mul]
          rw [onward_of_ok more, List.map_cons, first, ih following (by omega)]
      | error cause =>
          -- there is no page above this one
          obtain ⟨beyond, -⟩ := VirtAddr.add_eq_error_iff.mp step
          have limit := pagesBelow_le stop
          have last : pages = 0 := by
            unfold pageSize wordCount frameCount at *
            omega
          rw [step] at more
          rw [onward_of_error more, last, List.map_cons, first]
          rfl

theorem toNat_pageStart (va : VirtAddr) : va.pageStart.toNat = va.pageNumber * pageSize := by
  change va.toNat - va.toNat % pageSize = va.toNat / pageSize * pageSize
  have := Nat.div_add_mod' va.toNat pageSize
  omega

/-- A walk over a range visits the pages from that of `start` on, in their order. -/
theorem visited_through (start stop : VirtAddr) :
    (through start stop).visited.map VirtAddr.toNat =
      (List.range' start.pageNumber (pagesBelow stop - start.pageNumber)).map (· * pageSize) :=
  visited_onward (toNat_pageStart start)

theorem mem_visited_through :
    va ∈ (through start stop).visited ↔ va.isPageAligned = true ∧
      start.pageNumber ≤ va.pageNumber ∧ va.pageNumber < pagesBelow stop := by
  have injective : Function.Injective VirtAddr.toNat := fun a b => VirtAddr.ext
  rw [← List.mem_map_of_injective injective, visited_through, VirtAddr.isPageAligned_iff]
  simp only [List.mem_map, List.mem_range'_1]
  constructor
  · rintro ⟨k, bounds, first⟩
    have number : va.pageNumber = k := by
      rw [VirtAddr.pageNumber, ← first, Nat.mul_div_cancel k (by decide)]
    rw [number, ← first, Nat.mul_mod_left]
    omega
  · rintro ⟨aligned, lower, upper⟩
    exact ⟨va.pageNumber, by omega, Nat.div_mul_cancel (Nat.dvd_of_mod_eq_zero aligned)⟩

/-- A walk over a range that is not empty visits the covered pages, each once. -/
theorem visits_covered (filled : start < stop) :
    (∀ va, va ∈ (through start stop).visited ↔
      va.isPageAligned = true ∧ va.pageNumber ∈ covered start stop) ∧
      (through start stop).visited.length = (covered start stop).card := by
  rw [covered_of_lt filled]
  constructor
  · intro va
    rw [mem_visited_through, Finset.mem_Ico]
  · have length := congrArg List.length (visited_through start stop)
    rw [List.length_map, List.length_map, List.length_range'] at length
    rw [length, Nat.card_Ico]

end PageWalk

namespace FlushRecord

variable {r : FlushRecord} {ranges : List (VirtAddr × VirtAddr)}

def enterAll : List (VirtAddr × VirtAddr) → Op FlushRecord Unit
  | [] => pure ()
  | (start, stop) :: rest => do
    enter start stop
    enterAll rest

def nextAll (r : FlushRecord) (ranges : List (VirtAddr × VirtAddr)) : FlushRecord :=
  ranges.foldl (fun r range => r.next range.1 range.2) r

/-- The recorded lengths of some ranges, in pages. -/
def lengths (ranges : List (VirtAddr × VirtAddr)) : List Nat :=
  ranges.map fun range => pagesOf range.1 range.2

theorem run_enterAll (few : r.ranges + ranges.length < wordCount)
    (fit : r.pages + (lengths ranges).sum < wordCount) :
    (enterAll ranges).run r = ⟨.ok (), r.nextAll ranges, []⟩ := by
  induction ranges generalizing r with
  | nil => rfl
  | cons range rest ih =>
      rw [List.length_cons] at few
      rw [lengths, List.map_cons, List.sum_cons] at fit
      have entered : (enter range.1 range.2).run r = ⟨.ok (), r.next range.1 range.2, []⟩ :=
        run_enter (by omega) (by omega)
      rw [enterAll, Op.run_bind_ok entered, ih]
      · rfl
      · change r.ranges + 1 + rest.length < wordCount
        omega
      · change r.pages + pagesOf range.1 range.2 + (lengths rest).sum < wordCount
        unfold lengths
        omega

theorem ranges_nextAll : (r.nextAll ranges).ranges = r.ranges + ranges.length := by
  induction ranges generalizing r with
  | nil => rfl
  | cons range rest ih =>
      rw [nextAll, List.foldl_cons, ← nextAll, ih, List.length_cons]
      change r.ranges + 1 + rest.length = _
      omega

theorem pages_nextAll : (r.nextAll ranges).pages = r.pages + (lengths ranges).sum := by
  induction ranges generalizing r with
  | nil => rfl
  | cons range rest ih =>
      rw [nextAll, List.foldl_cons, ← nextAll, ih, lengths, lengths, List.map_cons, List.sum_cons]
      exact Nat.add_assoc _ _ _

theorem last_nextAll : (r.nextAll ranges).last = ranges.getLast?.or r.last := by
  induction ranges generalizing r with
  | nil => rfl
  | cons range rest ih =>
      rw [nextAll, List.foldl_cons, ← nextAll, ih, List.getLast?_cons]
      change rest.getLast?.or (some range) = _
      cases rest.getLast? <;> rfl

/-- How many pages some ranges cover, each page counted once for every range. -/
def coverage (ranges : List (VirtAddr × VirtAddr)) : Nat :=
  (ranges.map fun range => (covered range.1 range.2).card).sum

/-- How many of some ranges lie in one page more than their length needs. -/
def straddling (ranges : List (VirtAddr × VirtAddr)) : Nat :=
  ranges.countP fun range => Straddles range.1 range.2

theorem coverage_eq (ranges : List (VirtAddr × VirtAddr)) :
    coverage ranges = (lengths ranges).sum + straddling ranges := by
  induction ranges with
  | nil => rfl
  | cons range rest ih =>
      unfold coverage lengths straddling at *
      rw [List.map_cons, List.sum_cons, ih, List.map_cons, List.sum_cons, List.countP_cons,
        card_covered]
      simp only [decide_eq_true_eq]
      omega

/-- After any sequence of invalidations that its counters can hold, the record has the number
of ranges, the last range, and the sum of the pages that the ranges cover less one for each
range that straddles. So the recorded pages are the covered ones exactly if no range
straddles. A walk visits the covered pages of every range that is not empty. -/
theorem pages_enterAll (few : ranges.length < wordCount)
    (fit : (lengths ranges).sum < wordCount) :
    ∃ r, (enterAll ranges).run empty = ⟨.ok (), r, []⟩ ∧
      r.ranges = ranges.length ∧ r.last = ranges.getLast? ∧
      r.pages + straddling ranges = coverage ranges ∧
      (r.pages = coverage ranges ↔ ∀ range ∈ ranges, ¬ Straddles range.1 range.2) ∧
      ∀ range ∈ ranges, range.1 < range.2 →
        (∀ va, va ∈ (PageWalk.through range.1 range.2).visited ↔
          va.isPageAligned = true ∧ va.pageNumber ∈ covered range.1 range.2) ∧
        (PageWalk.through range.1 range.2).visited.length = (covered range.1 range.2).card := by
  have entered : (enterAll ranges).run empty = ⟨.ok (), empty.nextAll ranges, []⟩ :=
    run_enterAll ((Nat.zero_add _).trans_lt few) ((Nat.zero_add _).trans_lt fit)
  have pages : (empty.nextAll ranges).pages = (lengths ranges).sum :=
    pages_nextAll.trans (Nat.zero_add _)
  have total := coverage_eq ranges
  refine ⟨_, entered, ranges_nextAll.trans (Nat.zero_add _), ?_, by omega, ?_, ?_⟩
  · rw [last_nextAll]
    exact Option.or_none
  · rw [pages, total]
    constructor
    · intro same
      have none : straddling ranges = 0 := by omega
      intro range mem straddles
      exact List.countP_eq_zero.mp none range mem (decide_eq_true straddles)
    · intro flat
      have none : straddling ranges = 0 :=
        List.countP_eq_zero.mpr fun range mem is => flat range mem (of_decide_eq_true is)
      omega
  · exact fun range _ filled => PageWalk.visits_covered filled

/-- Two pages and a byte on either side of them, and two bytes on either side of a border. -/
def acrossBorders : List (VirtAddr × VirtAddr) :=
  [(⟨0xfff, by decide⟩, ⟨0x3001, by decide⟩), (⟨0x1fff, by decide⟩, ⟨0x2001, by decide⟩)]

theorem pages_enterAll_across :
    acrossBorders.length < wordCount ∧ (lengths acrossBorders).sum < wordCount ∧
      ∃ r, (enterAll acrossBorders).run empty = ⟨.ok (), r, []⟩ ∧ r.ranges = 2 ∧
        r.last = some (⟨0x1fff, by decide⟩, ⟨0x2001, by decide⟩) ∧
        r.pages + 2 = coverage acrossBorders := by
  have few : acrossBorders.length < wordCount := by decide
  have fit : (lengths acrossBorders).sum < wordCount := by decide
  obtain ⟨r, entered, count, last, pages, -⟩ := pages_enterAll few fit
  have twice : straddling acrossBorders = 2 := by decide
  rw [twice] at pages
  exact ⟨few, fit, r, entered, count, last, pages⟩

/-- Two bytes on either side of a border lie in two pages, and one page is recorded. -/
theorem pages_of_border :
    let border : VirtAddr × VirtAddr := (⟨0x1fff, by decide⟩, ⟨0x2001, by decide⟩)
    (enterAll [border]).run empty = ⟨.ok (), ⟨1, 1, some border⟩, []⟩ ∧ coverage [border] = 2 :=
  ⟨run_enterAll (by decide) (by decide), by decide⟩

end FlushRecord

end Highmem.Paging
