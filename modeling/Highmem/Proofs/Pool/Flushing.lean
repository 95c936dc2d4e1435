import Highmem.Proofs.Paging.Shadow
import Highmem.Proofs.Pool.Attempt
import Highmem.Proofs.Pool.Release

/-!
# Counting invalidations

Every invalidation that a pool asks for covers its whole window, and the pool counts
them three times: as passes, as recorded ranges and, multiplied by the number of
slots, as recorded pages. The last count is the one that would be exhausted first.
Below `passLimit` passes none of them is, whatever the number of slots.
-/

namespace Highmem.Pool

open Paging Sync

variable {n c : Nat} {p q r : Pool n c} {f : Frame} {es : List Event} {k : Nat}

/-- Fewer passes than this exhaust no counter. -/
def passLimit : Nat := 2 ^ 55

/-- The counters of a pool that has asked for `k` invalidations. -/
structure Counted (p : Pool n c) (k : Nat) : Prop where
  passes_eq : p.passes = k
  ranges_eq : p.table.record.ranges = k
  pages_eq : p.table.record.pages = k * n

/-- Events that lead from `p` to `q`: every invalidation among them is that of the window,
and it has been counted. -/
structure Flushes (p : Pool n c) (es : List Event) (q : Pool n c) : Prop where
  whole : ∀ e ∈ es, e.isInvalidation = true → e = p.flushed
  counted : ∀ k, p.Reaches → p.Counted k → k + invalidations es < passLimit →
    q.Counted (k + invalidations es)

theorem Counted.of_eq (counted : p.Counted k) (passes : q.passes = p.passes)
    (record : q.table.record = p.table.record) : q.Counted k :=
  ⟨passes.trans counted.passes_eq, (congrArg _ record).trans counted.ranges_eq,
    (congrArg _ record).trans counted.pages_eq⟩

namespace Flushes

theorem of_quiet (quiet : ∀ e ∈ es, e.isInvalidation = false) (passes : q.passes = p.passes)
    (record : q.table.record = p.table.record) : p.Flushes es q := by
  constructor
  · intro e mem is
    rw [quiet e mem] at is
    cases is
  · intro k _ counted _
    rw [invalidations_eq_zero quiet]
    exact counted.of_eq passes record

/-- A single event that is no invalidation. -/
theorem of_event {e : Event} (quiet : e.isInvalidation = false) (passes : q.passes = p.passes)
    (record : q.table.record = p.table.record) : p.Flushes [e] q := by
  refine of_quiet (fun other mem => ?_) passes record
  rw [List.mem_singleton.mp mem, quiet]

theorem append {es' : List Event} (first : p.Flushes es q) (base : q.base = p.base)
    (later : q.Flushes es' r) : p.Flushes (es ++ es') r := by
  constructor
  · intro e mem is
    rcases List.mem_append.mp mem with before | after
    · exact first.whole e before is
    · rw [later.whole e after is, flushed, flushed, base]
  · intro k reach counted few
    rw [invalidations_append, ← Nat.add_assoc] at few ⊢
    have reach' : q.Reaches := by
      rw [Reaches, base]
      exact reach
    exact later.counted _ reach' (first.counted k reach counted (by omega)) few

end Flushes

theorem isInvalidation_of_mem_clearings {e : Event} (mem : e ∈ p.clearings) :
    e.isInvalidation = false := by
  obtain ⟨va, rfl⟩ := eq_cleared_of_mem mem
  rfl

/-- The window has as many pages as slots. -/
theorem pagesOf_window (reach : p.Reaches) : FlushRecord.pagesOf p.base (p.base.page n) = n := by
  have stop : (p.base.page n).toNat = p.base.toNat + n * pageSize := Nat.mod_eq_of_lt reach
  rw [FlushRecord.pagesOf, VirtAddr.bytesSince?_eq_some_iff.mpr stop]
  simp only [Option.getD_some, pageSize]
  omega

/-- After fewer than `passLimit` passes there is room for another one in all counters, unless
it is the last of them over a window as large as a table can be. -/
theorem Counted.not_exhausted (counted : p.Counted k) (few : k < passLimit)
    (spare : n = tableEntries → k + 1 < passLimit) (reach : p.Reaches) : ¬ p.Exhausted := by
  have small : passLimit + 1 < wordCount := by decide
  have pages : (k + 1) * n < wordCount := by
    obtain fewer | whole := Nat.lt_or_eq_of_le p.fits
    · calc (k + 1) * n ≤ passLimit * (tableEntries - 1) :=
            Nat.mul_le_mul few (Nat.le_pred_of_lt fewer)
        _ < wordCount := by decide
    · calc (k + 1) * n ≤ (passLimit - 1) * tableEntries :=
            Nat.mul_le_mul (Nat.le_pred_of_lt (spare whole)) p.fits
        _ < wordCount := by decide
  rw [Nat.succ_mul] at pages
  unfold Exhausted
  rw [pagesOf_window reach, counted.passes_eq, counted.ranges_eq, counted.pages_eq]
  omega

/-- Over a window as large as a table can be there is none after `passLimit - 1` passes: the
next one would count page `2 ^ 64`. -/
theorem Counted.exhausted (counted : p.Counted k) (whole : n = tableEntries)
    (last : k + 1 = passLimit) (reach : p.Reaches) : p.Exhausted := by
  have pages : (k + 1) * n = wordCount := by
    rw [last, whole]
    decide
  rw [Nat.succ_mul] at pages
  refine Or.inl (Or.inr ?_)
  rw [pagesOf_window reach, counted.pages_eq]
  exact pages.ge

/-- A pass asks for one invalidation, after it has cleared the entries. -/
theorem invalidations_flushed (p : Pool n c) (later : List Event)
    (quiet : ∀ e ∈ later, e.isInvalidation = false) :
    (∀ e ∈ p.clearings ++ p.flushed :: later, e.isInvalidation = true → e = p.flushed) ∧
      invalidations (p.clearings ++ p.flushed :: later) = 1 := by
  constructor
  · intro e mem is
    rcases List.mem_append.mp mem with before | mem
    · rw [isInvalidation_of_mem_clearings before] at is
      cases is
    · rcases List.mem_cons.mp mem with here | after
      · exact here
      · rw [quiet e after] at is
        cases is
  · rw [invalidations_append, invalidations_eq_zero fun _ => isInvalidation_of_mem_clearings,
      ← List.singleton_append, invalidations_append, invalidations_eq_zero quiet]
    rfl

theorem Passes.flushes {o : Outcome (Pool n c) Nat} (pass : p.Passes o) :
    p.Flushes o.events o.state := by
  cases pass with
  | complete _ passes record =>
      obtain ⟨whole, once⟩ := invalidations_flushed p [.swept p.staleCount] fun e mem => by
        rw [List.mem_singleton.mp mem]
        rfl
      refine ⟨whole, fun k reach counted _ => ?_⟩
      rw [once]
      refine ⟨passes.trans (congrArg (· + 1) counted.passes_eq), ?_, ?_⟩
      · rw [record, FlushRecord.next, counted.ranges_eq]
      · rw [record, FlushRecord.next, counted.pages_eq, pagesOf_window reach, Nat.succ_mul]
  | uncounted _ exhausted =>
      obtain ⟨whole, once⟩ := invalidations_flushed p [] fun _ mem => absurd mem List.not_mem_nil
      refine ⟨whole, fun k reach counted few => ?_⟩
      rw [once] at few
      exact absurd exhausted (counted.not_exhausted (Nat.lt_of_succ_lt few) (fun _ => few) reach)
  | unreachable _ elsewhere =>
      exact .of_quiet (fun _ => isInvalidation_of_mem_clearings)
        elsewhere.passes_eq elsewhere.record_eq

theorem Passes.flushes_entered {o : Outcome (Pool n c) Nat} (pass : p.entered.Passes o) :
    p.Flushes o.events o.state :=
  ⟨pass.flushes.whole, fun k reach counted few =>
    pass.flushes.counted k reach (counted.of_eq rfl rfl) few⟩

theorem letIn_counters (p : Pool n c) (freed : Nat) :
    (p.letIn freed).passes = p.passes ∧ (p.letIn freed).table.record = p.table.record := by
  unfold letIn
  split <;> exact ⟨rfl, rfl⟩

theorem Search.flushes {found : Option (Fin n)} (search : p.Search found q es) :
    p.Flushes es q := by
  obtain ⟨nr, rfl, rfl⟩ | ⟨r, nr, pass, rfl⟩ := search.passes
  · exact .of_quiet nofun rfl rfl
  · have flushes := pass.flushes_entered
    obtain ⟨passes, record⟩ := letIn_counters r p.staleCount
    refine ⟨flushes.whole, ?_⟩
    intro k reach counted few
    exact (flushes.counted k reach counted few).of_eq passes record

theorem Attempts.flushes {o : Outcome (Pool n c) Grant} (ends : p.Attempts f o) :
    p.Flushes o.events o.state := by
  cases ends with
  | shared => exact .of_event rfl rfl rfl
  | bound _ search _ becomes =>
      refine search.flushes.append search.base_eq (.of_quiet (fun e mem => ?_)
        becomes.elsewhere.passes_eq becomes.elsewhere.record_eq)
      rcases List.mem_pair.mp mem with rfl | rfl <;> rfl
  | parked _ search => exact search.flushes.append search.base_eq (.of_event rfl rfl rfl)
  | tooWide _ search => exact search.flushes
  | aborted _ _ pass => exact pass.flushes_entered

theorem Releases.flushes {va : VirtAddr} {o : Outcome (Pool n c) (Except ReleaseError Unit)}
    (ends : p.Releases va o) : p.Flushes o.events o.state := by
  cases ends with
  | unknown => exact .of_quiet nofun rfl rfl
  | unheld => exact .of_quiet nofun rfl rfl
  | fewer => exact .of_quiet nofun rfl rfl
  | last => exact .of_event rfl rfl rfl

end Highmem.Pool
