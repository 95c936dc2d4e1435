import Highmem.Proofs.Pool.Bind

/-!
# Invalidation passes

A pass turns every stale slot free and leaves the others as they are; `Swept` says so
for the pool that it leaves, which is consistent again. A pass runs to its end unless
the first address above the window does not exist, or a counter of passes or
invalidations is exhausted. It has turned the slots free also where it does not, and
in all cases that reach an invalidation it comes after the last entry was cleared.
-/

namespace Highmem.Pool

open Paging Sync

variable {n c : Nat} {p q r : Pool n c} {nr : Fin n} {f : Frame}

theorem clearing_eq (elsewhere : SameElsewhere p q) (same : q.slot nr = p.slot nr) :
    q.clearing nr = p.clearing nr := by
  rw [clearing, clearing, same, address_eq elsewhere.base_eq]

/-- Each stale slot among some different ones is turned free, and they are counted. -/
theorem Consistent.run_reclaimAll (consistent : p.Consistent) (l : List (Fin n))
    (different : l.Nodup) :
    ∃ q, (reclaimAll l).run p =
        ⟨.ok (l.countP fun nr => (p.slot nr).isStale), q, l.flatMap p.clearing⟩ ∧
      p.Becomes (fun nr => if nr ∈ l then (p.slot nr).swept else p.slot nr) q := by
  induction l generalizing p with
  | nil => exact ⟨p, rfl, consistent, SameElsewhere.refl p, fun _ => rfl⟩
  | cons nr rest ih =>
      obtain ⟨fresh, different⟩ := List.nodup_cons.mp different
      obtain ⟨q, first, becomes⟩ := consistent.run_reclaim nr
      have kept : ∀ other ∈ rest, q.slot other = p.slot other := by
        intro other mem
        rw [becomes.slot_eq, if_neg fun same : other = nr => fresh (same ▸ mem)]
      obtain ⟨r, later, becomes'⟩ := ih becomes.consistent different
      have counts : (rest.countP fun nr => (q.slot nr).isStale) =
          rest.countP fun nr => (p.slot nr).isStale :=
        List.countP_congr fun other mem => by rw [kept other mem]
      have clears : rest.flatMap q.clearing = rest.flatMap p.clearing :=
        List.flatMap_congr fun other mem => clearing_eq becomes.elsewhere (kept other mem)
      rw [counts, clears] at later
      refine ⟨r, ?_, becomes'.consistent, becomes.elsewhere.trans becomes'.elsewhere,
        fun other => ?_⟩
      · rw [reclaimAll, Op.run_bind_ok first, Op.run_bind_ok later, List.countP_cons]
        cases (p.slot nr).isStale <;> simp
      · rw [becomes'.slot_eq]
        by_cases here : other = nr
        · rw [here, if_neg fresh, becomes.slot_eq, if_pos rfl, if_pos List.mem_cons_self]
        · by_cases mem : other ∈ rest
          · rw [if_pos mem, kept other mem, if_pos (List.mem_cons_of_mem nr mem)]
          · rw [if_neg mem, becomes.slot_eq, if_neg here,
              if_neg fun h => (List.mem_cons.mp h).elim here mem]

def staleCount (p : Pool n c) : Nat := tally fun nr => (p.slot nr).isStale

/-- The entries that a pass clears. -/
def clearings (p : Pool n c) : List Event := (List.finRange n).flatMap p.clearing

/-- What an invalidation pass makes of the bindings, whether or not it ends well. -/
structure Swept (p q : Pool n c) : Prop where
  consistent : q.Consistent
  base_eq : q.base = p.base
  cursor_eq : q.cursor = p.cursor
  tickets_eq : q.tickets = p.tickets
  slot_eq : ∀ nr, q.slot nr = (p.slot nr).swept

/-- The window of a pool ends within the reach of addresses. -/
def Reaches (p : Pool n c) : Prop := p.base.toNat + n * pageSize < wordCount

/-- The invalidation of a whole window. -/
def flushed (p : Pool n c) : Event := .invalidated p.base (p.base.page n)

/-- A counter that an invalidation pass increases is at its end. -/
def Exhausted (p : Pool n c) : Prop :=
  (wordCount ≤ p.table.record.ranges + 1 ∨
      wordCount ≤ p.table.record.pages + FlushRecord.pagesOf p.base (p.base.page n)) ∨
    wordCount ≤ p.passes + 1

/-- The ways in which an invalidation pass over a consistent pool can end. -/
inductive Passes (p : Pool n c) : Outcome (Pool n c) Nat → Prop
  | complete {q : Pool n c} (swept : Swept p q) (passes : q.passes = p.passes + 1)
      (record : q.table.record = p.table.record.next p.base (p.base.page n))
      (reach : p.Reaches) (room : ¬ p.Exhausted) :
      Passes p ⟨.ok p.staleCount, q, p.clearings ++ [p.flushed, .swept p.staleCount]⟩
  | uncounted {q : Pool n c} {fault : Fault} (swept : Swept p q) (exhausted : p.Exhausted)
      (reach : p.Reaches) :
      Passes p ⟨.error fault, q, p.clearings ++ [p.flushed]⟩
  | unreachable {q : Pool n c} (swept : Swept p q) (elsewhere : SameElsewhere p q)
      (beyond : ¬ p.Reaches) :
      Passes p ⟨.error (.overflow .add), q, p.clearings⟩

theorem Passes.swept {o : Outcome (Pool n c) Nat} (pass : p.Passes o) : Swept p o.state := by
  cases pass with
  | complete swept => exact swept
  | uncounted swept => exact swept
  | unreachable swept => exact swept

theorem Passes.result_eq {freed : Nat} {es : List Event} (pass : p.Passes ⟨.ok freed, q, es⟩) :
    freed = p.staleCount := by
  cases pass with
  | complete => rfl

/-- A pass that ends well had room in all counters. -/
theorem Passes.not_exhausted {freed : Nat} {es : List Event}
    (pass : p.Passes ⟨.ok freed, q, es⟩) : ¬ p.Exhausted := by
  cases pass with
  | complete _ _ _ _ room => exact room

/-- A pass that faults although the window ends had no room in one. -/
theorem Passes.exhausted {fault : Fault} {es : List Event}
    (pass : p.Passes ⟨.error fault, q, es⟩) (reach : p.Reaches) : p.Exhausted := by
  cases pass with
  | uncounted _ exhausted => exact exhausted
  | unreachable _ _ beyond => exact absurd reach beyond

theorem eq_cleared_of_mem {l : List (Fin n)} {e : Event} (mem : e ∈ l.flatMap p.clearing) :
    ∃ va, e = .cleared va := by
  obtain ⟨nr, -, here⟩ := List.mem_flatMap.mp mem
  unfold clearing at here
  split at here
  · exact ⟨p.address nr, List.mem_singleton.mp here⟩
  · cases here

theorem countP_isStale (p : Pool n c) :
    (List.finRange n).countP (fun nr => (p.slot nr).isStale) = p.staleCount := by
  rw [staleCount, tally, List.countP_eq_length_filter, ← List.toFinset_card_of_nodup
    ((List.nodup_finRange n).filter _)]
  congr 1
  ext nr
  simp

theorem Swept.of_sameBindings (swept : Swept p q) (same : SameBindings q r)
    (cursor : r.cursor = q.cursor) (tickets : r.tickets = q.tickets) : Swept p r :=
  ⟨swept.consistent.of_sameBindings same, same.base_eq.trans swept.base_eq,
    cursor.trans swept.cursor_eq, tickets.trans swept.tickets_eq,
    fun nr => (same.slot_eq nr).trans (swept.slot_eq nr)⟩

/-- Every end of a pass is one of the three. -/
theorem Consistent.run_sweep (consistent : p.Consistent) : p.Passes (sweep.run p) := by
  obtain ⟨q, reclaimed, becomes⟩ :=
    consistent.run_reclaimAll (List.finRange n) (List.nodup_finRange n)
  rw [countP_isStale] at reclaimed
  have swept : Swept p q :=
    ⟨becomes.consistent, becomes.elsewhere.base_eq, becomes.elsewhere.cursor_eq,
      becomes.elsewhere.tickets_eq, fun nr => by
        rw [becomes.slot_eq, if_pos (List.mem_finRange nr)]⟩
  have base := becomes.elsewhere.base_eq
  rw [sweep, Op.run_bind_ok reclaimed]
  by_cases reach : p.Reaches
  · have stop : q.pageAddress n = .ok (p.base.page n) := by
      rw [pageAddress, base]
      exact VirtAddr.add_eq_ok_iff.mpr (Nat.mod_eq_of_lt reach)
    rcases LeafTable.run_invalidate_cases q.table p.base (p.base.page n) with
      ⟨counted, flush⟩ | ⟨exhausted, cause, record, flush⟩
    · rw [becomes.elsewhere.record_eq] at counted
      by_cases room : p.passes + 1 < wordCount
      · have unexhausted : ¬ p.Exhausted := by
          unfold Exhausted
          omega
        have completed := Passes.complete
          (swept.of_sameBindings
            (r := { q with
              table := { q.table with record := q.table.record.next p.base (p.base.page n) }
              passes := p.passes + 1 })
            ⟨rfl, rfl, rfl, rfl, rfl⟩ rfl rfl)
          rfl (congrArg (FlushRecord.next · _ _) becomes.elsewhere.record_eq) reach unexhausted
        simpa [onTable, stop, base, flush, clearings, flushed, Word.add, room,
          becomes.elsewhere.passes_eq, Except.map] using completed
      · have aborted := @Passes.uncounted _ _ p _ (.overflow .add)
          (swept.of_sameBindings
            (r := { q with
              table := { q.table with record := q.table.record.next p.base (p.base.page n) } })
            ⟨rfl, rfl, rfl, rfl, rfl⟩ rfl rfl)
          (Or.inr (Nat.le_of_not_lt room)) reach
        simpa [onTable, stop, base, flush, clearings, flushed, Word.add, room,
          becomes.elsewhere.passes_eq] using aborted
    · rw [becomes.elsewhere.record_eq] at exhausted
      have aborted := @Passes.uncounted _ _ p _ (.overflow cause)
        (swept.of_sameBindings (r := { q with table := { q.table with record } })
          ⟨rfl, rfl, rfl, rfl, rfl⟩ rfl rfl) (Or.inl exhausted) reach
      simpa [onTable, stop, base, flush, clearings, flushed] using aborted
  · have stop : q.pageAddress n = .error .add := by
      rw [pageAddress, base]
      exact VirtAddr.add_eq_error_iff.mpr ⟨Nat.le_of_not_lt reach, rfl⟩
    have aborted := Passes.unreachable swept becomes.elsewhere reach
    simpa [stop, clearings] using aborted

end Highmem.Pool
