import Highmem.Paging.LeafTable
import Highmem.Proofs.Paging.Entry

/-!
# Runs of the leaf table's operations

What programming, clearing and invalidating do, and where they fault. A table whose
window is asked for throughout can only fault because a frame number is too wide.
An invalidation is reported before it is recorded, so it is among the events also
where a counter of the record is exhausted.
-/

namespace Highmem.Paging

namespace LeafTable

variable {t : LeafTable} {va : VirtAddr} {i : Fin tableEntries} {frame : Frame}

/-- A new table maps nothing, and nothing has been invalidated. -/
theorem empty_of_create {base : VirtAddr} (created : create base = .ok t) :
    (∀ i, t.entry i = .zero) ∧ t.record = .empty := by
  unfold create at created
  split at created
  · cases created
    exact ⟨fun i => Vector.getElem_replicate i.isLt, rfl⟩
  · cases created

theorem indexOf_eq (h : t.indexOf? va = some i) : t.indexOf va = .ok i := by
  rw [indexOf, h]

theorem indexOf_outside (h : t.indexOf? va = none) :
    t.indexOf va = .error (.outsideTable va t.base) := by
  rw [indexOf, h]

theorem lookup_eq (h : t.indexOf? va = some i) : t.lookup va = .ok (t.entry i).frame? := by
  rw [lookup, entryAt, indexOf_eq h]
  rfl

theorem lookup_outside (h : t.indexOf? va = none) :
    t.lookup va = .error (.outsideTable va t.base) := by
  rw [lookup, entryAt, indexOf_outside h]
  rfl

theorem run_commit (h : t.indexOf? va = some i) (vacant : (t.entry i).frame? = none)
    {e : Entry} (leaf : Entry.leaf frame = .ok e) :
    (commit va frame).run t = ⟨.ok (), t.write i e, [.mapped va frame]⟩ := by
  simp [commit, indexOf_eq h, Entry.isNone_iff.mpr vacant, leaf]

theorem run_commit_too_wide (h : t.indexOf? va = some i) (vacant : (t.entry i).frame? = none)
    (wide : 1 <<< 40 ≤ frame.number) :
    (commit va frame).run t = ⟨.error (.overflow (.field 40)), t, []⟩ := by
  simp [commit, indexOf_eq h, Entry.isNone_iff.mpr vacant, Entry.leaf_too_wide wide]

theorem run_commit_mapped (h : t.indexOf? va = some i) (maps : (t.entry i).frame? ≠ none) :
    (commit va frame).run t = ⟨.error (.alreadyMapped va), t, []⟩ := by
  simp [commit, indexOf_eq h, mt Entry.isNone_iff.mp maps]

theorem run_commit_outside (h : t.indexOf? va = none) :
    (commit va frame).run t = ⟨.error (.outsideTable va t.base), t, []⟩ := by
  simp [commit, indexOf_outside h]

/-- Programming an entry makes it the leaf of the frame, or leaves the table. -/
theorem run_commit_cases (t : LeafTable) (va : VirtAddr) (frame : Frame) :
    (∃ i e, t.indexOf? va = some i ∧ (t.entry i).frame? = none ∧ Entry.leaf frame = .ok e ∧
        (commit va frame).run t = ⟨.ok (), t.write i e, [.mapped va frame]⟩) ∨
      ∃ cause, (commit va frame).run t = ⟨.error cause, t, []⟩ ∧
        cause ∈ [.outsideTable va t.base, .alreadyMapped va, .overflow (.field 40)] := by
  cases h : t.indexOf? va with
  | none => exact Or.inr ⟨_, run_commit_outside h, by simp⟩
  | some i =>
      by_cases vacant : (t.entry i).frame? = none
      · by_cases wide : 1 <<< 40 ≤ frame.number
        · exact Or.inr ⟨_, run_commit_too_wide h vacant wide, by simp⟩
        · obtain ⟨e, leaf⟩ := Entry.exists_leaf (Nat.lt_of_not_le wide)
          exact Or.inl ⟨i, e, rfl, vacant, leaf, run_commit h vacant leaf⟩
      · exact Or.inr ⟨_, run_commit_mapped h vacant, by simp⟩

theorem run_clear (h : t.indexOf? va = some i) :
    (clear va).run t = ⟨.ok (t.entry i).frame?, t.write i .zero, [.cleared va]⟩ := by
  simp [clear, indexOf_eq h, Except.map]

theorem run_clear_outside (h : t.indexOf? va = none) :
    (clear va).run t = ⟨.error (.outsideTable va t.base), t, []⟩ := by
  simp [clear, indexOf_outside h]

end LeafTable

namespace FlushRecord

variable {r : FlushRecord} {start stop : VirtAddr}

def next (r : FlushRecord) (start stop : VirtAddr) : FlushRecord :=
  ⟨r.ranges + 1, r.pages + pagesOf start stop, some (start, stop)⟩

theorem run_enter (ranges : r.ranges + 1 < wordCount)
    (pages : r.pages + pagesOf start stop < wordCount) :
    (enter start stop).run r = ⟨.ok (), r.next start stop, []⟩ := by
  simp [enter, Word.add, ranges, pages, next]

/-- Entering a range reports nothing, and faults exactly where a counter is exhausted. -/
theorem run_enter_cases (r : FlushRecord) (start stop : VirtAddr) :
    (r.ranges + 1 < wordCount ∧ r.pages + pagesOf start stop < wordCount) ∧
        (enter start stop).run r = ⟨.ok (), r.next start stop, []⟩ ∨
      (wordCount ≤ r.ranges + 1 ∨ wordCount ≤ r.pages + pagesOf start stop) ∧
        ∃ cause r', (enter start stop).run r = ⟨.error (.overflow cause), r', []⟩ := by
  by_cases ranges : r.ranges + 1 < wordCount
  · by_cases pages : r.pages + pagesOf start stop < wordCount
    · exact Or.inl ⟨⟨ranges, pages⟩, run_enter ranges pages⟩
    · refine Or.inr ⟨Or.inr (Nat.le_of_not_lt pages), .add, ?_⟩
      refine ⟨{ r with ranges := r.ranges + 1 }, ?_⟩
      simp [enter, Word.add, ranges, pages]
  · refine Or.inr ⟨Or.inl (Nat.le_of_not_lt ranges), .add, r, ?_⟩
    simp [enter, Word.add, ranges]

end FlushRecord

namespace LeafTable

variable {t : LeafTable} {start stop : VirtAddr}

/-- An invalidation is reported, and entered in the record. -/
theorem run_invalidate (t : LeafTable) (start stop : VirtAddr) :
    (invalidate start stop).run t =
      ⟨((FlushRecord.enter start stop).run t.record).result,
        { t with record := ((FlushRecord.enter start stop).run t.record).state },
        .invalidated start stop :: ((FlushRecord.enter start stop).run t.record).events⟩ := by
  simp [invalidate]

/-- An invalidation touches only the record. -/
theorem run_invalidate_cases (t : LeafTable) (start stop : VirtAddr) :
    (t.record.ranges + 1 < wordCount ∧
          t.record.pages + FlushRecord.pagesOf start stop < wordCount) ∧
        (invalidate start stop).run t =
          ⟨.ok (), { t with record := t.record.next start stop }, [.invalidated start stop]⟩ ∨
      (wordCount ≤ t.record.ranges + 1 ∨
          wordCount ≤ t.record.pages + FlushRecord.pagesOf start stop) ∧
        ∃ cause r, (invalidate start stop).run t =
          ⟨.error (.overflow cause), { t with record := r }, [.invalidated start stop]⟩ := by
  rw [run_invalidate]
  rcases FlushRecord.run_enter_cases t.record start stop with
    ⟨room, run⟩ | ⟨exhausted, cause, r, run⟩
  · exact Or.inl ⟨room, by rw [run]⟩
  · exact Or.inr ⟨exhausted, cause, r, by rw [run]⟩

end LeafTable

end Highmem.Paging
