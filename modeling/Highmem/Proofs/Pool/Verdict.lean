import Highmem.Pool.Release

/-!
# The verdict on an address that is given back

Every address is in one of four classes: beyond the window, within a page of it, the first
of the page of a slot that nobody holds, or the first of the page of a held slot. The
first three are refused and change nothing. In the fourth class the slot loses one holder,
and what else happens depends on whether it was the last one.

Nothing is assumed here about the page table or the reverse pointers, which a release does
not look at.
-/

namespace Highmem

open Paging Sync

namespace Slot

variable {s t : Slot}

/-- A holder leaves a held slot to the others, or stale. -/
theorem release?_cases (released : s.release? = some t) :
    ∃ f k, s = held f k ∧
      ((∃ fewer : Holders, k.toNat = fewer.toNat + 1 ∧ t = held f fewer) ∨
        k.toNat = 1 ∧ t = stale f) := by
  cases s with
  | free => cases released
  | stale f => cases released
  | held f k =>
      refine ⟨f, k, rfl, ?_⟩
      cases less : k.less? with
      | some fewer =>
          simp only [release?, less, Option.some.injEq] at released
          exact Or.inl ⟨fewer, Holders.less?_eq_some_iff.mp less, released.symm⟩
      | none =>
          simp only [release?, less, Option.some.injEq] at released
          exact Or.inr ⟨Holders.less?_eq_none_iff.mp less, released.symm⟩

theorem holders_of_release? (released : s.release? = some t) : t.holders + 1 = s.holders := by
  obtain ⟨f, k, rfl, ⟨fewer, count, rfl⟩ | ⟨count, rfl⟩⟩ := release?_cases released
  · exact count.symm
  · exact count.symm

/-- The holder that leaves a slot stale is the last one. -/
theorem isStale_of_release? (released : s.release? = some t) :
    t.isStale = true ↔ s.holders = 1 := by
  obtain ⟨f, k, rfl, ⟨fewer, count, rfl⟩ | ⟨count, rfl⟩⟩ := release?_cases released
  · have remains := fewer.inRange.1
    change false = true ↔ k.toNat = 1
    simp only [Bool.false_eq_true, false_iff]
    omega
  · exact iff_of_true rfl count

end Slot

namespace Pool

variable {n c : Nat} {p q : Pool n c} {nr : Fin n} {va : VirtAddr}

/-- An address among those of the slots. -/
def Spans (p : Pool n c) (va : VirtAddr) : Prop :=
  p.base.toNat ≤ va.toNat ∧ va.toNat < p.base.toNat + n * pageSize

/-- The first address of the page of a slot. -/
def Starts (p : Pool n c) (nr : Fin n) (va : VirtAddr) : Prop :=
  va.toNat = p.base.toNat + nr * pageSize

/-- The pools differ in a holder of a slot and, if it was the last one, in the ticket of the
caller that is let in. -/
structure Loses (p q : Pool n c) (nr : Fin n) : Prop where
  holders_eq : (q.slot nr).holders + 1 = (p.slot nr).holders
  frame?_eq : (q.slot nr).frame? = (p.slot nr).frame?
  stale_iff : (q.slot nr).isStale = true ↔ (p.slot nr).holders = 1
  others : ∀ other, other ≠ nr → q.slot other = p.slot other
  base_eq : q.base = p.base
  cursor_eq : q.cursor = p.cursor
  table_eq : q.table = p.table
  reverse_eq : q.reverse = p.reverse
  passes_eq : q.passes = p.passes
  tickets_eq : q.tickets = if (q.slot nr).isStale then p.tickets.notifyOne.2 else p.tickets

/-- How giving back an address ends. -/
inductive Verdict (p : Pool n c) (va : VirtAddr) :
    Outcome (Pool n c) (Except ReleaseError Unit) → Prop
  | outside (beyond : ¬ p.Spans va) : Verdict p va ⟨.ok (.error (.outsideWindow va)), p, []⟩
  | unaligned (inside : p.Spans va) (offset : va.toNat % pageSize ≠ 0) :
      Verdict p va ⟨.ok (.error (.unaligned va)), p, []⟩
  | notHeld {nr : Fin n} (starts : p.Starts nr va) (idle : (p.slot nr).isHeld = false) :
      Verdict p va ⟨.ok (.error (.notHeld va (p.slot nr))), p, []⟩
  | released {nr : Fin n} {q : Pool n c} {es : List Event} (starts : p.Starts nr va)
      (held : (p.slot nr).isHeld = true) (loses : p.Loses q nr)
      (reports : es = if (q.slot nr).isStale then [.staled nr va] else []) :
      Verdict p va ⟨.ok (.ok ()), q, es⟩

theorem Starts.spans (starts : p.Starts nr va) : p.Spans va := by
  have bytes := Nat.mul_lt_mul_of_pos_right nr.isLt (show 0 < pageSize by decide)
  unfold Starts at starts
  unfold Spans
  omega

theorem Starts.offset_eq (starts : p.Starts nr va) : va.toNat % pageSize = 0 := by
  have aligned := p.aligned
  unfold Starts at starts
  rw [starts, Nat.add_mul_mod_self_right, aligned]

theorem Starts.unique {other : Fin n} (starts : p.Starts nr va) (starts' : p.Starts other va) :
    nr = other := by
  unfold Starts pageSize at *
  exact Fin.ext (by omega)

/-- An address is outside, or inside a page, or the first of one. -/
theorem slotOf_cases (p : Pool n c) (va : VirtAddr) :
    (¬ p.Spans va ∧ p.slotOf va = .error (.outsideWindow va)) ∨
      (p.Spans va ∧ va.toNat % pageSize ≠ 0 ∧ p.slotOf va = .error (.unaligned va)) ∨
      ∃ nr, p.Starts nr va ∧ p.slotOf va = .ok nr := by
  have aligned := p.aligned
  unfold slotOf
  cases pages : va.pagesSince? p.base with
  | none =>
      refine Or.inl ⟨fun inside => ?_, rfl⟩
      have := VirtAddr.pagesSince?_eq_some_iff.mpr ⟨inside.1, rfl⟩
      rw [pages] at this
      cases this
  | some k =>
      obtain ⟨above, number⟩ := VirtAddr.pagesSince?_eq_some_iff.mp pages
      by_cases inside : k < n
      · by_cases start : va.isPageAligned = true
        · refine Or.inr (Or.inr ⟨⟨k, inside⟩, ?_, by simp [inside, start]⟩)
          have offset := VirtAddr.isPageAligned_iff.mp start
          unfold Starts
          simp only [pageSize] at *
          omega
        · refine Or.inr (Or.inl ⟨⟨above, ?_⟩, ?_, by simp [inside, start]⟩)
          · rw [number, Nat.div_lt_iff_lt_mul (by decide)] at inside
            omega
          · exact fun offset => start (VirtAddr.isPageAligned_iff.mpr offset)
      · refine Or.inl ⟨fun spans => inside ?_, by simp [inside]⟩
        rw [number, Nat.div_lt_iff_lt_mul (by decide)]
        have := spans.2
        omega

/-- An address belongs to the slot whose page begins there. -/
theorem slotOf_eq_ok_iff : p.slotOf va = .ok nr ↔ p.Starts nr va := by
  rcases slotOf_cases p va with ⟨beyond, place⟩ | ⟨-, offset, place⟩ | ⟨other, starts, place⟩
  · rw [place]
    exact iff_of_false (fun held => by cases held) fun starts => beyond starts.spans
  · rw [place]
    exact iff_of_false (fun held => by cases held) fun starts => offset starts.offset_eq
  · rw [place, Except.ok.injEq]
    exact ⟨fun same => same ▸ starts, starts.unique⟩

theorem slotOf_of_not_spans (beyond : ¬ p.Spans va) :
    p.slotOf va = .error (.outsideWindow va) := by
  rcases slotOf_cases p va with ⟨-, place⟩ | ⟨spans, -⟩ | ⟨nr, starts, -⟩
  · exact place
  · exact absurd spans beyond
  · exact absurd starts.spans beyond

/-- The pool after a holder of a slot left it in a given state. -/
def afterLoss (p : Pool n c) (nr : Fin n) (s : Slot) : Pool n c :=
  { p.withSlot nr s with tickets := if s.isStale then p.tickets.notifyOne.2 else p.tickets }

theorem loses_afterLoss {s : Slot} (released : (p.slot nr).release? = some s) :
    p.Loses (p.afterLoss nr s) nr := by
  have here : (p.afterLoss nr s).slot nr = s := slot_withSlot_self p nr s
  constructor
  case others => exact fun other apart => slot_withSlot_of_ne p s apart.symm
  case tickets_eq => rw [here]; rfl
  case holders_eq => rw [here, Slot.holders_of_release? released]
  case frame?_eq => rw [here, Slot.frame?_of_release? released]
  case stale_iff => rw [here, Slot.isStale_of_release? released]
  all_goals rfl

theorem run_tryRelease_some {s : Slot} (place : p.slotOf va = .ok nr)
    (released : (p.slot nr).release? = some s) :
    (tryRelease va).run p =
      ⟨.ok (.ok ()), p.afterLoss nr s, if s.isStale then [.staled nr va] else []⟩ := by
  cases stale : s.isStale <;>
    simp [tryRelease, place, released, putSlot, stale, notifyOne, afterLoss, withSlot, Except.map]

/-- Every end of giving back an address is one of the four. -/
theorem verdict_tryRelease (p : Pool n c) (va : VirtAddr) :
    p.Verdict va ((tryRelease va).run p) := by
  rcases slotOf_cases p va with ⟨beyond, place⟩ | ⟨inside, offset, place⟩ | ⟨nr, starts, place⟩
  · simpa [tryRelease, place] using Verdict.outside beyond
  · simpa [tryRelease, place] using Verdict.unaligned inside offset
  · cases released : (p.slot nr).release? with
    | none =>
        have idle := Slot.release?_eq_none_iff.mp released
        simpa [tryRelease, place, released] using Verdict.notHeld starts idle
    | some s =>
        have held : (p.slot nr).isHeld = true := by
          refine Bool.of_not_eq_false fun idle => ?_
          rw [Slot.release?_eq_none_iff.mpr idle] at released
          cases released
        rw [run_tryRelease_some place released]
        refine Verdict.released starts held (loses_afterLoss released) ?_
        rw [afterLoss]
        change _ = if ((p.withSlot nr s).slot nr).isStale then _ else _
        rw [slot_withSlot_self]

/-- Giving back an address ends with an answer. -/
theorem exists_verdict (p : Pool n c) (va : VirtAddr) :
    ∃ ending q es, (tryRelease va).run p = ⟨.ok ending, q, es⟩ ∧
      p.Verdict va ⟨.ok ending, q, es⟩ := by
  have verdict := verdict_tryRelease p va
  cases ran : (tryRelease va).run p with
  | mk result q es =>
    rw [ran] at verdict
    cases result with
    | error fault => cases verdict
    | ok ending => exact ⟨ending, q, es, rfl, verdict⟩

end Pool

end Highmem
