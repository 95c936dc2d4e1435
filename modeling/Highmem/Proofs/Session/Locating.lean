import Highmem.Proofs.Pool.Verdict
import Highmem.Proofs.Session.Faults

/-!
# Where the slots lie

The place of a slot is calculated in several ways: from the slot to its address, from an
address to the slot that begins there, from an address to the entry of the page table, from
the end of the window, and twice more for the kernel's own window, without a pool. Each has
its own way to fail. Here they are all brought to the same numbers, so that they agree on
every address.
-/

namespace Highmem

open Paging

namespace Layout

variable {nr : Nat} {va : VirtAddr}

/-- Both steps of the calculation are exact, or one of them overflows. -/
theorem addressOfSlot_eq_ok_iff :
    addressOfSlot nr = .ok va ↔ va.toNat = windowBase.toNat + nr * pageSize := by
  unfold addressOfSlot Word.mul
  split
  case isTrue => exact VirtAddr.add_eq_ok_iff
  case isFalse beyond =>
    have limit := va.isLt
    refine iff_of_false (fun held => by cases held) fun place => beyond ?_
    omega

theorem slotOfAddress_eq_ok_iff :
    slotOfAddress va = .ok nr ↔
      windowBase.toNat ≤ va.toNat ∧ nr = (va.toNat - windowBase.toNat) / pageSize := by
  unfold slotOfAddress VirtAddr.sub Word.sub
  split
  case isTrue above =>
    exact ⟨fun held => ⟨above, (Except.ok.inj held).symm⟩, fun ⟨_, number⟩ => number ▸ rfl⟩
  case isFalse below => exact iff_of_false (fun held => by cases held) fun ⟨above, _⟩ => below above

/-- Slots have addresses up to the end of the address space, also above the window, and each
of them is found again from its address. -/
theorem slotOfAddress_addressOfSlot (fits : windowBase.toNat + nr * pageSize < 2 ^ 64) :
    ∃ va, addressOfSlot nr = .ok va ∧ va.toNat = windowBase.toNat + nr * pageSize ∧
      slotOfAddress va = .ok nr := by
  refine ⟨⟨_, fits⟩, addressOfSlot_eq_ok_iff.mpr rfl, rfl, slotOfAddress_eq_ok_iff.mpr ?_⟩
  dsimp only
  rw [Nat.add_sub_cancel_left, Nat.mul_div_cancel nr (by decide)]
  exact ⟨Nat.le_add_right _ _, rfl⟩

theorem addressOfSlot_eq_error (beyond : 2 ^ 64 ≤ windowBase.toNat + nr * pageSize) :
    ∃ cause, addressOfSlot nr = .error cause := by
  cases calculated : addressOfSlot nr with
  | error cause => exact ⟨cause, rfl⟩
  | ok va =>
      have place := addressOfSlot_eq_ok_iff.mp calculated
      have limit := va.isLt
      unfold wordCount at limit
      omega

end Layout

namespace Pool

variable {n c : Nat} {p : Pool n c} {nr : Nat} {va : VirtAddr}

theorem slotAddress_eq_ok_iff :
    p.slotAddress nr = .ok va ↔ nr < n ∧ va.toNat = p.base.toNat + nr * pageSize := by
  have place : p.pageAddress nr = .ok va ↔ _ := VirtAddr.add_eq_ok_iff
  rw [← place]
  unfold slotAddress
  split
  case isTrue inside =>
    rw [and_iff_right inside]
    cases p.pageAddress nr with
    | ok there => exact ⟨fun held => by cases held; rfl, fun held => by cases held; rfl⟩
    | error cause => exact iff_of_false (fun held => by cases held) fun held => by cases held
  case isFalse outside =>
    exact iff_of_false (fun held => by cases held) fun held => outside held.1

theorem map_slotOf_eq_ok_iff :
    (p.slotOf va).map Fin.val = .ok nr ↔ nr < n ∧ p.slotAddress nr = .ok va := by
  rw [slotAddress_eq_ok_iff]
  constructor
  · intro held
    cases place : p.slotOf va with
    | error cause => rw [place] at held; cases held
    | ok slot =>
        rw [place] at held
        cases held
        exact ⟨slot.isLt, slot.isLt, slotOf_eq_ok_iff.mp place⟩
  · rintro ⟨inside, -, starts⟩
    rw [slotOf_eq_ok_iff.mpr (show p.Starts ⟨nr, inside⟩ va from starts)]
    rfl

/-- The page of an address in the window begins where a slot does. -/
theorem Spans.exists_starts (spans : p.Spans va) :
    ∃ nr : Fin n, nr.val = (va.toNat - p.base.toNat) / pageSize ∧ p.Starts nr va.pageStart := by
  obtain ⟨above, below⟩ := spans
  have inside : (va.toNat - p.base.toNat) / pageSize < n := by
    rw [Nat.div_lt_iff_lt_mul (by decide)]
    omega
  refine ⟨⟨_, inside⟩, rfl, ?_⟩
  have aligned := p.aligned
  change va.toNat - va.toNat % pageSize = _
  unfold pageSize at *
  dsimp only
  omega

theorem Reaches.contains_eq_ok_iff (reach : p.Reaches) {inside : Bool} :
    p.contains va = .ok inside ↔ (inside = true ↔ p.Spans va) := by
  have spans : p.Spans va ↔ p.base ≤ va ∧ va < p.base.page n := by
    change _ ↔ p.base.toNat ≤ va.toNat ∧ va.toNat < (p.base.page n).toNat
    rw [reach.toNat_stop, Spans]
  rw [reach.contains_eq, Except.ok.injEq, spans]
  cases inside <;> simp

theorem Consistent.indexOf?_eq_some_iff (consistent : p.Consistent) {i : Fin tableEntries} :
    p.table.indexOf? va = some i ↔
      p.base.toNat ≤ va.toNat ∧ (va.toNat - p.base.toNat) / pageSize = i := by
  rw [LeafTable.indexOf?_eq_some_iff, consistent.base_eq]

/-- The entries below the number of slots are those of the window. -/
theorem Consistent.exists_entry_iff (consistent : p.Consistent) :
    (∃ i, p.table.indexOf? va = some i ∧ i.val < n) ↔ p.Spans va := by
  constructor
  · rintro ⟨i, entry, inside⟩
    obtain ⟨above, number⟩ := consistent.indexOf?_eq_some_iff.mp entry
    rw [← number, Nat.div_lt_iff_lt_mul (by decide)] at inside
    exact ⟨above, by omega⟩
  · intro spans
    obtain ⟨nr, number, -⟩ := spans.exists_starts
    refine ⟨p.index nr, consistent.indexOf?_eq_some_iff.mpr ⟨spans.1, number.symm⟩, nr.isLt⟩

/-- The slots, the window and the page table agree about an address. -/
structure Locates (p : Pool n c) (va : VirtAddr) : Prop where
  answered : ∃ inside, p.contains va = .ok inside
  slot_iff : ∀ nr, (p.slotOf va).map Fin.val = .ok nr ↔ nr < n ∧ p.slotAddress nr = .ok va
  outside_iff : ∀ x, p.slotOf va = .error (.outsideWindow x) ↔ x = va ∧ p.contains va = .ok false
  unaligned_iff : ∀ x, p.slotOf va = .error (.unaligned x) ↔
    x = va ∧ p.contains va = .ok true ∧ va.toNat % pageSize ≠ 0
  entry_iff : (∃ i, p.table.indexOf? va = some i ∧ i.val < n) ↔ p.contains va = .ok true
  slot_of_entry : ∀ i, p.table.indexOf? va = some i → i.val < n →
    (p.slotOf va.pageStart).map Fin.val = .ok i.val

theorem Consistent.locates (consistent : p.Consistent) (reach : p.Reaches) (va : VirtAddr) :
    p.Locates va := by
  have outside : p.contains va = .ok false ↔ ¬ p.Spans va := by simp [reach.contains_eq_ok_iff]
  have inside : p.contains va = .ok true ↔ p.Spans va := by simp [reach.contains_eq_ok_iff]
  refine ⟨⟨_, reach.contains_eq va⟩, fun nr => map_slotOf_eq_ok_iff, fun x => ?_, fun x => ?_,
    ?_, ?_⟩
  · rw [outside]
    rcases slotOf_cases p va with ⟨beyond, place⟩ | ⟨spans, -, place⟩ | ⟨nr, starts, place⟩
    · simp [place, beyond, eq_comm]
    · simp [place, spans]
    · simp [place, starts.spans]
  · rw [inside]
    rcases slotOf_cases p va with ⟨beyond, place⟩ | ⟨spans, offset, place⟩ | ⟨nr, starts, place⟩
    · simp [place, beyond]
    · simp [place, spans, offset, eq_comm]
    · simp [place, starts.offset_eq]
  · rw [inside, consistent.exists_entry_iff]
  · intro i entry low
    obtain ⟨-, number⟩ := consistent.indexOf?_eq_some_iff.mp entry
    obtain ⟨nr, same, starts⟩ := (consistent.exists_entry_iff.mp ⟨i, entry, low⟩).exists_starts
    rw [Pool.slotOf_eq_ok_iff.mpr starts, ← number, ← same]
    rfl

/-- A pool in the kernel's own window agrees with the calculations that need no pool. -/
structure Standard (p : Pool n c) : Prop where
  address_eq : ∀ nr, nr < n →
    ∃ va, p.slotAddress nr = .ok va ∧ Layout.addressOfSlot nr = .ok va
  number_eq : ∀ va, p.contains va = .ok true →
    ∃ nr : Fin n, Layout.slotOfAddress va = .ok nr.val ∧ p.slotOf va.pageStart = .ok nr

theorem Consistent.standard (consistent : p.Consistent) (reach : p.Reaches)
    (place : p.base = Layout.windowBase) : p.Standard := by
  constructor
  · intro nr inside
    have here := consistent.toNat_address ⟨nr, inside⟩
    refine ⟨_, slotAddress_eq_ok_iff.mpr ⟨inside, here⟩, ?_⟩
    rw [Layout.addressOfSlot_eq_ok_iff, here, place]
  · intro va inside
    have spans : p.Spans va := by simpa using reach.contains_eq_ok_iff.mp inside
    obtain ⟨nr, number, starts⟩ := spans.exists_starts
    refine ⟨nr, Layout.slotOfAddress_eq_ok_iff.mpr ?_, Pool.slotOf_eq_ok_iff.mpr starts⟩
    rw [← place]
    exact ⟨spans.1, number⟩

end Pool

namespace Session

open Pool

/-- All ways to tell slots and addresses from each other agree, wherever a table can begin
and whatever has been done to the pool. The numbers that the kernel's own window gives to
addresses go beyond its slots: they reach to the end of the address space, and there is no
address for any number above that. -/
theorem located_afterAll {n : Nat} (size : Pool.Size n) {base : VirtAddr}
    (aligned : base.toNat % tableSpan = 0) (reach : base.toNat + n * pageSize < 2 ^ 64) :
    (∃ pool, Pool.create size base = .ok pool ∧ ∀ (direct : DirectMap) (moves : List Move),
      let p := ((start direct pool).afterAll moves).pool
      p.base = base ∧ (∀ va, p.Locates va) ∧ (base = Layout.windowBase → p.Standard)) ∧
    ∀ nr,
      (Layout.windowBase.toNat + nr * pageSize < 2 ^ 64 →
        ∃ va, Layout.addressOfSlot nr = .ok va ∧
          va.toNat = Layout.windowBase.toNat + nr * pageSize ∧
          Layout.slotOfAddress va = .ok nr) ∧
      (2 ^ 64 ≤ Layout.windowBase.toNat + nr * pageSize →
        ∃ cause, Layout.addressOfSlot nr = .error cause) := by
  obtain ⟨pool, created, -, -, place⟩ := exists_in_place size aligned reach
  refine ⟨⟨pool, created, fun direct moves => ?_⟩, fun nr => ?_⟩
  · obtain ⟨same, consistent, reaches⟩ := place direct moves
    exact ⟨same, consistent.locates reaches, fun standard =>
      consistent.standard reaches (same.trans standard)⟩
  · exact ⟨Layout.slotOfAddress_addressOfSlot, Layout.addressOfSlot_eq_error⟩

theorem located_afterAll_standard :
    let base := Layout.windowBase
    base.toNat % tableSpan = 0 ∧ base.toNat + 2 * pageSize < 2 ^ 64 ∧
      ∃ pool : Pool 2 2, Pool.create ⟨by decide, by decide⟩ base = .ok pool ∧
        (∃ va, pool.slotAddress 1 = .ok va ∧ Layout.addressOfSlot 1 = .ok va) ∧
        pool.contains Layout.windowEnd = .ok false ∧
        pool.slotOf Layout.windowEnd = .error (.outsideWindow Layout.windowEnd) := by
  intro base
  have aligned : base.toNat % tableSpan = 0 := by decide
  have reach : base.toNat + 2 * pageSize < 2 ^ 64 := by decide
  obtain ⟨⟨pool, created, located⟩, -⟩ :=
    located_afterAll (n := 2) ⟨by decide, by decide⟩ aligned reach
  obtain ⟨place, locates, standard⟩ := located .standard []
  have place : pool.base = base := place
  have beyond : pool.slotOf Layout.windowEnd = .error (.outsideWindow Layout.windowEnd) :=
    Pool.slotOf_of_not_spans (by rw [Pool.Spans, place]; decide)
  exact ⟨aligned, reach, pool, created, (standard rfl).address_eq 1 (by decide),
    (((locates Layout.windowEnd).outside_iff _).mp beyond).2, beyond⟩

end Session

end Highmem
