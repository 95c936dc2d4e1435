import Highmem.Pool.Inspect
import Highmem.Proofs.Pool.Consistent

/-!
# What an audit finds out

An audit looks at every slot, at the entry of the slot and at the reverse pointer of its
frame, and then compares two numbers: that of the reverse pointers and that of the bound
slots. It never looks at all reverse pointers. The numbers are enough, because the frames of
different slots have different pointers: as many pointers as bound slots leave no pointer
for any other frame.

Nothing is assumed of the slots and entries that are audited. Only the searches for reverse
pointers have to be right, and the table has to cover the window of the slots.
-/

namespace Highmem

open Paging

namespace ReverseMap

variable {c : Nat} {m : ReverseMap c} {f : Frame}

def frameAt (m : ReverseMap c) (i : Fin c) : Option Frame := (m.cell i).map Binding.frame

/-- The frames in the cells are those that have an address. -/
theorem Sound.mem_values_frameAt (sound : m.Sound) :
    f ∈ values m.frameAt ↔ ∃ va, m.get? f = some va := by
  rw [mem_values]
  constructor
  · rintro ⟨i, here⟩
    obtain ⟨b, hb, rfl⟩ := Option.map_eq_some_iff.mp here
    exact ⟨b.address, sound.get?_eq_some_iff.mpr ⟨i, hb⟩⟩
  · rintro ⟨va, bound⟩
    obtain ⟨i, hi⟩ := sound.get?_eq_some_iff.mp bound
    exact ⟨i, Option.map_eq_some_iff.mpr ⟨⟨f, va⟩, hi, rfl⟩⟩

theorem Sound.frameAt_once (sound : m.Sound) (i j : Fin c) (f : Frame)
    (here : m.frameAt i = some f) (there : m.frameAt j = some f) : i = j := by
  obtain ⟨b, hb, rfl⟩ := Option.map_eq_some_iff.mp here
  obtain ⟨b', hb', same⟩ := Option.map_eq_some_iff.mp there
  exact sound.distinct hb hb' same.symm

/-- A table counts the cells with a frame. -/
theorem Sound.size_eq_tally (sound : m.Sound) :
    m.size = tally fun i => (m.frameAt i).isSome := by
  rw [sound.size_eq]
  apply tally_congr
  intro i
  exact Option.isSome_map.symm

end ReverseMap

namespace Pool

variable {n c : Nat} {p : Pool n c} {nr : Fin n} {f : Frame}

/-- The slots, the entries and the reverse pointers of a pool agree, wherever its table and
however large its reverse map. -/
structure Coherent (p : Pool n c) : Prop where
  free_unmapped : ∀ (nr : Fin n) va, p.slotAddress nr = .ok va → p.slot nr = .free →
    p.table.lookup va = .ok none
  bound_mapped : ∀ (nr : Fin n) va f, p.slotAddress nr = .ok va →
    (p.slot nr).frame? = some f →
      p.table.lookup va = .ok (some f) ∧ p.addressOf? f = some va
  bound_once : ∀ nr other f, (p.slot nr).frame? = some f → (p.slot other).frame? = some f →
    nr = other
  pointer_iff : ∀ f, (∃ va, p.addressOf? f = some va) ↔ ∃ nr, (p.slot nr).frame? = some f

/-- What an audit asks of a single slot. -/
structure Audited (p : Pool n c) (nr : Fin n) : Prop where
  lookup_eq : p.table.lookup (p.address nr) = .ok (p.slot nr).frame?
  get?_eq : ∀ f, (p.slot nr).frame? = some f → p.reverse.get? f = some (p.address nr)

/-- The bound slots are those with a frame. -/
theorem boundCount_eq_tally (p : Pool n c) :
    p.boundCount = tally fun nr => (p.slot nr).frame?.isSome := by
  rw [boundCount_eq]
  apply tally_congr
  intro nr
  cases p.slot nr <;> rfl

theorem auditSlots_eq_ok_iff (l : List (Fin n)) :
    p.auditSlots l = .ok () ↔ ∀ nr ∈ l, p.auditSlot nr = .ok () := by
  induction l with
  | nil => exact iff_of_true rfl fun nr mem => absurd mem List.not_mem_nil
  | cons nr rest ih =>
      rw [List.forall_mem_cons, ← ih, auditSlots]
      cases p.auditSlot nr with
      | ok =>
          refine Iff.intro (fun later => ?_) fun both => ?_
          · exact ⟨rfl, later⟩
          · exact both.2
      | error fault =>
          refine iff_of_false (fun failed => ?_) fun both => ?_
          · cases failed
          · cases both.1

theorem audit_eq_ok_iff_audited (p : Pool n c) :
    p.audit = .ok () ↔ (∀ nr, p.auditSlot nr = .ok ()) ∧ p.reverse.size = p.boundCount := by
  have slots := auditSlots_eq_ok_iff (p := p) (List.finRange n)
  simp only [List.mem_finRange, true_implies] at slots
  rw [← slots, audit]
  cases p.auditSlots (List.finRange n) with
  | error fault =>
      refine iff_of_false (fun failed => ?_) fun both => ?_
      · cases failed
      · cases both.1
  | ok =>
      change (if p.reverse.size = p.boundCount then Except.ok () else .error _) = _ ↔ _
      by_cases same : p.reverse.size = p.boundCount
      · rw [if_pos same]
        exact iff_of_true rfl ⟨rfl, same⟩
      · rw [if_neg same]
        refine iff_of_false (fun failed => ?_) fun both => same both.2
        cases failed

namespace Covered

variable (covered : p.Covered)

include covered

/-- The table has an entry for every slot. -/
theorem exists_lookup (nr : Fin n) : ∃ found, p.table.lookup (p.address nr) = .ok found := by
  have here := covered.toNat_address nr
  have below := covered.below
  have above := covered.above
  have hnr := nr.isLt
  have small : (p.base.toNat + nr * pageSize - p.table.base.toNat) / pageSize < tableEntries := by
    simp only [tableSpan, tableEntries, pageSize] at *
    omega
  have place : p.table.indexOf? (p.address nr) = some ⟨_, small⟩ := by
    rw [LeafTable.indexOf?_eq_some_iff, here]
    exact ⟨Nat.le_add_right_of_le below, rfl⟩
  exact ⟨_, LeafTable.lookup_eq place⟩

/-- A slot passes exactly if its entry maps its frame, or none, and the frame's pointer is
its address. -/
theorem auditSlot_eq_ok_iff (nr : Fin n) : p.auditSlot nr = .ok () ↔ p.Audited nr := by
  obtain ⟨found, lookup⟩ := covered.exists_lookup nr
  have shape : p.Audited nr ↔ found = (p.slot nr).frame? ∧
      ∀ f, (p.slot nr).frame? = some f → p.reverse.get? f = some (p.address nr) := by
    constructor
    · rintro ⟨entry, pointer⟩
      exact ⟨Except.ok.inj (lookup.symm.trans entry), pointer⟩
    · rintro ⟨rfl, pointer⟩
      exact ⟨lookup, pointer⟩
  rw [shape, auditSlot, covered.pageAddress_eq]
  change (p.table.lookup (p.address nr) >>= _) = _ ↔ _
  rw [lookup]
  cases bound : (p.slot nr).frame? with
  | none =>
      cases found with
      | none => exact iff_of_true rfl ⟨rfl, fun f none => by cases none⟩
      | some f =>
          refine iff_of_false (fun failed => ?_) fun both => ?_
          · cases failed
          · cases both.1
  | some f =>
      change (if found = some f then _ else Except.error _) = _ ↔ _
      by_cases same : found = some f
      · rw [if_pos same]
        by_cases pointer : p.reverse.get? f = some (p.address nr)
        · rw [if_pos pointer]
          refine iff_of_true rfl ⟨same, fun g bound => ?_⟩
          cases bound
          exact pointer
        · rw [if_neg pointer]
          refine iff_of_false (fun failed => ?_) fun both => pointer (both.2 f rfl)
          cases failed
      · rw [if_neg same]
        refine iff_of_false (fun failed => ?_) fun both => same both.1
        cases failed

theorem bound_once_of_audited (audited : ∀ nr, p.Audited nr) (nr other : Fin n) (f : Frame)
    (bound : (p.slot nr).frame? = some f) (bound' : (p.slot other).frame? = some f) :
    nr = other := by
  have pointer := (audited nr).get?_eq f bound
  rw [(audited other).get?_eq f bound', Option.some.injEq] at pointer
  exact (covered.eq_of_address_eq pointer).symm

/-- Where every slot passes, the numbers agree exactly if no pointer belongs to a frame
without a slot. -/
theorem size_eq_boundCount_iff (sound : p.reverse.Sound) (audited : ∀ nr, p.Audited nr) :
    p.reverse.size = p.boundCount ↔
      ∀ f va, p.reverse.get? f = some va → ∃ nr, (p.slot nr).frame? = some f := by
  have part : (values fun nr => (p.slot nr).frame?) ⊆ values p.reverse.frameAt := by
    intro f mem
    obtain ⟨nr, bound⟩ := mem_values.mp mem
    exact sound.mem_values_frameAt.mpr ⟨_, (audited nr).get?_eq f bound⟩
  rw [sound.size_eq_tally, boundCount_eq_tally,
    tally_eq_iff_values (covered.bound_once_of_audited audited) sound.frameAt_once part]
  constructor
  · intro whole f va pointer
    exact mem_values.mp (whole (sound.mem_values_frameAt.mpr ⟨va, pointer⟩))
  · intro bound f mem
    obtain ⟨va, pointer⟩ := sound.mem_values_frameAt.mp mem
    exact mem_values.mpr (bound f va pointer)

/-- An audit passes exactly if the pool is coherent. -/
theorem audit_eq_ok_iff (sound : p.reverse.Sound) : p.audit = .ok () ↔ p.Coherent := by
  rw [audit_eq_ok_iff_audited]
  simp only [covered.auditSlot_eq_ok_iff]
  have place : ∀ {nr : Fin n} {va}, p.slotAddress nr = .ok va → va = p.address nr := by
    intro nr va known
    rw [covered.slotAddress_eq] at known
    exact (Except.ok.inj known).symm
  constructor
  · rintro ⟨audited, same⟩
    have owned := (covered.size_eq_boundCount_iff sound audited).mp same
    constructor
    case free_unmapped =>
      intro nr va known free
      rw [place known, (audited nr).lookup_eq, free]
      rfl
    case bound_mapped =>
      intro nr va f known bound
      rw [place known, (audited nr).lookup_eq, bound]
      exact ⟨rfl, (audited nr).get?_eq f bound⟩
    case bound_once => exact covered.bound_once_of_audited audited
    case pointer_iff =>
      intro f
      constructor
      · rintro ⟨va, pointer⟩
        exact owned f va pointer
      · rintro ⟨nr, bound⟩
        exact ⟨_, (audited nr).get?_eq f bound⟩
  · intro coherent
    have audited : ∀ nr, p.Audited nr := by
      intro nr
      have known := covered.slotAddress_eq nr
      constructor
      · cases bound : (p.slot nr).frame? with
        | none =>
            exact coherent.free_unmapped nr _ known (Slot.frame?_eq_none_iff.mp bound)
        | some f => exact (coherent.bound_mapped nr _ f known bound).1
      · intro f bound
        exact (coherent.bound_mapped nr _ f known bound).2
    refine ⟨audited, (covered.size_eq_boundCount_iff sound audited).mpr ?_⟩
    intro f va pointer
    exact (coherent.pointer_iff f).mp ⟨va, pointer⟩

end Covered

end Pool

end Highmem
