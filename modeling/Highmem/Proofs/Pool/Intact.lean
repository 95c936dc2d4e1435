import Highmem.Pool.Inspect
import Highmem.Proofs.Paging.LeafTable
import Highmem.Proofs.ReverseMap.Erase

/-!
# Intact pools

The slots, the page table and the reverse pointers of a pool say the same thing three
times. In an intact pool the slots determine the other two: a bound slot has an entry, the
entry of a slot maps the frame that the slot is bound to, and the reverse pointers are the
bindings of the slots read backwards.

Nothing else is asked of the pool. Its table may cover all of its slots, some of them or
none, the addresses of its last slots may be out of reach, and its reverse map may have any
capacity, so that it can be asked for more than it has room for.

An operation that changes a slot changes all three, in separate statements. The lemmas
below give the state after the last of them: `Intact.withSlot` where the binding stays,
`Intact.bind` where a free slot is bound, and `Intact.reclaim` where a slot is turned free.
-/

namespace Highmem

open Paging

/-- The address `nr` pages up, if the address space reaches so far. -/
def VirtAddr.page (base : VirtAddr) (nr : Nat) : VirtAddr :=
  ⟨(base.toNat + nr * pageSize) % wordCount, Nat.mod_lt _ (by decide)⟩

namespace Pool

variable {n c : Nat} {p q : Pool n c} {nr other : Fin n} {i j : Fin tableEntries} {f : Frame}
variable {va : VirtAddr}

def address (p : Pool n c) (nr : Fin n) : VirtAddr := p.base.page nr

theorem address_eq (base : q.base = p.base) (nr : Fin n) : q.address nr = p.address nr := by
  rw [address, address, base]

/-- The page of a slot is that of a table entry. -/
def Placed (p : Pool n c) (nr : Fin n) (i : Fin tableEntries) : Prop :=
  p.table.base.toNat + i * pageSize = p.base.toNat + nr * pageSize

namespace Placed

theorem unique (placed : p.Placed nr i) (placed' : p.Placed nr j) : i = j := by
  unfold Placed pageSize at *
  exact Fin.ext (by omega)

theorem slot_unique (placed : p.Placed nr i) (placed' : p.Placed other i) : nr = other := by
  unfold Placed pageSize at *
  exact Fin.ext (by omega)

theorem toNat_address (placed : p.Placed nr i) :
    (p.address nr).toNat = p.base.toNat + nr * pageSize := by
  have aligned := p.table.aligned
  have inside := p.table.base.isLt
  have hi := i.isLt
  unfold Placed at placed
  change (p.base.toNat + nr.val * pageSize) % wordCount = _
  simp only [tableSpan, tableEntries, pageSize, wordCount] at *
  exact Nat.mod_eq_of_lt (by omega)

theorem pageAddress_eq (placed : p.Placed nr i) : p.pageAddress nr = .ok (p.address nr) :=
  VirtAddr.add_eq_ok_iff.mpr placed.toNat_address

theorem indexOf?_eq (placed : p.Placed nr i) : p.table.indexOf? (p.address nr) = some i := by
  rw [LeafTable.indexOf?_eq_some_iff, placed.toNat_address]
  unfold Placed pageSize at *
  omega

theorem slotAt_eq (placed : p.Placed nr i) : p.slotAt (p.address nr) = .ok nr := by
  have bytes : (p.address nr).sub p.base = .ok (nr * pageSize) := by
    rw [VirtAddr.sub, Word.sub_eq_ok_iff, placed.toNat_address]
    omega
  have number : nr.val * pageSize / pageSize = nr := Nat.mul_div_cancel _ (by decide)
  unfold slotAt
  rw [bytes]
  change (if h : nr.val * pageSize / pageSize < n then Except.ok (Fin.mk _ h) else _) = _
  rw [dif_pos (Nat.lt_of_le_of_lt (Nat.le_of_eq number) nr.isLt)]
  exact congrArg Except.ok (Fin.ext number)

theorem eq_of_address_eq (placed : p.Placed nr i) (placed' : p.Placed other j)
    (same : p.address nr = p.address other) : nr = other := by
  have values := congrArg VirtAddr.toNat same
  rw [placed.toNat_address, placed'.toNat_address] at values
  simp only [pageSize] at values
  exact Fin.ext (by omega)

end Placed

/-- A slot whose address the table covers is placed at its entry. -/
theorem placed_of_indexOf? (address : p.pageAddress nr = .ok va)
    (position : p.table.indexOf? va = some i) : p.Placed nr i ∧ va = p.address nr := by
  have reach := VirtAddr.add_eq_ok_iff.mp address
  obtain ⟨below, number⟩ := LeafTable.indexOf?_eq_some_iff.mp position
  have placed : p.Placed nr i := by
    have aligned := p.aligned
    have tableAligned := p.table.page_aligned
    unfold Placed
    simp only [pageSize] at *
    omega
  exact ⟨placed, VirtAddr.ext (reach.trans placed.toNat_address.symm)⟩

/-- The two pools lie at the same place and have the same bindings. -/
structure SameBindings (p q : Pool n c) : Prop where
  base_eq : q.base = p.base
  slots_eq : q.slots = p.slots
  table_base_eq : q.table.base = p.table.base
  entries_eq : q.table.entries = p.table.entries
  reverse_eq : q.reverse = p.reverse

theorem SameBindings.slot_eq (h : SameBindings p q) (nr : Fin n) : q.slot nr = p.slot nr := by
  rw [slot, slot, h.slots_eq]

theorem boundCount_eq (p : Pool n c) : p.boundCount = tally fun nr => !(p.slot nr).isFree :=
  countP_toList _ _

theorem slot_withSlot (p : Pool n c) (nr other : Fin n) (s : Slot) :
    (p.withSlot nr s).slot other = if other = nr then s else p.slot other := by
  by_cases same : other = nr
  · rw [if_pos same, same, slot_withSlot_self]
  · rw [if_neg same, slot_withSlot_of_ne p s (Ne.symm same)]

/-- A slot that changes without losing its binding leaves all bindings as they were. -/
theorem frame?_withSlot {s : Slot} (same : s.frame? = (p.slot nr).frame?) (other : Fin n) :
    ((p.withSlot nr s).slot other).frame? = (p.slot other).frame? := by
  rw [slot_withSlot]
  split
  · rename_i here
    rw [here, same]
  · rfl

/-- The tables agree about every slot that has an entry, and bound slots have one. -/
structure Intact (p : Pool n c) : Prop where
  sound : p.reverse.Sound
  entry_eq : ∀ nr i, p.Placed nr i → (p.table.entry i).frame? = (p.slot nr).frame?
  placed : ∀ nr f, (p.slot nr).frame? = some f → ∃ i, p.Placed nr i
  get?_iff : ∀ f va, p.reverse.get? f = some va ↔
    ∃ nr, (p.slot nr).frame? = some f ∧ p.address nr = va
  size_eq : p.reverse.size = p.boundCount

def replaced (p : Pool n c) (nr : Fin n) (s : Slot) (i : Fin tableEntries) (e : Entry)
    (reverse : ReverseMap c) : Pool n c :=
  { p.withSlot nr s with table := p.table.write i e, reverse }

theorem slot_replaced (p : Pool n c) (nr other : Fin n) (s : Slot) (i : Fin tableEntries)
    (e : Entry) (reverse : ReverseMap c) :
    (p.replaced nr s i e reverse).slot other = if other = nr then s else p.slot other :=
  slot_withSlot p nr other s

namespace Intact

variable (intact : p.Intact)

include intact

theorem get?_of_bound (bound : (p.slot nr).frame? = some f) :
    p.reverse.get? f = some (p.address nr) := (intact.get?_iff f _).mpr ⟨nr, bound, rfl⟩

theorem get?_eq_none_iff : p.reverse.get? f = none ↔ ∀ nr, (p.slot nr).frame? ≠ some f := by
  rw [Option.eq_none_iff_forall_ne_some]
  constructor
  · intro absent nr bound
    exact absent _ (intact.get?_of_bound bound)
  · intro unbound va named
    obtain ⟨nr, bound, -⟩ := (intact.get?_iff f va).mp named
    exact unbound nr bound

/-- A frame is bound to one slot at most. -/
theorem eq_of_bound (bound : (p.slot nr).frame? = some f)
    (bound' : (p.slot other).frame? = some f) : nr = other := by
  obtain ⟨i, placed⟩ := intact.placed nr f bound
  obtain ⟨j, placed'⟩ := intact.placed other f bound'
  have same := (intact.get?_of_bound bound).symm.trans (intact.get?_of_bound bound')
  exact placed.eq_of_address_eq placed' (Option.some.inj same)

/-- Where a slot is free, there are fewer reverse pointers than slots. -/
theorem size_lt (free : p.slot nr = .free) : p.reverse.size < n := by
  rw [intact.size_eq, boundCount_eq]
  exact tally_lt (i := nr) (by rw [free]; rfl)

/-- Being intact is a matter of the bindings alone, and not of the holders. -/
theorem of_frames (base : q.base = p.base) (tableBase : q.table.base = p.table.base)
    (entries : q.table.entries = p.table.entries) (reverse : q.reverse = p.reverse)
    (frames : ∀ nr, (q.slot nr).frame? = (p.slot nr).frame?) : q.Intact := by
  have address : ∀ nr, q.address nr = p.address nr := Pool.address_eq base
  have entry : ∀ i, q.table.entry i = p.table.entry i := fun i =>
    congrArg (Vector.get · i) entries
  have place : ∀ nr i, q.Placed nr i ↔ p.Placed nr i := fun nr i => by
    rw [Placed, Placed, base, tableBase]
  refine ⟨?_, fun nr i => ?_, fun nr f => ?_, fun f va => ?_, ?_⟩
  · rw [reverse]
    exact intact.sound
  · rw [place, entry, frames]
    exact intact.entry_eq nr i
  · simp only [place, frames]
    exact intact.placed nr f
  · rw [reverse, intact.get?_iff]
    simp only [frames, address]
  · rw [reverse, intact.size_eq, boundCount_eq, boundCount_eq]
    refine tally_congr fun nr => ?_
    have free : (p.slot nr).isFree = (q.slot nr).isFree := by
      rw [Bool.eq_iff_iff, Slot.isFree_iff, Slot.isFree_iff, ← Slot.frame?_eq_none_iff,
        ← Slot.frame?_eq_none_iff, frames]
    rw [free]

theorem of_sameBindings (same : SameBindings p q) : q.Intact :=
  intact.of_frames same.base_eq same.table_base_eq same.entries_eq same.reverse_eq
    fun nr => congrArg Slot.frame? (same.slot_eq nr)

/-- A slot may change while it keeps its binding. -/
theorem withSlot {s : Slot} (same : s.frame? = (p.slot nr).frame?) :
    (p.withSlot nr s).Intact :=
  intact.of_frames rfl rfl rfl rfl (frame?_withSlot same)

/-- A replaced slot and entry that map the same frame, or none. -/
theorem entries_replaced {s : Slot} {e : Entry} (reverse : ReverseMap c) (place : p.Placed nr i)
    (agree : e.frame? = s.frame?) (other : Fin n) (j : Fin tableEntries)
    (place' : p.Placed other j) :
    ((p.replaced nr s i e reverse).table.entry j).frame? =
      ((p.replaced nr s i e reverse).slot other).frame? := by
  rw [slot_replaced]
  change ((p.table.write i e).entry j).frame? = _
  by_cases here : other = nr
  · subst here
    rw [if_pos rfl, ← place.unique place', LeafTable.entry_write_self, agree]
  · have apart : i ≠ j := fun same => here (Placed.slot_unique (same ▸ place') place)
    rw [if_neg here, LeafTable.entry_write_of_ne _ _ apart]
    exact intact.entry_eq other j place'

/-- A free slot that has an entry is bound to a frame that had no slot. -/
theorem bind {e : Entry} {reverse : ReverseMap c} {holders : Holders} (free : p.slot nr = .free)
    (place : p.Placed nr i) (leaf : e.frame? = some f) (unbound : p.reverse.get? f = none)
    (inserted : ReverseMap.Inserted p.reverse f (p.address nr) reverse) :
    (p.replaced nr (.held f holders) i e reverse).Intact := by
  have nowhere := intact.get?_eq_none_iff.mp unbound
  have slots := fun other => slot_replaced p nr other (.held f holders) i e reverse
  refine ⟨inserted.sound, intact.entries_replaced reverse place leaf, fun other g bound => ?_,
    fun g va => ?_, ?_⟩
  · rw [slots] at bound
    by_cases here : other = nr
    · subst here
      exact ⟨i, place⟩
    · rw [if_neg here] at bound
      exact intact.placed other g bound
  · change reverse.get? g = some va ↔ _
    simp only [slots]
    by_cases same : g = f
    · rw [same, inserted.get?_self, Option.some.injEq]
      constructor
      · rintro rfl
        exact ⟨nr, by rw [if_pos rfl]; rfl, rfl⟩
      · rintro ⟨other, bound, rfl⟩
        by_cases here : other = nr
        · rw [here]
          rfl
        · rw [if_neg here] at bound
          exact absurd bound (nowhere other)
    · rw [inserted.get?_of_ne same, intact.get?_iff]
      refine exists_congr fun other => and_congr_left' ?_
      by_cases here : other = nr
      · rw [if_pos here, here, free]
        refine iff_of_false (fun held => ?_) fun bound => same (Option.some.inj bound).symm
        cases held
      · rw [if_neg here]
  · change reverse.size = _
    rw [inserted.size_eq, unbound, boundCount_eq, intact.size_eq, boundCount_eq]
    refine (tally_succ nr ?_ ?_ fun other here => ?_).symm
    · rw [free]
      rfl
    · rw [slots, if_pos rfl]
      rfl
    · rw [slots, if_neg here]

/-- A bound slot is turned free, and its frame loses its reverse pointer. -/
theorem reclaim {e : Entry} (bound : (p.slot nr).frame? = some f) (place : p.Placed nr i)
    (cleared : e.frame? = none) : (p.replaced nr .free i e (p.reverse.erase f)).Intact := by
  have erased := intact.sound.erased f
  have slots := fun other => slot_replaced p nr other .free i e (p.reverse.erase f)
  refine ⟨erased.sound, intact.entries_replaced (p.reverse.erase f) place cleared,
    fun other g held => ?_, fun g va => ?_, ?_⟩
  · rw [slots] at held
    by_cases here : other = nr
    · rw [if_pos here] at held
      cases held
    · rw [if_neg here] at held
      exact intact.placed other g held
  · change (p.reverse.erase f).get? g = some va ↔ _
    simp only [slots]
    by_cases same : g = f
    · rw [same, erased.get?_self]
      refine iff_of_false (Option.some_ne_none va).symm ?_
      rintro ⟨other, held, -⟩
      by_cases here : other = nr
      · rw [if_pos here] at held
        cases held
      · rw [if_neg here] at held
        exact here (intact.eq_of_bound held bound)
    · rw [erased.get?_of_ne same, intact.get?_iff]
      refine exists_congr fun other => and_congr_left' ?_
      by_cases here : other = nr
      · rw [if_pos here, here, bound]
        refine iff_of_false (fun e => same (Option.some.inj e).symm) fun held => ?_
        cases held
      · rw [if_neg here]
  · have before : p.boundCount = (p.replaced nr .free i e (p.reverse.erase f)).boundCount + 1 := by
      rw [boundCount_eq, boundCount_eq]
      refine tally_succ nr ?_ ?_ fun other here => ?_
      · rw [slots, if_pos rfl]
        rfl
      · rw [Bool.not_eq_true', Bool.eq_false_iff, ne_eq, Slot.isFree_iff,
          ← Slot.frame?_eq_none_iff, bound]
        exact Option.some_ne_none f
      · rw [slots, if_neg here]
    change (p.reverse.erase f).size = _
    rw [erased.size_eq, intact.get?_of_bound bound, intact.size_eq, before]
    rfl

end Intact

/-- A pool without bindings, over a table without mappings. -/
theorem intact_of_empty (room : 0 < c) (free : ∀ nr, p.slot nr = .free)
    (empty : ∀ i, p.table.entry i = .zero) (pointers : p.reverse = .empty room) : p.Intact := by
  refine ⟨?_, fun nr i _ => ?_, fun nr f bound => ?_, fun f va => ?_, ?_⟩
  · rw [pointers]
    exact ReverseMap.sound_empty room
  · rw [empty, free, Entry.frame?_zero]
    rfl
  · rw [free] at bound
    cases bound
  · rw [pointers, ReverseMap.get?_empty]
    refine iff_of_false (fun named => by cases named) ?_
    rintro ⟨nr, bound, -⟩
    rw [free] at bound
    cases bound
  · rw [pointers, boundCount_eq]
    refine (tally_eq_zero_iff.mpr fun nr => ?_).symm
    rw [free]
    rfl

/-- A pool can be built at the beginning of any page. -/
theorem exists_intact {base : VirtAddr} {table : LeafTable} (size : Size n) (room : 0 < c)
    (aligned : base.toNat % pageSize = 0) (empty : ∀ i, table.entry i = .zero) :
    ∃ p, assemble size base table (.empty room) = .ok p ∧ p.Intact :=
  ⟨_, dif_pos aligned, intact_of_empty room (fun nr => Vector.getElem_replicate nr.isLt) empty rfl⟩

end Pool

end Highmem
