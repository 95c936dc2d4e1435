import Highmem.Proofs.Pool.Intact

/-!
# Consistent pools

A consistent pool is an intact one that is laid out as new pools are: its table begins with
the entry of its first slot, the entries above the last slot map nothing, and its reverse
map has room for all slots.

Each change to the bindings of an intact pool is one to those of a consistent pool, since
none of them moves the pool or writes an entry that belongs to no slot.
-/

namespace Highmem

open Paging Sync

namespace Pool

variable {n c : Nat} {p q : Pool n c} {nr : Fin n} {f : Frame}

/-- The window of the slots lies in the window of the table. -/
structure Covered (p : Pool n c) : Prop where
  below : p.table.base.toNat ≤ p.base.toNat
  above : p.base.toNat + n * pageSize ≤ p.table.base.toNat + tableSpan

namespace Covered

variable (covered : p.Covered)

include covered

/-- Every slot has an entry. -/
theorem exists_placed (nr : Fin n) : ∃ i, p.Placed nr i := by
  obtain ⟨below, above⟩ := covered
  have aligned := p.aligned
  have tableAligned := p.table.page_aligned
  have hnr := nr.isLt
  simp only [Placed, pageSize, tableSpan, tableEntries] at *
  exact ⟨⟨(p.base.toNat - p.table.base.toNat) / 4096 + nr, by omega⟩, by dsimp only; omega⟩

/-- The window of the slots lies within the reach of addresses. -/
theorem toNat_address (nr : Fin n) : (p.address nr).toNat = p.base.toNat + nr * pageSize := by
  obtain ⟨i, placed⟩ := covered.exists_placed nr
  exact placed.toNat_address

theorem pageAddress_eq (nr : Fin n) : p.pageAddress nr = .ok (p.address nr) := by
  obtain ⟨i, placed⟩ := covered.exists_placed nr
  exact placed.pageAddress_eq

theorem slotAddress_eq (nr : Fin n) : p.slotAddress nr = .ok (p.address nr) := by
  rw [slotAddress, if_pos nr.isLt, covered.pageAddress_eq]
  rfl

theorem eq_of_address_eq {nr other : Fin n} (h : p.address nr = p.address other) : nr = other := by
  obtain ⟨i, placed⟩ := covered.exists_placed nr
  obtain ⟨j, placed'⟩ := covered.exists_placed other
  exact placed.eq_of_address_eq placed' h

end Covered

def index (p : Pool n c) (nr : Fin n) : Fin tableEntries :=
  ⟨nr.val, Nat.lt_of_lt_of_le nr.isLt p.fits⟩

/-- The slot table, the page table and the reverse pointers agree. -/
structure Consistent (p : Pool n c) : Prop where
  base_eq : p.table.base = p.base
  room : n ≤ c
  entry_eq : ∀ nr, (p.table.entry (p.index nr)).frame? = (p.slot nr).frame?
  unused : ∀ i : Fin tableEntries, n ≤ i.val → (p.table.entry i).frame? = none
  sound : p.reverse.Sound
  get?_iff : ∀ f va, p.reverse.get? f = some va ↔
    ∃ nr, (p.slot nr).frame? = some f ∧ p.address nr = va
  size_eq : p.reverse.size = p.boundCount

/-- The two pools differ at most in slots, entries and reverse pointers. -/
structure SameElsewhere (p q : Pool n c) : Prop where
  base_eq : q.base = p.base
  cursor_eq : q.cursor = p.cursor
  record_eq : q.table.record = p.table.record
  passes_eq : q.passes = p.passes
  tickets_eq : q.tickets = p.tickets

theorem SameElsewhere.refl (p : Pool n c) : SameElsewhere p p := ⟨rfl, rfl, rfl, rfl, rfl⟩

theorem SameElsewhere.trans {r : Pool n c} (h : SameElsewhere p q) (h' : SameElsewhere q r) :
    SameElsewhere p r :=
  ⟨h'.base_eq.trans h.base_eq, h'.cursor_eq.trans h.cursor_eq, h'.record_eq.trans h.record_eq,
    h'.passes_eq.trans h.passes_eq, h'.tickets_eq.trans h.tickets_eq⟩

/-- The pool after the caller that waited longest was let in. -/
def notified (p : Pool n c) : Pool n c := { p with tickets := p.tickets.notifyOne.2 }

def rebind (p : Pool n c) (nr : Fin n) (s : Slot) (e : Entry) (reverse : ReverseMap c) :
    Pool n c :=
  { p.withSlot nr s with table := p.table.write (p.index nr) e, reverse }

theorem rebind_sameElsewhere (p : Pool n c) (nr : Fin n) (s : Slot) (e : Entry)
    (reverse : ReverseMap c) : SameElsewhere p (p.rebind nr s e reverse) :=
  ⟨rfl, rfl, rfl, rfl, rfl⟩

theorem slot_rebind (p : Pool n c) (nr other : Fin n) (s : Slot) (e : Entry)
    (reverse : ReverseMap c) :
    (p.rebind nr s e reverse).slot other = if other = nr then s else p.slot other :=
  slot_replaced p nr other s (p.index nr) e reverse

theorem placed_index (base : p.table.base = p.base) (nr : Fin n) : p.Placed nr (p.index nr) := by
  rw [Placed, base]
  rfl

/-- What an intact pool needs to be consistent. -/
theorem Intact.consistent (intact : p.Intact) (base : p.table.base = p.base) (room : n ≤ c)
    (unused : ∀ i : Fin tableEntries, n ≤ i.val → (p.table.entry i).frame? = none) :
    p.Consistent :=
  ⟨base, room, fun nr => intact.entry_eq nr _ (placed_index base nr), unused, intact.sound,
    intact.get?_iff, intact.size_eq⟩

namespace Consistent

variable (consistent : p.Consistent)

include consistent

theorem placed (nr : Fin n) : p.Placed nr (p.index nr) := placed_index consistent.base_eq nr

theorem intact : p.Intact := by
  refine ⟨consistent.sound, fun nr i place => ?_, fun nr f _ => ⟨_, consistent.placed nr⟩,
    consistent.get?_iff, consistent.size_eq⟩
  rw [place.unique (consistent.placed nr)]
  exact consistent.entry_eq nr

/-- Consistency is a matter of the bindings alone. -/
theorem of_sameBindings (same : SameBindings p q) : q.Consistent := by
  refine (consistent.intact.of_sameBindings same).consistent ?_ consistent.room fun i hi => ?_
  · rw [same.table_base_eq, same.base_eq, consistent.base_eq]
  · have entry : q.table.entry i = p.table.entry i := congrArg (Vector.get · i) same.entries_eq
    rw [entry]
    exact consistent.unused i hi

theorem notified : p.notified.Consistent :=
  consistent.of_sameBindings ⟨rfl, rfl, rfl, rfl, rfl⟩

theorem covered : p.Covered := by
  have span : n * pageSize ≤ tableSpan := Nat.mul_le_mul_right pageSize p.fits
  constructor
  · rw [consistent.base_eq]
  · rw [consistent.base_eq]
    exact Nat.add_le_add_left span _

theorem toNat_address (nr : Fin n) : (p.address nr).toNat = p.base.toNat + nr * pageSize :=
  consistent.covered.toNat_address nr

theorem pageAddress_eq (nr : Fin n) : p.pageAddress nr = .ok (p.address nr) :=
  consistent.covered.pageAddress_eq nr

theorem slotAddress_eq (nr : Fin n) : p.slotAddress nr = .ok (p.address nr) :=
  consistent.covered.slotAddress_eq nr

theorem eq_of_address_eq {nr other : Fin n} (h : p.address nr = p.address other) : nr = other :=
  consistent.covered.eq_of_address_eq h

theorem indexOf?_address (nr : Fin n) : p.table.indexOf? (p.address nr) = some (p.index nr) :=
  (consistent.placed nr).indexOf?_eq

/-- The table maps each slot to its frame. -/
theorem lookup_address (nr : Fin n) :
    p.table.lookup (p.address nr) = .ok (p.slot nr).frame? := by
  rw [LeafTable.lookup_eq (consistent.indexOf?_address nr), consistent.entry_eq]

/-- A bound frame has a number that fits a page-table entry. -/
theorem number_lt (h : (p.slot nr).frame? = some f) : f.number < 1 <<< 40 :=
  Entry.number_lt_of_frame? ((consistent.entry_eq nr).trans h)

theorem get?_of_bound (h : (p.slot nr).frame? = some f) :
    p.reverse.get? f = some (p.address nr) := consistent.intact.get?_of_bound h

/-- A frame is bound to one slot at most. -/
theorem eq_of_bound {other : Fin n} (h : (p.slot nr).frame? = some f)
    (h' : (p.slot other).frame? = some f) : nr = other := consistent.intact.eq_of_bound h h'

theorem get?_eq_none_iff :
    p.reverse.get? f = none ↔ ∀ nr, (p.slot nr).frame? ≠ some f :=
  consistent.intact.get?_eq_none_iff

/-- Where a slot is free, the reverse pointers have room. -/
theorem size_lt (free : p.slot nr = .free) : p.reverse.size < c :=
  Nat.lt_of_lt_of_le (consistent.intact.size_lt free) consistent.room

/-- A slot may change while it keeps its binding. -/
theorem withSlot {s : Slot} (same : s.frame? = (p.slot nr).frame?) :
    (p.withSlot nr s).Consistent :=
  (consistent.intact.withSlot same).consistent consistent.base_eq consistent.room
    consistent.unused

/-- The entry of a slot is none of those above the last slot. -/
theorem unused_rebind (nr : Fin n) (s : Slot) (e : Entry) (reverse : ReverseMap c)
    (i : Fin tableEntries) (hi : n ≤ i.val) :
    ((p.rebind nr s e reverse).table.entry i).frame? = none := by
  have hnr := nr.isLt
  have apart : p.index nr ≠ i := fun same => by
    have : nr.val = i.val := congrArg Fin.val same
    omega
  change ((p.table.write (p.index nr) e).entry i).frame? = none
  rw [LeafTable.entry_write_of_ne _ _ apart]
  exact consistent.unused i hi

/-- A free slot is bound to a frame that had no slot. -/
theorem bind {e : Entry} {reverse : ReverseMap c} {holders : Holders} (free : p.slot nr = .free)
    (leaf : e.frame? = some f) (unbound : p.reverse.get? f = none)
    (inserted : ReverseMap.Inserted p.reverse f (p.address nr) reverse) :
    (p.rebind nr (.held f holders) e reverse).Consistent := by
  have intact : (p.rebind nr (.held f holders) e reverse).Intact :=
    consistent.intact.bind free (consistent.placed nr) leaf unbound inserted
  exact intact.consistent consistent.base_eq consistent.room (consistent.unused_rebind nr _ e _)

/-- A bound slot is turned free, and its frame loses its reverse pointer. -/
theorem reclaim {e : Entry} (bound : (p.slot nr).frame? = some f) (cleared : e.frame? = none) :
    (p.rebind nr .free e (p.reverse.erase f)).Consistent := by
  have intact : (p.rebind nr .free e (p.reverse.erase f)).Intact :=
    consistent.intact.reclaim bound (consistent.placed nr) cleared
  exact intact.consistent consistent.base_eq consistent.room (consistent.unused_rebind nr _ e _)

end Consistent

end Pool

end Highmem
