import Highmem.Paging.LeafTable
import Highmem.ReverseMap.Erase
import Highmem.Sync.Tickets

/-!
# The slot pool

A pool hands out the pages of a window to frames. Its state is what one lock
protects: the slots, the position at which the next scan begins, the page table
of the window, the reverse pointers, the number of invalidation passes, and the
tickets of the callers that wait for a slot.

`n` is the number of slots and `c` the capacity of the reverse map. A pool built
by `create` has a table at the base of its own window and `c = n`; `assemble`
takes any table and any reverse map.
-/

namespace Highmem

open Paging Sync

/-- The state of a pool of `n` slots. -/
structure Pool (n c : Nat) where
  base : VirtAddr
  slots : Vector Slot n
  /-- The slot that the next scan looks at first. -/
  cursor : Fin n
  table : LeafTable
  reverse : ReverseMap c
  /-- Invalidation passes so far. -/
  passes : Nat
  tickets : Tickets
  aligned : base.toNat % pageSize = 0
  fits : n ≤ tableEntries

namespace Pool

variable {n c : Nat}

/-- How many slots a pool may have: at least one, and no more than one table maps. -/
def Size (n : Nat) : Prop := 0 < n ∧ n ≤ tableEntries

instance : Decidable (Size n) := inferInstanceAs (Decidable (_ ∧ _))

/-- A pool whose slots are all free. -/
def assemble (size : Size n) (base : VirtAddr) (table : LeafTable) (reverse : ReverseMap c) :
    Except Fault (Pool n c) :=
  if h : base.toNat % pageSize = 0 then
    .ok
      { base, slots := Vector.replicate n .free, cursor := Cyclic.first size.1, table, reverse,
        passes := 0, tickets := .empty, aligned := h, fits := size.2 }
  else .error (.misalignedWindow base)

/-- A pool with its own empty table and reverse map. A base on which a table can
begin is page aligned. -/
def create (size : Size n) (base : VirtAddr) : Except UnalignedBase (Pool n n) :=
  (LeafTable.create base).map fun table =>
    { base := table.base, slots := Vector.replicate n .free, cursor := Cyclic.first size.1, table,
      reverse := .empty size.1, passes := 0, tickets := .empty, aligned := table.page_aligned,
      fits := size.2 }

/-- Address of the page `nr` pages up from the base. -/
def pageAddress (p : Pool n c) (nr : Nat) : Except Overflow VirtAddr :=
  p.base.add (nr * pageSize)

/-- Number of the slot at an address that a reverse pointer names. -/
def slotAt (p : Pool n c) (va : VirtAddr) : Except Fault (Fin n) := do
  let bytes ← va.sub p.base
  if h : bytes / pageSize < n then return ⟨bytes / pageSize, h⟩
  else throw (.escapedWindow va)

def slot (p : Pool n c) (nr : Fin n) : Slot := p.slots.get nr

def withSlot (p : Pool n c) (nr : Fin n) (s : Slot) : Pool n c :=
  { p with slots := p.slots.set nr s nr.isLt }

@[simp] theorem slot_withSlot_self (p : Pool n c) (nr : Fin n) (s : Slot) :
    (p.withSlot nr s).slot nr = s :=
  Vector.getElem_set_self nr.isLt

theorem slot_withSlot_of_ne (p : Pool n c) {nr other : Fin n} (s : Slot) (h : nr ≠ other) :
    (p.withSlot nr s).slot other = p.slot other :=
  Vector.getElem_set_ne nr.isLt other.isLt fun e => h (Fin.ext e)

def putSlot (nr : Fin n) (s : Slot) : Op (Pool n c) Unit := modify (·.withSlot nr s)

def onTable {α : Type} (op : Op LeafTable α) : Op (Pool n c) α :=
  Op.within table (fun table p => { p with table }) op

def onReverse {α : Type} (op : Op (ReverseMap c) α) : Op (Pool n c) α :=
  Op.within reverse (fun reverse p => { p with reverse }) op

/-- Let the caller that has waited longest proceed. -/
def notifyOne : Op (Pool n c) Unit :=
  modify fun p => { p with tickets := p.tickets.notifyOne.2 }

/-- Take a place at the end of the queue. -/
def drawTicket : Op (Pool n c) Ticket :=
  modifyGet fun p => (p.tickets.draw.1, { p with tickets := p.tickets.draw.2 })

end Pool

end Highmem
