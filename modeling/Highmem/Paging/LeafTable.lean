import Highmem.Paging.Entry
import Highmem.Paging.FlushRecord

/-!
# The leaf table of the slot window

A leaf table has 512 entries, one for each page of the 2 MiB that begin at its
base. An address belongs to the entry of its page, whatever its offset within
the page. Programming, clearing and reading an entry fault for an address that
the table does not cover.

Clearing an entry does not drop its cached translation: the two are separate
operations, so that many entries can be cleared before one invalidation.
-/

namespace Highmem.Paging

def tableEntries : Nat := 512

/-- Bytes that a leaf table covers. -/
def tableSpan : Nat := tableEntries * pageSize

/-- A leaf table, with the record of the invalidations that were asked of it. -/
structure LeafTable where
  base : VirtAddr
  entries : Vector Entry tableEntries
  record : FlushRecord
  aligned : base.toNat % tableSpan = 0

namespace LeafTable

/-- An empty table for the window that starts at `base`. -/
def create (base : VirtAddr) : Except UnalignedBase LeafTable :=
  if h : base.toNat % tableSpan = 0 then
    .ok ⟨base, Vector.replicate tableEntries .zero, .empty, h⟩
  else .error ⟨base⟩

theorem base_of_create {base : VirtAddr} {t : LeafTable} (h : create base = .ok t) :
    t.base = base := by
  unfold create at h
  split at h <;> cases h
  rfl

theorem page_aligned (t : LeafTable) : t.base.toNat % pageSize = 0 := by
  have := t.aligned
  simp only [tableSpan, tableEntries, pageSize] at *
  omega

/-- Position of the entry that maps `va`, if the table covers `va`. -/
def indexOf? (t : LeafTable) (va : VirtAddr) : Option (Fin tableEntries) :=
  match va.pagesSince? t.base with
  | some nr => if h : nr < tableEntries then some ⟨nr, h⟩ else none
  | none => none

def indexOf (t : LeafTable) (va : VirtAddr) : Except Fault (Fin tableEntries) :=
  match t.indexOf? va with
  | some i => .ok i
  | none => .error (.outsideTable va t.base)

def entry (t : LeafTable) (i : Fin tableEntries) : Entry := t.entries.get i

def write (t : LeafTable) (i : Fin tableEntries) (e : Entry) : LeafTable :=
  { t with entries := t.entries.set i e i.isLt }

@[simp] theorem entry_write_self (t : LeafTable) (i : Fin tableEntries) (e : Entry) :
    (t.write i e).entry i = e :=
  Vector.getElem_set_self i.isLt

theorem entry_write_of_ne (t : LeafTable) {i j : Fin tableEntries} (e : Entry) (h : i ≠ j) :
    (t.write i e).entry j = t.entry j :=
  Vector.getElem_set_ne i.isLt j.isLt fun same => h (Fin.ext same)

def entryAt (t : LeafTable) (va : VirtAddr) : Except Fault Entry :=
  (t.indexOf va).map t.entry

def lookup (t : LeafTable) (va : VirtAddr) : Except Fault (Option Frame) :=
  (t.entryAt va).map Entry.frame?

def presentCount (t : LeafTable) : Nat := t.entries.toList.countP (·.flag .present)

/-- Map the page of `va` to `frame`. The entry must not be present, and the frame
number must fit it. -/
def commit (va : VirtAddr) (frame : Frame) : Op LeafTable Unit := do
  let t ← get
  let i ← t.indexOf va
  if (t.entry i).isNone then
    let e ← Entry.leaf frame
    set (t.write i e)
    Op.emit (.mapped va frame)
  else
    Op.fail (.alreadyMapped va)

/-- Clear the entry of `va`, and answer the frame that it mapped. -/
def clear (va : VirtAddr) : Op LeafTable (Option Frame) := do
  let t ← get
  let i ← t.indexOf va
  set (t.write i .zero)
  Op.emit (.cleared va)
  return (t.entry i).frame?

/-- Drop the cached translations from `start` up to `stop`. -/
def invalidate (start stop : VirtAddr) : Op LeafTable Unit := do
  Op.emit (.invalidated start stop)
  Op.within record (fun r t => { t with record := r }) (FlushRecord.enter start stop)

theorem indexOf?_eq_some_iff {t : LeafTable} {va : VirtAddr} {i : Fin tableEntries} :
    t.indexOf? va = some i ↔
      t.base.toNat ≤ va.toNat ∧ (va.toNat - t.base.toNat) / pageSize = i := by
  unfold indexOf?
  cases h : va.pagesSince? t.base with
  | none =>
    have : ¬ t.base.toNat ≤ va.toNat := fun le => by
      simp [VirtAddr.pagesSince?, VirtAddr.bytesSince?, le] at h
    simp [this]
  | some nr =>
    obtain ⟨le, rfl⟩ := VirtAddr.pagesSince?_eq_some_iff.mp h
    have := i.isLt
    grind

end LeafTable

end Highmem.Paging
