import Highmem.Pool.Acquire
import Highmem.Pool.Release
import Highmem.Proofs.Preservation
import Highmem.Proofs.ReverseMap.Erase

/-!
# What no operation breaks

A pool may be in any state: its entries and reverse pointers may have been changed from
outside, or an operation may have stopped halfway. Three things hold nevertheless. The
window and the table are where they were, and the searches of the reverse map are right.
-/

namespace Highmem

open Paging

section LeafTable

variable {base : VirtAddr}

theorem Paging.LeafTable.preserves_commit (va : VirtAddr) (f : Frame) :
    (LeafTable.commit va f).Preserves (·.base = base) := by
  refine .get_bind fun t here => .bind (.lift _) fun i => ?_
  split
  · refine .bind (.lift_overflow _) fun e => .bind (.set ?_) fun _ => .emit _
    exact here
  · exact .fail _

theorem Paging.LeafTable.preserves_clear (va : VirtAddr) :
    (LeafTable.clear va).Preserves (·.base = base) := by
  refine .get_bind fun t here => .bind (.lift _) fun i => .bind (.set ?_) fun _ => ?_
  · exact here
  · exact .bind (.emit _) fun _ => .pure _

theorem Paging.LeafTable.preserves_invalidate (start stop : VirtAddr) :
    (LeafTable.invalidate start stop).Preserves (·.base = base) :=
  .bind (.emit _) fun _ => .within fun _ here => here

end LeafTable

section ReverseMap

variable {c : Nat}

theorem ReverseMap.preserves_insert (f : Frame) (va : VirtAddr) :
    (insert f va).Preserves (Sound (c := c)) := by
  intro m sound
  by_cases present : m.get? f ≠ none
  · obtain ⟨m', run, inserted⟩ := sound.run_insert_present present va
    rw [run]
    exact inserted.sound
  · have absent := not_not.mp present
    by_cases room : m.size < c
    · obtain ⟨m', run, inserted⟩ := sound.run_insert_absent absent room va
      rw [run]
      exact inserted.sound
    · have full : m.size = c := Nat.le_antisymm sound.size_le (Nat.le_of_not_lt room)
      rw [sound.run_insert_full absent full]
      exact sound

theorem ReverseMap.preserves_assign (f : Frame) (va : Option VirtAddr) :
    (assign f va).Preserves (Sound (c := c)) := by
  cases va with
  | some va => exact preserves_insert f va
  | none => exact .modify fun m sound => (sound.erased f).sound

end ReverseMap

namespace Pool

variable {n c : Nat} {α : Type} {base tableBase : VirtAddr}

/-- The window and the table begin at the given addresses, and the searches of the reverse
map are right. -/
structure Sited (base tableBase : VirtAddr) (p : Pool n c) : Prop where
  base_eq : p.base = base
  table_base_eq : p.table.base = tableBase
  sound : p.reverse.Sound

/-- A pool can be built over any table, and with any reverse map whose searches are right. -/
theorem exists_sited (size : Size n) (table : LeafTable) {reverse : ReverseMap c}
    (aligned : base.toNat % pageSize = 0) (sound : reverse.Sound) :
    ∃ p, assemble size base table reverse = .ok p ∧ p.Sited base table.base :=
  ⟨_, dif_pos aligned, rfl, rfl, sound⟩

/-- The operation keeps a pool where it is. -/
abbrev Stays (base tableBase : VirtAddr) (op : Op (Pool n c) α) : Prop :=
  op.Preserves (Sited base tableBase)

namespace Stays

theorem onTable {op : Op LeafTable α} (keeps : op.Preserves (·.base = tableBase)) :
    Stays base tableBase (Pool.onTable op : Op (Pool n c) α) :=
  .within fun p sited => ⟨sited.base_eq, keeps p.table sited.table_base_eq, sited.sound⟩

theorem onReverse {op : Op (ReverseMap c) α} (keeps : op.Preserves ReverseMap.Sound) :
    Stays base tableBase (Pool.onReverse op : Op (Pool n c) α) :=
  .within fun p sited => ⟨sited.base_eq, sited.table_base_eq, keeps p.reverse sited.sound⟩

theorem putSlot (nr : Fin n) (s : Slot) :
    Stays base tableBase (Pool.putSlot nr s : Op (Pool n c) Unit) :=
  .modify fun _ sited => ⟨sited.base_eq, sited.table_base_eq, sited.sound⟩

theorem notifyOne : Stays base tableBase (Pool.notifyOne : Op (Pool n c) Unit) :=
  .modify fun _ sited => ⟨sited.base_eq, sited.table_base_eq, sited.sound⟩

theorem drawTicket : Stays base tableBase (Pool.drawTicket : Op (Pool n c) Sync.Ticket) :=
  .modifyGet fun _ sited => ⟨sited.base_eq, sited.table_base_eq, sited.sound⟩

theorem shareBound (f : Frame) :
    Stays base tableBase (Pool.shareBound f : Op (Pool n c) (Option VirtAddr)) := by
  refine .get_bind fun p _ => ?_
  split
  · exact .pure _
  · refine .bind (.lift _) fun nr => ?_
    split
    · exact .fail _
    · exact .bind (putSlot _ _) fun _ => .bind (.emit _) fun _ => .pure _

theorem bindSlot (nr : Fin n) (f : Frame) :
    Stays base tableBase (Pool.bindSlot nr f : Op (Pool n c) VirtAddr) := by
  refine .get_bind fun p _ => .bind (.lift_overflow _) fun va => ?_
  refine .bind (onTable (LeafTable.preserves_commit va f)) fun _ => ?_
  split
  · exact .fail _
  · refine .bind (putSlot _ _) fun _ => ?_
    exact .bind (onReverse (ReverseMap.preserves_insert f va)) fun _ =>
      .bind (.emit _) fun _ => .pure _

theorem reclaim (nr : Fin n) : Stays base tableBase (Pool.reclaim nr : Op (Pool n c) Bool) := by
  refine .get_bind fun p _ => ?_
  split
  · exact .pure _
  · rename_i f _
    refine .bind (putSlot _ _) fun _ => .bind (.lift_overflow _) fun va => ?_
    refine .bind (onTable (LeafTable.preserves_clear va)) fun found => ?_
    split
    · exact .bind (onReverse (ReverseMap.preserves_assign f none)) fun _ => .pure _
    · exact .fail _

theorem reclaimAll (l : List (Fin n)) :
    Stays base tableBase (Pool.reclaimAll l : Op (Pool n c) Nat) := by
  induction l with
  | nil => exact .pure _
  | cons nr rest ih => exact .bind (reclaim nr) fun _ => .bind ih fun _ => .pure _

theorem sweep : Stays base tableBase (Pool.sweep : Op (Pool n c) Nat) := by
  refine .bind (reclaimAll _) fun freed => .get_bind fun p _ => ?_
  refine .bind (.lift_overflow _) fun stop => ?_
  refine .bind (onTable (LeafTable.preserves_invalidate _ _)) fun _ => ?_
  refine .bind (.lift_overflow _) fun passes => .bind (.modify ?_) fun _ => ?_
  · exact fun _ sited => ⟨sited.base_eq, sited.table_base_eq, sited.sound⟩
  · exact .bind (.emit _) fun _ => .pure _

theorem scanAlong (f : Frame) (l : List (Fin n)) :
    Stays base tableBase (Pool.scanAlong f l : Op (Pool n c) (Option VirtAddr)) := by
  induction l with
  | nil => exact .pure _
  | cons nr rest ih =>
      have look : Stays base tableBase (do
          let p ← get
          if (p.slot nr).isFree then
            let va ← Pool.bindSlot nr f
            return some va
          else Pool.scanAlong f rest : Op (Pool n c) (Option VirtAddr)) := by
        refine .get_bind fun p _ => ?_
        split
        · exact .bind (bindSlot nr f) fun _ => .pure _
        · exact ih
      refine .bind (.modify ?_) fun _ => ?_
      · exact fun _ sited => ⟨sited.base_eq, sited.table_base_eq, sited.sound⟩
      · dsimp only
        split
        · refine .bind sweep fun freed => ?_
          split
          · exact .bind notifyOne fun _ => look
          · exact look
        · exact look

theorem attempt (f : Frame) : Stays base tableBase (Pool.attempt f : Op (Pool n c) Grant) := by
  refine .bind (shareBound f) fun shared => ?_
  cases shared with
  | some va => exact .pure _
  | none =>
      refine .bind (.get_bind fun p _ => scanAlong f _) fun found => ?_
      cases found with
      | some va => exact .pure _
      | none => exact .bind (.emit _) fun _ => .bind drawTicket fun _ => .pure _

theorem tryRelease (va : VirtAddr) :
    Stays base tableBase (Pool.tryRelease va : Op (Pool n c) (Except ReleaseError Unit)) := by
  refine .get_bind fun p _ => ?_
  split
  · exact .pure _
  · split
    · exact .pure _
    · refine .bind (putSlot _ _) fun _ => ?_
      dsimp only
      split
      · exact .bind (.emit _) fun _ => .bind notifyOne fun _ => .pure _
      · exact .pure _

theorem release (va : VirtAddr) :
    Stays base tableBase (Pool.release va : Op (Pool n c) Unit) := by
  refine .bind (tryRelease va) fun ending => ?_
  split
  · exact .pure _
  · exact .fail _

end Stays

end Pool

end Highmem
