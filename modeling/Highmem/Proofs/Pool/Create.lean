import Highmem.Proofs.Pool.Consistent

/-!
# New pools

A pool is created where a leaf table can begin. It is consistent, all of its slots are
free, its counters are zero and nobody waits.
-/

namespace Highmem.Pool

open Paging Sync

variable {n : Nat} {size : Size n} {base : VirtAddr} {pool : Pool n n}

/-- A pool of any size can be created wherever a leaf table can begin. -/
theorem exists_of_aligned (size : Size n) (aligned : base.toNat % tableSpan = 0) :
    ∃ pool, create size base = .ok pool := by
  have table : LeafTable.create base =
      .ok ⟨base, Vector.replicate tableEntries .zero, .empty, aligned⟩ := dif_pos aligned
  rw [create, table]
  exact ⟨_, rfl⟩

theorem create_cases (created : create size base = .ok pool) :
    ∃ table, LeafTable.create base = .ok table ∧ pool =
      { base := table.base, slots := Vector.replicate n .free, cursor := Cyclic.first size.1, table,
        reverse := .empty size.1, passes := 0, tickets := .empty, aligned := table.page_aligned,
        fits := size.2 } := by
  unfold create at created
  cases onTable : LeafTable.create base with
  | error cause =>
      rw [onTable] at created
      cases created
  | ok table =>
      rw [onTable] at created
      exact ⟨table, rfl, (Except.ok.inj created).symm⟩

/-- A new pool lies where it was asked to. -/
theorem base_of_create (created : create size base = .ok pool) : pool.base = base := by
  obtain ⟨table, onTable, rfl⟩ := create_cases created
  exact LeafTable.base_of_create onTable

theorem slot_of_create (created : create size base = .ok pool) (nr : Fin n) :
    pool.slot nr = .free := by
  obtain ⟨table, -, rfl⟩ := create_cases created
  exact Vector.getElem_replicate nr.isLt

theorem cursor_of_create (created : create size base = .ok pool) : pool.cursor.val = 0 := by
  obtain ⟨table, -, rfl⟩ := create_cases created
  rfl

theorem counters_of_create (created : create size base = .ok pool) :
    pool.passes = 0 ∧ pool.table.record = .empty := by
  obtain ⟨table, onTable, rfl⟩ := create_cases created
  exact ⟨rfl, (LeafTable.empty_of_create onTable).2⟩

theorem tickets_of_create (created : create size base = .ok pool) : pool.tickets = .empty := by
  obtain ⟨table, -, rfl⟩ := create_cases created
  rfl

theorem consistent_of_create (created : create size base = .ok pool) : pool.Consistent := by
  have free := slot_of_create created
  obtain ⟨table, onTable, rfl⟩ := create_cases created
  obtain ⟨empty, -⟩ := LeafTable.empty_of_create onTable
  refine (intact_of_empty size.1 free empty rfl).consistent rfl (Nat.le_refl n) fun i _ => ?_
  rw [empty]
  exact Entry.frame?_zero

end Highmem.Pool
