import Highmem.Proofs.Pool.Create
import Highmem.Proofs.Session.Run

/-!
# What can be looked up

The slots of a pool, its page table and its reverse pointers agree after every run of
its callers, also after moves that faulted: neither a frame number that is too wide nor
a pass that could not be completed leaves a binding half made or half undone.
-/

namespace Highmem

open Paging

variable {n c : Nat}

/-- What the slots, the entries and the reverse pointers of a pool at `base` tell about
each other. -/
structure Pool.Agrees (p : Pool n c) (base : VirtAddr) : Prop where
  address : ∀ nr : Fin n, ∃ va, p.slotAddress nr = .ok va ∧
    va.toNat = base.toNat + nr * pageSize
  free_unmapped : ∀ (nr : Fin n) va, p.slotAddress nr = .ok va → p.slot nr = .free →
    p.table.lookup va = .ok none
  bound_mapped : ∀ (nr : Fin n) va f, p.slotAddress nr = .ok va →
    (p.slot nr).frame? = some f →
      p.table.lookup va = .ok (some f) ∧ p.addressOf? f = some va
  bound_once : ∀ nr other f, (p.slot nr).frame? = some f → (p.slot other).frame? = some f →
    nr = other
  pointer_bound : ∀ f va, p.addressOf? f = some va → ∃ nr, (p.slot nr).frame? = some f
  pointers : p.reverse.size = p.boundCount
  capacity : p.boundCount ≤ n
  above_unmapped : ∀ i : Fin tableEntries, n ≤ i.val → (p.table.entry i).isNone = true

namespace Pool.Consistent

variable {p : Pool n c}

theorem agrees (consistent : p.Consistent) : p.Agrees p.base := by
  have place : ∀ {nr : Fin n} {va}, p.slotAddress nr = .ok va → va = p.address nr := by
    intro nr va h
    rw [consistent.slotAddress_eq] at h
    exact (Except.ok.inj h).symm
  constructor
  case address =>
    intro nr
    exact ⟨_, consistent.slotAddress_eq nr, consistent.toNat_address nr⟩
  case free_unmapped =>
    intro nr va h free
    rw [place h, consistent.lookup_address, free]
    rfl
  case bound_mapped =>
    intro nr va f h bound
    rw [place h, consistent.lookup_address, bound]
    exact ⟨rfl, consistent.get?_of_bound bound⟩
  case bound_once =>
    intro nr other f bound bound'
    exact consistent.eq_of_bound bound bound'
  case pointer_bound =>
    intro f va pointer
    obtain ⟨nr, bound, -⟩ := (consistent.get?_iff f va).mp pointer
    exact ⟨nr, bound⟩
  case pointers => exact consistent.size_eq
  case capacity =>
    rw [boundCount_eq]
    exact tally_le _
  case above_unmapped =>
    intro i above
    exact Entry.isNone_iff.mpr (consistent.unused i above)

end Pool.Consistent

namespace Session

/-- A pool of any size can be created wherever a leaf table can begin, and however its
callers move, what can be looked up agrees. -/
theorem agrees_afterAll (size : Pool.Size n) {base : VirtAddr}
    (aligned : base.toNat % tableSpan = 0) :
    ∃ pool, Pool.create size base = .ok pool ∧ ∀ (direct : DirectMap) (moves : List Move),
      ((start direct pool).afterAll moves).pool.Agrees base := by
  obtain ⟨pool, created⟩ := Pool.exists_of_aligned size aligned
  refine ⟨pool, created, ?_⟩
  intro direct moves
  have consistent := Pool.consistent_of_create created
  have same : ((start direct pool).afterAll moves).pool.base = base :=
    (base_afterAll consistent moves).trans (Pool.base_of_create created)
  rw [← same]
  exact (consistent_afterAll consistent moves).agrees

theorem agrees_afterAll_pair :
    ∃ size : Pool.Size 2, Layout.windowBase.toNat % tableSpan = 0 ∧
      ∃ pool, Pool.create size Layout.windowBase = .ok pool ∧
        ((start .standard pool).afterAll
          [.submit ⟨.ofNumber 7, .slots, none⟩, .submit ⟨.ofNumber (1 <<< 40), .slots, none⟩,
            .release Layout.windowBase]).pool.Agrees Layout.windowBase := by
  have size : Pool.Size 2 := by decide
  have aligned : Layout.windowBase.toNat % tableSpan = 0 := by decide
  obtain ⟨pool, created, agrees⟩ := agrees_afterAll size aligned
  exact ⟨size, aligned, pool, created, agrees _ _⟩

end Session

end Highmem
