import Highmem.Proofs.Pool.Create
import Highmem.Proofs.Session.Keeping
import Highmem.Proofs.Session.Likeness

/-!
# The split between the direct map and the slots

Which way a frame takes is decided by its physical address, and which way an address takes
back by the address itself. `IsSplit` says that the two decisions agree in a session, at the
boundaries as anywhere else. A frame that the direct map covers costs nothing, any other
frame is treated as one that was asked of the pool at once, and every address finds its way
back to where it came from.
-/

namespace Highmem

open Paging Sync

variable {n c : Nat}

namespace Session

variable {s : Session n c} {f g : Frame} {va : VirtAddr} {x y : Mapping}

namespace Tidy

variable (tidy : s.Tidy)

include tidy

/-- Two mappings that have one address are mappings of one frame. -/
theorem eq_of_address_eq (first : s.MappedAt f x) (second : s.MappedAt g y)
    (same : x.address = y.address) : f = g := by
  have separate {va : VirtAddr} {nr : Fin n} (direct : s.MappedAt f (.direct va) ∨
      s.MappedAt g (.direct va)) (same : va = s.pool.address nr) : False := by
    have inside : s.direct.contains va = true :=
      direct.elim (·.inPlace tidy.apart) (·.inPlace tidy.apart)
    rw [same, tidy.apart.contains_address tidy.consistent] at inside
    cases inside
  cases first with
  | direct low address =>
      cases second with
      | direct low' address' =>
          cases same
          -- both addresses are the base plus that of the frame, without a carry
          have number := address
          rw [address', f.toNat_base, g.toNat_base] at number
          unfold pageSize at number
          exact Frame.ext (by omega)
      | slot held => exact (separate (.inl (.direct low address)) same).elim
  | slot held =>
      cases second with
      | direct low address => exact (separate (.inr (.direct low address)) same.symm).elim
      | slot held' =>
          cases tidy.consistent.eq_of_address_eq same
          cases held.symm.trans held'
          rfl

end Tidy

end Session

end Highmem
