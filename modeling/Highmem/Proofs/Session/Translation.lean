import Highmem.Proofs.Pool.Flushing
import Highmem.Proofs.Pool.Tracking
import Highmem.Proofs.Session.Agreement

/-!
# No binding before the invalidation

While its window ends within the reach of addresses, no run of a pool's callers
programs an address for which a translation to another frame may still be cached. The
argument goes by critical sections: `Transition.keeps` for one, `keeps_trace` for a
run. The passes of a run are its invalidations, as long as the counters suffice.
-/

namespace Highmem

open Paging

variable {n c : Nat}

namespace Session

variable {s s' : Session n c} {σ : Shadow} {es : List Event}

theorem Transition.keeps (transition : Transition s s' es) (consistent : s.pool.Consistent)
    (reach : s.pool.Reaches) (tracked : s.pool.Tracked σ) : Pool.Keeps σ es s'.pool := by
  cases transition with
  | rest pool => exact tracked.keeps_nil (by rw [pool]) fun _ => by rw [pool]
  | request ends pool => exact pool ▸ ends.keeps consistent reach tracked
  | @resumption call _ _ _ ends pool =>
      have woken : Pool.Keeps σ [.woken call.request.frame] s.pool :=
        tracked.keeps_of_frames rfl rfl fun _ => rfl
      exact woken.append (pool ▸ ends.keeps consistent reach woken.tracked)
  | release ends pool => exact pool ▸ ends.keeps tracked

theorem Transition.flushes (transition : Transition s s' es) : s.pool.Flushes es s'.pool := by
  cases transition with
  | rest pool => exact .of_quiet nofun (by rw [pool]) (by rw [pool])
  | request ends pool => exact pool ▸ ends.flushes
  | @resumption call _ _ _ ends pool =>
      have woken : s.pool.Flushes [.woken call.request.frame] s.pool := .of_event rfl rfl rfl
      exact woken.append rfl (pool ▸ ends.flushes)
  | release ends pool => exact pool ▸ ends.flushes

/-- All invalidations of a run are those of the window, and they are counted. -/
theorem flushes_trace (consistent : s.pool.Consistent) (moves : List Move) :
    s.pool.Flushes (s.trace moves) (s.afterAll moves).pool := by
  induction moves generalizing s with
  | nil => exact .of_quiet nofun rfl rfl
  | cons m later ih =>
      have transition := run_step consistent m
      exact transition.flushes.append transition.base_eq (ih (transition.consistent consistent))

end Session

end Highmem
