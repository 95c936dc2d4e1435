import Highmem.Proofs.Pool.Bind
import Highmem.Proofs.Pool.Verdict

/-!
# Giving back an address

`Releases` lists the ways in which giving back an address can end. An address that is
refused leaves the pool as it was. The last holder of a slot leaves it stale and lets
the caller in that has waited longest.
-/

namespace Highmem.Pool

open Paging Sync

variable {n c : Nat} {p q : Pool n c} {nr : Fin n} {va : VirtAddr}

/-- The ways in which giving back an address can end. -/
inductive Releases (p : Pool n c) (va : VirtAddr) :
    Outcome (Pool n c) (Except ReleaseError Unit) → Prop
  | unknown {cause : ReleaseError} (refused : p.slotOf va = .error cause) :
      Releases p va ⟨.ok (.error cause), p, []⟩
  | unheld {nr : Fin n} (address : va = p.address nr) (idle : (p.slot nr).isHeld = false) :
      Releases p va ⟨.ok (.error (.notHeld va (p.slot nr))), p, []⟩
  | fewer {nr : Fin n} {f : Frame} {before after : Holders} (address : va = p.address nr)
      (held : p.slot nr = .held f before) (less : before.less? = some after) :
      Releases p va ⟨.ok (.ok ()), p.withSlot nr (.held f after), []⟩
  | last {nr : Fin n} {f : Frame} {before : Holders} (address : va = p.address nr)
      (held : p.slot nr = .held f before) (less : before.less? = none) :
      Releases p va ⟨.ok (.ok ()), (p.withSlot nr (.stale f)).notified, [.staled nr va]⟩

theorem Consistent.slotOf_eq_ok_iff (consistent : p.Consistent) :
    p.slotOf va = .ok nr ↔ va = p.address nr := by
  rw [Pool.slotOf_eq_ok_iff, Starts, VirtAddr.ext_iff, consistent.toNat_address]

/-- Every end of giving back an address is one of those listed. -/
theorem Consistent.run_tryRelease (consistent : p.Consistent) (va : VirtAddr) :
    p.Releases va ((tryRelease va).run p) := by
  cases place : p.slotOf va with
  | error cause =>
      have unknown := Releases.unknown place
      simpa [tryRelease, place] using unknown
  | ok nr =>
      have address := consistent.slotOf_eq_ok_iff.mp place
      cases state : p.slot nr with
      | free =>
          have unheld := Releases.unheld (p := p) address (by rw [state]; rfl)
          simpa [tryRelease, place, state, Slot.release?] using unheld
      | stale f =>
          have unheld := Releases.unheld (p := p) address (by rw [state]; rfl)
          simpa [tryRelease, place, state, Slot.release?] using unheld
      | held f before =>
          cases less : before.less? with
          | none =>
              have last := Releases.last address state less
              simpa [tryRelease, place, state, Slot.release?, less, putSlot, Slot.isStale,
                notifyOne, Pool.notified, Except.map] using last
          | some after =>
              have fewer := Releases.fewer address state less
              simpa [tryRelease, place, state, Slot.release?, less, putSlot, Slot.isStale,
                Except.map] using fewer

/-- However giving back an address ends, the pool stays consistent. -/
theorem Releases.consistent {o : Outcome (Pool n c) (Except ReleaseError Unit)}
    (ends : p.Releases va o) (before : p.Consistent) : o.state.Consistent := by
  cases ends with
  | unknown => exact before
  | unheld => exact before
  | fewer _ held => exact before.withSlot (by rw [held]; rfl)
  | last _ held => exact (before.withSlot (by rw [held]; rfl)).notified

theorem Releases.base_eq {o : Outcome (Pool n c) (Except ReleaseError Unit)}
    (ends : p.Releases va o) : o.state.base = p.base := by
  cases ends <;> rfl

/-- A caller that insists on a release changes and reports the same. -/
theorem run_release (p : Pool n c) (va : VirtAddr) :
    ((release va).run p).state = ((tryRelease va).run p).state ∧
      ((release va).run p).events = ((tryRelease va).run p).events := by
  cases tried : (tryRelease va).run p with
  | mk result q es =>
    cases result with
    | error fault =>
        rw [release, Op.run_bind_error tried]
        exact ⟨rfl, rfl⟩
    | ok ending =>
        rw [release, Op.run_bind_ok tried]
        cases ending <;> simp

end Highmem.Pool
