import Highmem.Proofs.Pool.Attempt
import Highmem.Proofs.Pool.Release

/-!
# Held slots

Callers know of a pool only what they were granted and what they gave back; a `Note` says
so for one critical section. `Records` says how a noted section changes the held slots:
a grant adds a holder to one of them, a release takes one away, and nothing else does
anything to a held slot. In particular a pass, a refusal and a fault leave all of them
as they are.
-/

namespace Highmem

open Sync

/-- What a caller knows after a critical section. -/
inductive Note where
  /-- A request for `frame` was granted `va`. -/
  | granted (frame : Frame) (va : VirtAddr)
  /-- One hold on `va` was given up, while it was bound to `frame?`. -/
  | released (va : VirtAddr) (frame? : Option Frame)
  deriving DecidableEq

namespace Slot

/-- The frame of a held slot and the number of its holders. -/
def hold? : Slot → Option (Frame × Nat)
  | held frame holders => some (frame, holders.toNat)
  | _ => none

theorem hold?_eq_none_iff {s : Slot} : s.hold? = none ↔ s.isHeld = false := by
  cases s <;> simp [hold?, isHeld]

theorem hold?_eq_some_iff {s : Slot} {f : Frame} {k : Nat} :
    s.hold? = some (f, k) ↔ ∃ holders, s = held f holders ∧ holders.toNat = k := by
  cases s <;> simp [hold?]

/-- A held slot has a holder. -/
theorem pos_of_hold? {s : Slot} {f : Frame} {k : Nat} (h : s.hold? = some (f, k)) : 0 < k := by
  obtain ⟨holders, -, rfl⟩ := hold?_eq_some_iff.mp h
  exact holders.inRange.1

theorem frame?_of_hold? {s : Slot} {f : Frame} {k : Nat} (h : s.hold? = some (f, k)) :
    s.frame? = some f := by
  obtain ⟨holders, rfl, -⟩ := hold?_eq_some_iff.mp h
  rfl

@[simp] theorem hold?_swept (s : Slot) : s.swept.hold? = s.hold? := by cases s <;> rfl

end Slot

namespace Pool

variable {n c : Nat} {p q : Pool n c} {nr : Fin n} {f : Frame}

/-- The frame that an address of the window is bound to. -/
def boundAt (p : Pool n c) (va : VirtAddr) : Option Frame :=
  match p.slotOf va with
  | .ok nr => (p.slot nr).frame?
  | .error _ => none

/-- How a critical section changes the held slots, with the note that it is worth. -/
inductive Records (p q : Pool n c) : List Note → Prop
  | nothing (same : ∀ nr, (q.slot nr).hold? = (p.slot nr).hold?) : Records p q []
  | taken {nr : Fin n} {f : Frame} (before : (p.slot nr).hold? = none)
      (after : (q.slot nr).hold? = some (f, 1))
      (others : ∀ other, other ≠ nr → (q.slot other).hold? = (p.slot other).hold?) :
      Records p q [.granted f (p.address nr)]
  | joined {nr : Fin n} {f : Frame} {k k' : Nat} (before : (p.slot nr).hold? = some (f, k))
      (after : (q.slot nr).hold? = some (f, k')) (more : k + 1 < wordCount → k' = k + 1)
      (others : ∀ other, other ≠ nr → (q.slot other).hold? = (p.slot other).hold?) :
      Records p q [.granted f (p.address nr)]
  | left {nr : Fin n} {f : Frame} {k : Nat} (before : (p.slot nr).hold? = some (f, k + 1))
      (after : (q.slot nr).hold? = if k = 0 then none else some (f, k))
      (others : ∀ other, other ≠ nr → (q.slot other).hold? = (p.slot other).hold?) :
      Records p q [.released (p.address nr) (some f)]

def noteOfGrant (f : Frame) : Except Fault Grant → List Note
  | .ok (.granted va) => [.granted f va]
  | _ => []

def noteOfRelease (p : Pool n c) (va : VirtAddr) :
    Except Fault (Except ReleaseError Unit) → List Note
  | .ok (.ok ()) => [.released va (p.boundAt va)]
  | _ => []

theorem Consistent.boundAt_address (consistent : p.Consistent) (nr : Fin n) :
    p.boundAt (p.address nr) = (p.slot nr).frame? := by
  rw [boundAt, consistent.slotOf_eq_ok_iff.mpr rfl]

theorem others_withSlot (p : Pool n c) (nr : Fin n) (s : Slot) :
    ∀ other, other ≠ nr → ((p.withSlot nr s).slot other).hold? = (p.slot other).hold? := by
  intro other apart
  rw [slot_withSlot, if_neg apart]

theorem Search.hold?_eq {found : Option (Fin n)} {es : List Event}
    (search : p.Search found q es) (other : Fin n) :
    (q.slot other).hold? = (p.slot other).hold? := by
  rcases search.slot_eq with same | swept
  · rw [same]
  · rw [swept, Slot.hold?_swept]

/-- However a request ends, its note says what it did to the held slots. -/
theorem Attempts.records {o : Outcome (Pool n c) Grant} (ends : p.Attempts f o) :
    p.Records o.state (noteOfGrant f o.result) := by
  cases ends with
  | @shared nr s bound shared =>
      have after : (p.withSlot nr s).slot nr = s := slot_withSlot_self p nr s
      cases state : p.slot nr with
      | free =>
          rw [state] at bound
          cases bound
      | stale g =>
          rw [state] at bound shared
          cases bound
          cases shared
          refine .taken ?_ ?_ (others_withSlot p nr _)
          · rw [state]
            rfl
          · rw [after]
            rfl
      | held g holders =>
          rw [state] at bound shared
          cases bound
          cases shared
          refine .joined (k := holders.toNat) ?_ ?_ Holders.toNat_more (others_withSlot p nr _)
          · rw [state]
            rfl
          · rw [after]
            rfl
  | @bound nr q r es unbound search fits becomes =>
      have found : (q.slot nr).hold? = none := by
        rw [search.free]
        rfl
      refine .taken ((search.hold?_eq nr).symm.trans found) ?_ fun other apart => ?_
      · rw [becomes.slot_eq, if_pos rfl]
        rfl
      · rw [becomes.slot_eq, if_neg apart]
        exact search.hold?_eq other
  | parked _ search => exact .nothing search.hold?_eq
  | tooWide _ search => exact .nothing search.hold?_eq
  | aborted _ _ pass =>
      refine .nothing fun nr => ?_
      rw [pass.swept.slot_eq, Slot.hold?_swept]
      rfl

/-- However a release ends, its note says what it did to the held slots. -/
theorem Releases.records {va : VirtAddr} {o : Outcome (Pool n c) (Except ReleaseError Unit)}
    (ends : p.Releases va o) (consistent : p.Consistent) :
    p.Records o.state (p.noteOfRelease va o.result) := by
  cases ends with
  | unknown => exact .nothing fun _ => rfl
  | unheld => exact .nothing fun _ => rfl
  | @fewer nr f before after address held less =>
      have counts := Holders.less?_eq_some_iff.mp less
      have state : (p.withSlot nr (.held f after)).slot nr = .held f after :=
        slot_withSlot_self p nr _
      rw [address, noteOfRelease, consistent.boundAt_address, held]
      refine .left (k := after.toNat) ?_ ?_ (others_withSlot p nr _)
      · rw [held, Slot.hold?, counts]
      · rw [state, if_neg (Nat.ne_of_gt after.inRange.1)]
        rfl
  | @last nr f before address held less =>
      have counts := Holders.less?_eq_none_iff.mp less
      have state : (p.withSlot nr (.stale f)).slot nr = .stale f := slot_withSlot_self p nr _
      rw [address, noteOfRelease, consistent.boundAt_address, held]
      refine .left (k := 0) ?_ ?_ (others_withSlot p nr _)
      · rw [held, Slot.hold?, counts]
      · exact congrArg Slot.hold? state

end Pool

end Highmem
