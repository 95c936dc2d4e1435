import Highmem.Event
import Mathlib.Logic.Function.Basic

/-!
# What the hardware may still translate

The events of a run tell everything that happens to the page table and to the cached
translations. A shadow follows them: it keeps the present entries, and with which
frames each address is tainted. Programming an entry taints its address with the
frame, and an invalidation frees the addresses of its range from all taints but that
of the frame which the entry maps at that moment. Clearing an entry leaves the taint.

A list of events is clean if no entry is programmed while its address is tainted.
-/

namespace Highmem

/-- The present entries, and the frames that cached translations may name. -/
structure Shadow where
  entry : VirtAddr → Option Frame
  tainted : VirtAddr → Frame → Prop

def Event.isInvalidation : Event → Bool
  | .invalidated _ _ => true
  | _ => false

/-- Whether an event concerns the page table or the cached translations. -/
def Event.isPaging : Event → Bool
  | .mapped _ _ => true
  | .cleared _ => true
  | .invalidated _ _ => true
  | _ => false

def invalidations (es : List Event) : Nat := es.countP Event.isInvalidation

theorem invalidations_append (es es' : List Event) :
    invalidations (es ++ es') = invalidations es + invalidations es' := List.countP_append

theorem invalidations_eq_zero {es : List Event} (quiet : ∀ e ∈ es, e.isInvalidation = false) :
    invalidations es = 0 := by
  refine List.countP_eq_zero.mpr fun e mem => ?_
  rw [quiet e mem]
  exact Bool.false_ne_true

namespace Shadow

variable {σ : Shadow} {e : Event}

/-- Before anything has happened. -/
def start : Shadow := ⟨fun _ => none, fun _ _ => False⟩

/-- The shadow after an event. -/
def enter (σ : Shadow) : Event → Shadow
  | .mapped va f =>
    ⟨Function.update σ.entry va (some f), fun a g => σ.tainted a g ∨ a = va ∧ g = f⟩
  | .cleared va => { σ with entry := Function.update σ.entry va none }
  | .invalidated start stop =>
    { σ with
      tainted := fun a g => σ.tainted a g ∧ ¬ (start ≤ a ∧ a < stop ∧ σ.entry a ≠ some g) }
  | _ => σ

def follow (σ : Shadow) (es : List Event) : Shadow := es.foldl enter σ

/-- No entry is programmed while its address is tainted. -/
def Clean (σ : Shadow) : List Event → Prop
  | [] => True
  | .mapped va f :: es => (∀ g, ¬ σ.tainted va g) ∧ (σ.enter (.mapped va f)).Clean es
  | e :: es => (σ.enter e).Clean es

theorem entry_mapped_self (σ : Shadow) (va : VirtAddr) (f : Frame) :
    (σ.enter (.mapped va f)).entry va = some f := Function.update_self _ _ _

theorem entry_mapped_of_ne (σ : Shadow) {a va : VirtAddr} (f : Frame) (apart : a ≠ va) :
    (σ.enter (.mapped va f)).entry a = σ.entry a := Function.update_of_ne apart _ _

theorem entry_cleared_self (σ : Shadow) (va : VirtAddr) :
    (σ.enter (.cleared va)).entry va = none := Function.update_self _ _ _

theorem entry_cleared_of_ne (σ : Shadow) {a va : VirtAddr} (apart : a ≠ va) :
    (σ.enter (.cleared va)).entry a = σ.entry a := Function.update_of_ne apart _ _

theorem follow_append (σ : Shadow) (es es' : List Event) :
    σ.follow (es ++ es') = (σ.follow es).follow es' := List.foldl_append

theorem clean_append (σ : Shadow) (es es' : List Event) :
    σ.Clean (es ++ es') ↔ σ.Clean es ∧ (σ.follow es).Clean es' := by
  induction es generalizing σ with
  | nil => exact (and_iff_right trivial).symm
  | cons e es ih =>
      cases e with
      | mapped va f => exact (and_congr_right' (ih _)).trans and_assoc.symm
      | _ => exact ih _

theorem enter_of_not_paging (quiet : e.isPaging = false) : σ.enter e = σ := by
  cases e <;> first | rfl | cases quiet

theorem clean_singleton_of_ne (unmapped : ∀ va f, e ≠ .mapped va f) : σ.Clean [e] := by
  cases e with
  | mapped va f => exact absurd rfl (unmapped va f)
  | _ => trivial

end Shadow

end Highmem
