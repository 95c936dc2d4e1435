import Highmem.Proofs.Pool.Flushing
import Highmem.Proofs.Pool.Window

/-!
# Invalidations between two bindings

A pass clears the entries of the stale slots, and a slot that it turned free can be bound
again. `Renewed` says of some events that every entry which they clear has its cached
translations dropped afterwards, and before it is programmed again. Where the window ends
within the reach of addresses this is so for every critical section by itself. Where it
does not, a pass breaks off before the invalidation, and none is ever asked for.
-/

namespace Highmem

/-- Among some events an invalidation that covers `va` comes before any programming of its
entry. -/
def Drops (va : VirtAddr) : List Event → Prop
  | [] => False
  | .invalidated start stop :: later => (start ≤ va ∧ va < stop) ∨ Drops va later
  | .mapped place _ :: later => place ≠ va ∧ Drops va later
  | _ :: later => Drops va later

/-- Every entry that some events clear is invalidated before it is programmed again. -/
def Renewed : List Event → Prop
  | [] => True
  | .cleared va :: later => Drops va later ∧ Renewed later
  | _ :: later => Renewed later

theorem Drops.append {va : VirtAddr} {es : List Event} (drops : Drops va es) (es' : List Event) :
    Drops va (es ++ es') := by
  induction es with
  | nil => exact drops.elim
  | cons e later ih =>
      cases e with
      | invalidated start stop => exact drops.imp_right ih
      | mapped place f => exact ⟨drops.1, ih drops.2⟩
      | _ => exact ih drops

/-- The invalidation stands before the next programming of the entry. -/
theorem Drops.exists_invalidated {va : VirtAddr} {f : Frame} {between after : List Event}
    (drops : Drops va (between ++ .mapped va f :: after)) :
    ∃ start stop, .invalidated start stop ∈ between ∧ start ≤ va ∧ va < stop := by
  induction between with
  | nil => exact absurd rfl drops.1
  | cons e later ih =>
      have further : Drops va (later ++ .mapped va f :: after) →
          ∃ start stop, .invalidated start stop ∈ e :: later ∧ start ≤ va ∧ va < stop := by
        intro drops
        obtain ⟨start, stop, mem, covers⟩ := ih drops
        exact ⟨start, stop, List.mem_cons_of_mem e mem, covers⟩
      cases e with
      | invalidated start stop =>
          rcases drops with covers | drops
          · exact ⟨start, stop, List.mem_cons_self, covers⟩
          · exact further drops
      | mapped place g => exact further drops.2
      | _ => exact further drops

namespace Renewed

theorem append {es es' : List Event} (first : Renewed es) (later : Renewed es') :
    Renewed (es ++ es') := by
  induction es with
  | nil => exact later
  | cons e rest ih =>
      cases e with
      | cleared va => exact ⟨first.1.append es', ih first.2⟩
      | _ => exact ih first

theorem drops {va : VirtAddr} {before later : List Event}
    (renewed : Renewed (before ++ .cleared va :: later)) : Drops va later := by
  induction before with
  | nil => exact renewed.1
  | cons e rest ih =>
      cases e with
      | cleared place => exact ih renewed.2
      | _ => exact ih renewed

end Renewed

namespace Pool

open Paging Sync

variable {n c : Nat} {p q : Pool n c} {f : Frame} {es : List Event}

/-- The invalidation of the window covers every slot. -/
theorem Consistent.drops_flushed (consistent : p.Consistent) (reach : p.Reaches) (nr : Fin n)
    (l : List (Fin n)) (later : List Event) :
    Drops (p.address nr) (l.flatMap p.clearing ++ p.flushed :: later) := by
  induction l with
  | nil => exact Or.inl (consistent.address_lt_stop reach nr)
  | cons other rest ih =>
      rw [List.flatMap_cons, clearing, List.append_assoc]
      split
      · exact ih
      · exact ih

/-- A pass that asks for its invalidation renews what it clears. -/
theorem Consistent.renewed_flushed (consistent : p.Consistent) (reach : p.Reaches)
    (l : List (Fin n)) {later : List Event} (renewed : Renewed later) :
    Renewed (l.flatMap p.clearing ++ p.flushed :: later) := by
  induction l with
  | nil => exact renewed
  | cons nr rest ih =>
      rw [List.flatMap_cons, clearing, List.append_assoc]
      split
      · exact ⟨consistent.drops_flushed reach nr rest later, ih⟩
      · exact ih

theorem Passes.renewed {o : Outcome (Pool n c) Nat} (pass : p.Passes o)
    (consistent : p.Consistent) (reach : p.Reaches) : Renewed o.events := by
  cases pass with
  | complete => exact consistent.renewed_flushed reach _ trivial
  | uncounted => exact consistent.renewed_flushed reach _ trivial
  | unreachable _ _ beyond => exact absurd reach beyond

theorem Search.renewed {found : Option (Fin n)} (search : p.Search found q es)
    (consistent : p.Consistent) (reach : p.Reaches) : Renewed es := by
  obtain ⟨nr, rfl, rfl⟩ | ⟨r, nr, pass, rfl⟩ := search.passes
  · trivial
  · exact pass.renewed (consistent.withCursor _) reach

theorem Attempts.renewed {o : Outcome (Pool n c) Grant} (ends : p.Attempts f o)
    (consistent : p.Consistent) (reach : p.Reaches) : Renewed o.events := by
  cases ends with
  | shared => trivial
  | bound _ search => exact (search.renewed consistent reach).append trivial
  | parked _ search => exact (search.renewed consistent reach).append trivial
  | tooWide _ search => exact search.renewed consistent reach
  | aborted _ _ pass => exact pass.renewed (consistent.withCursor _) reach

theorem Releases.renewed {va : VirtAddr} {o : Outcome (Pool n c) (Except ReleaseError Unit)}
    (ends : p.Releases va o) : Renewed o.events := by
  cases ends <;> trivial

/-- Beyond the reach of addresses a pass breaks off before its invalidation. -/
theorem Passes.eq_of_beyond {o : Outcome (Pool n c) Nat} (pass : p.Passes o)
    (beyond : ¬ p.Reaches) : o.result = .error (.overflow .add) ∧ o.events = p.clearings := by
  cases pass with
  | complete _ _ _ reach => exact absurd reach beyond
  | uncounted _ _ reach => exact absurd reach beyond
  | unreachable => exact ⟨rfl, rfl⟩

/-- Beyond the reach of addresses a search never gets past a pass. -/
theorem Search.of_beyond {found : Option (Fin n)} (search : p.Search found q es)
    (beyond : ¬ p.Reaches) : p.ahead? = found ∧ found.isSome = true ∧ es = [] := by
  cases search with
  | ahead found => exact ⟨found, rfl, rfl⟩
  | around _ pass => cases (pass.eq_of_beyond beyond).1
  | full _ pass => cases (pass.eq_of_beyond beyond).1

/-- Beyond the reach of addresses no request asks for an invalidation. -/
theorem Attempts.invalidations_of_beyond {o : Outcome (Pool n c) Grant} (ends : p.Attempts f o)
    (beyond : ¬ p.Reaches) : invalidations o.events = 0 := by
  cases ends with
  | shared => rfl
  | bound _ search =>
      obtain ⟨-, -, rfl⟩ := search.of_beyond beyond
      rfl
  | parked _ search =>
      obtain ⟨-, none, -⟩ := search.of_beyond beyond
      cases none
  | tooWide _ search =>
      obtain ⟨-, -, rfl⟩ := search.of_beyond beyond
      rfl
  | aborted _ _ pass =>
      obtain ⟨-, cleared⟩ := pass.eq_of_beyond beyond
      have cleared : _ = p.entered.clearings := cleared
      rw [cleared]
      exact invalidations_eq_zero fun _ => isInvalidation_of_mem_clearings

theorem Releases.invalidations_eq {va : VirtAddr}
    {o : Outcome (Pool n c) (Except ReleaseError Unit)} (ends : p.Releases va o) :
    invalidations o.events = 0 := by
  cases ends <;> rfl

/-- Beyond the reach of addresses a request that needs a pass faults, after the pass has
turned the stale slots free. -/
theorem Attempts.of_beyond {o : Outcome (Pool n c) Grant} (ends : p.Attempts f o)
    (beyond : ¬ p.Reaches) (unbound : ∀ nr, (p.slot nr).frame? ≠ some f)
    (nothing : p.ahead? = none) :
    o.result = .error (.overflow .add) ∧ o.events = p.clearings ∧ p.entered.Swept o.state := by
  have missed : ∀ {found q es}, ¬ p.Search found q es := by
    intro found q es search
    obtain ⟨ahead, some, -⟩ := search.of_beyond beyond
    rw [← ahead, nothing] at some
    cases some
  cases ends with
  | shared bound => exact absurd bound (unbound _)
  | bound _ search => exact absurd search missed
  | parked _ search => exact absurd search missed
  | tooWide _ search => exact absurd search missed
  | aborted _ _ pass =>
      obtain ⟨fault, cleared⟩ := pass.eq_of_beyond beyond
      exact ⟨congrArg _ (Except.error.inj fault), cleared, pass.swept⟩

end Pool

end Highmem
