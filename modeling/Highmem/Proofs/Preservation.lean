import Highmem.Operation

/-!
# Properties that operations preserve

An operation preserves a property of the state if the state that it leaves has the property
whenever the one that it was run on has it. A fault does not excuse it: the state at a
failed assertion stays in use. The rules below follow the ways in which operations are put
together, so that a property which every single step preserves is preserved by the whole.
-/

namespace Highmem.Op

variable {σ τ α β : Type} {P : σ → Prop} {op : Op σ α}

/-- Whatever an operation answers, and whether or not it faults, it leaves a state with the
property. -/
def Preserves (P : σ → Prop) (op : Op σ α) : Prop := ∀ s, P s → P (op.run s).state

namespace Preserves

theorem pure (a : α) : Preserves P (Pure.pure a : Op σ α) := fun _ holds => holds

theorem fail (f : Fault) : Preserves P (Op.fail f : Op σ α) := fun _ holds => holds

theorem emit (e : Event) : Preserves P (Op.emit e) := fun _ holds => holds

/-- A calculation does not touch the state. -/
theorem lift (x : Except Fault α) : Preserves P (liftM x : Op σ α) := by
  intro s holds
  rw [run_lift]
  exact holds

theorem lift_overflow (x : Except Overflow α) : Preserves P (liftM x : Op σ α) := by
  intro s holds
  rw [run_lift_overflow]
  exact holds

theorem modify {f : σ → σ} (keeps : ∀ s, P s → P (f s)) :
    Preserves P (MonadState.modifyGet fun s => (PUnit.unit, f s) : Op σ PUnit) := keeps

theorem modifyGet {f : σ → α × σ} (keeps : ∀ s, P s → P (f s).2) :
    Preserves P (MonadState.modifyGet f : Op σ α) := keeps

/-- What follows an operation runs in a state with the property, if it runs at all. -/
theorem bind {next : α → Op σ β} (first : Preserves P op) (later : ∀ a, Preserves P (next a)) :
    Preserves P (op >>= next) := by
  intro s holds
  have first := first s holds
  cases ran : op.run s with
  | mk result t es =>
    rw [ran] at first
    cases result with
    | error fault =>
        rw [run_bind_error ran]
        exact first
    | ok a =>
        rw [run_bind_ok ran]
        exact later a t first

/-- What follows a look at the state may rely on the property of what it saw. -/
theorem get_bind {next : σ → Op σ α} (later : ∀ s, P s → Preserves P (next s)) :
    Preserves P (get >>= next) := fun s holds => later s holds s holds

theorem set {s : σ} (holds : P s) : Preserves P (MonadStateOf.set s : Op σ PUnit) :=
  fun _ _ => holds

/-- A part of the state may change as long as the whole keeps the property. -/
theorem within {part : σ → τ} {replace : τ → σ → σ} {op : Op τ α}
    (keeps : ∀ s, P s → P (replace (op.run (part s)).state s)) :
    Preserves P (Op.within part replace op) := keeps

end Preserves

end Highmem.Op
