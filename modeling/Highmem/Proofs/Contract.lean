import Highmem.Operation

/-!
# How an operation ends

`op.Ends s Q` says that the result of an operation on `s` and the state that it leaves are
related by `Q`. The result may be a fault: what is said about it then is said about the
state at the failed assertion. The rules below follow the ways in which operations are put
together; the events do not matter for them.
-/

namespace Highmem.Op

variable {σ α β : Type} {op : Op σ α} {s : σ} {Q R : Except Fault α → σ → Prop}

/-- The operation ends on a state with a result and a state that are so related. -/
def Ends (op : Op σ α) (s : σ) (Q : Except Fault α → σ → Prop) : Prop :=
  Q (op.run s).result (op.run s).state

namespace Ends

theorem of_run {result : Except Fault α} {t : σ} {es : List Event}
    (run : op.run s = ⟨result, t, es⟩) (holds : Q result t) : op.Ends s Q := by
  rw [Ends, run]
  exact holds

theorem pure {a : α} (holds : Q (.ok a) s) : Ends (Pure.pure a) s Q := holds

theorem weaken (ends : op.Ends s R) (weaker : ∀ result t, R result t → Q result t) :
    op.Ends s Q := weaker _ _ ends

section Bind

variable {next : α → Op σ β} {Q : Except Fault β → σ → Prop}

/-- What follows an operation runs on the state that this leaves, unless it faults. -/
theorem bind (first : op.Ends s R) (later : ∀ a t, R (.ok a) t → (next a).Ends t Q)
    (stops : ∀ f t, R (.error f) t → Q (.error f) t) : (op >>= next).Ends s Q := by
  unfold Ends at first later ⊢
  cases ran : op.run s with
  | mk result t es =>
    rw [ran] at first
    cases result with
    | error f =>
        rw [run_bind_error ran]
        exact stops f t first
    | ok a =>
        rw [run_bind_ok ran]
        exact later a t first

/-- What follows an operation whose run is known. -/
theorem bind_ok {a : α} {t : σ} {es : List Event} (run : op.run s = ⟨.ok a, t, es⟩)
    (later : (next a).Ends t Q) : (op >>= next).Ends s Q := by
  rw [Ends, run_bind_ok run]
  exact later

theorem bind_error {f : Fault} {t : σ} {es : List Event} (run : op.run s = ⟨.error f, t, es⟩)
    (stops : Q (.error f) t) : (op >>= next).Ends s Q := by
  rw [Ends, run_bind_error run]
  exact stops

theorem get_bind {next : σ → Op σ β} (later : (next s).Ends s Q) : (get >>= next).Ends s Q :=
  later

theorem emit_bind {e : Event} {next : Unit → Op σ β} (later : (next ()).Ends s Q) :
    (Op.emit e >>= next).Ends s Q := later

theorem modifyGet_bind {g : σ → α × σ} (later : (next (g s).1).Ends (g s).2 Q) :
    (MonadState.modifyGet g >>= next).Ends s Q := later

/-- A calculation is done or fails where it stands. -/
theorem lift_overflow_bind {x : Except Overflow α} (later : ∀ a, x = .ok a → (next a).Ends s Q)
    (stops : ∀ o, x = .error o → Q (.error (.overflow o)) s) :
    ((liftM x : Op σ α) >>= next).Ends s Q := by
  cases x with
  | ok a => exact later a rfl
  | error o => exact stops o rfl

end Bind

end Ends

end Highmem.Op
