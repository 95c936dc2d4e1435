import Highmem.Event
import Highmem.Fault

/-!
# Operations

An operation runs on a state and yields an `Outcome`: a value or a fault, the
state that it leaves, and the events that it caused. A fault ends the operation
but undoes nothing, so the state of the outcome is the one reached at the
failed assertion.

`run_bind` and its companions describe how outcomes combine.
-/

namespace Highmem

/-- What running an operation yields. -/
@[ext] structure Outcome (σ α : Type) where
  result : Except Fault α
  state : σ
  /-- Oldest first. -/
  events : List Event

/-- A computation on a state of type `σ`. -/
def Op (σ α : Type) : Type := σ → Outcome σ α

namespace Op

variable {σ τ α β : Type}

def run (op : Op σ α) (s : σ) : Outcome σ α := op s

/-- Do nothing. -/
protected def pure (a : α) : Op σ α := fun s => ⟨.ok a, s, []⟩

/-- Run one operation after another; a fault in the first is the fault of both. -/
protected def bind (op : Op σ α) (next : α → Op σ β) : Op σ β := fun s =>
  match op s with
  | ⟨.ok a, s', es⟩ =>
    let o := next a s'
    ⟨o.result, o.state, es ++ o.events⟩
  | ⟨.error f, s', es⟩ => ⟨.error f, s', es⟩

instance : Monad (Op σ) where
  pure := Op.pure
  bind := Op.bind

instance : MonadStateOf σ (Op σ) where
  get := fun s => ⟨.ok s, s, []⟩
  set s := fun _ => ⟨.ok (), s, []⟩
  modifyGet f := fun s => ⟨.ok (f s).1, (f s).2, []⟩

def fail (f : Fault) : Op σ α := fun s => ⟨.error f, s, []⟩

def emit (e : Event) : Op σ Unit := fun s => ⟨.ok (), s, [e]⟩

/-- Use the result of a calculation. -/
def ofExcept : Except Fault α → Op σ α
  | .ok a => Op.pure a
  | .error f => fail f

instance : MonadLift (Except Fault) (Op σ) := ⟨ofExcept⟩

instance : MonadLift (Except Overflow) (Except Fault) := ⟨Except.mapError Fault.overflow⟩

/-- Run an operation on a part of the state. -/
def within (part : σ → τ) (replace : τ → σ → σ) (op : Op τ α) : Op σ α := fun s =>
  let o := op (part s)
  ⟨o.result, replace o.state s, o.events⟩

/-- Run an operation and answer how it ended. -/
def ending (op : Op σ α) : Op σ (Except Fault α) := fun s =>
  let o := op s
  ⟨.ok o.result, o.state, o.events⟩

@[simp] theorem run_pure (a : α) (s : σ) : (pure a : Op σ α).run s = ⟨.ok a, s, []⟩ := rfl

@[simp] theorem run_bind (op : Op σ α) (next : α → Op σ β) (s : σ) :
    (op >>= next).run s =
      match op.run s with
      | ⟨.ok a, s', es⟩ =>
        ⟨((next a).run s').result, ((next a).run s').state, es ++ ((next a).run s').events⟩
      | ⟨.error f, s', es⟩ => ⟨.error f, s', es⟩ := rfl

@[simp] theorem run_map (g : α → β) (op : Op σ α) (s : σ) :
    (g <$> op).run s = ⟨(op.run s).result.map g, (op.run s).state, (op.run s).events⟩ := by
  change Op.bind op (fun a => Op.pure (g a)) s = _
  unfold Op.bind Op.pure Op.run
  rcases op s with ⟨_ | _, _, _⟩ <;> simp [Except.map]

theorem run_bind_ok {op : Op σ α} {next : α → Op σ β} {s s' : σ} {a : α} {es : List Event}
    (h : op.run s = ⟨.ok a, s', es⟩) :
    (op >>= next).run s =
      ⟨((next a).run s').result, ((next a).run s').state, es ++ ((next a).run s').events⟩ := by
  rw [run_bind, h]

theorem run_bind_error {op : Op σ α} {next : α → Op σ β} {s s' : σ} {f : Fault}
    {es : List Event} (h : op.run s = ⟨.error f, s', es⟩) :
    (op >>= next).run s = ⟨.error f, s', es⟩ := by
  rw [run_bind, h]

@[simp] theorem run_get (s : σ) : (get : Op σ σ).run s = ⟨.ok s, s, []⟩ := rfl

@[simp] theorem run_modify (f : σ → σ) (s : σ) : (modify f : Op σ PUnit).run s = ⟨.ok (), f s, []⟩ := rfl

@[simp] theorem run_set (s' s : σ) : (set s' : Op σ PUnit).run s = ⟨.ok (), s', []⟩ := rfl

@[simp] theorem run_modifyGet (f : σ → α × σ) (s : σ) :
    (modifyGet f : Op σ α).run s = ⟨.ok (f s).1, (f s).2, []⟩ := rfl

@[simp] theorem run_fail (f : Fault) (s : σ) : (fail f : Op σ α).run s = ⟨.error f, s, []⟩ := rfl

@[simp] theorem run_emit (e : Event) (s : σ) : (emit e).run s = ⟨.ok (), s, [e]⟩ := rfl

@[simp] theorem run_lift (x : Except Fault α) (s : σ) : (liftM x : Op σ α).run s = ⟨x, s, []⟩ := by
  cases x <;> rfl

@[simp] theorem run_lift_overflow (x : Except Overflow α) (s : σ) :
    (liftM x : Op σ α).run s = ⟨x.mapError .overflow, s, []⟩ := by
  cases x <;> rfl

@[simp] theorem mapError_ok {ε δ : Type} (g : ε → δ) (a : α) :
    (Except.ok a : Except ε α).mapError g = .ok a := rfl

@[simp] theorem mapError_error {ε δ : Type} (g : ε → δ) (e : ε) :
    (Except.error e : Except ε α).mapError g = .error (g e) := rfl

@[simp] theorem run_within (part : σ → τ) (replace : τ → σ → σ) (op : Op τ α) (s : σ) :
    (within part replace op).run s =
      ⟨(op.run (part s)).result, replace (op.run (part s)).state s,
        (op.run (part s)).events⟩ := rfl

@[simp] theorem run_ending (op : Op σ α) (s : σ) :
    op.ending.run s = ⟨.ok (op.run s).result, (op.run s).state, (op.run s).events⟩ := rfl

instance : LawfulMonad (Op σ) where
  map_const := rfl
  id_map op := by
    funext s
    change Op.bind op Op.pure s = op s
    unfold Op.bind Op.pure
    rcases op s with ⟨_ | _, _, _⟩ <;> simp
  seqLeft_eq op last := by
    funext s
    change Op.bind op (fun a => Op.bind last fun _ => Op.pure a) s =
      Op.bind (Op.bind op (Op.pure ∘ Function.const _)) (fun f => Op.bind last (Op.pure ∘ f)) s
    simp only [Op.bind, Op.pure, Function.comp]
    rcases op s with ⟨_ | a, s', es⟩ <;> simp
  seqRight_eq op last := by
    funext s
    change Op.bind op (fun _ => last) s =
      Op.bind (Op.bind op (Op.pure ∘ Function.const _ id)) (fun f => Op.bind last (Op.pure ∘ f)) s
    simp only [Op.bind, Op.pure, Function.comp, Function.const]
    rcases op s with ⟨_ | a, s', es⟩
    · rfl
    · dsimp only
      rcases last s' with ⟨_ | b, s'', es'⟩ <;> simp
  pure_seq f op := rfl
  bind_pure_comp f op := rfl
  bind_map f op := rfl
  pure_bind a next := by
    funext s
    change Op.bind (Op.pure a) next s = next a s
    simp [Op.bind, Op.pure]
  bind_assoc op next last := by
    funext s
    change Op.bind (Op.bind op next) last s = Op.bind op (fun a => Op.bind (next a) last) s
    simp only [Op.bind]
    rcases op s with ⟨_ | a, s', es⟩
    · rfl
    · dsimp only
      rcases next a s' with ⟨_ | b, s'', es'⟩
      · rfl
      · simp

end Op

end Highmem
