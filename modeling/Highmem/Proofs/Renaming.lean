import Highmem.Operation

/-!
# Renaming of frames

A renaming exchanges the frames whose numbers fit a page-table entry for one another, never
two for the same. It acts on everything that names frames: slots, refusals, faults and
events. Addresses, slot numbers and counts name none.

Two outcomes are renamed if the second is the first with all frames renamed. This is told
operation by operation: what holds of the two parts of an operation holds of the whole.
-/

namespace Highmem

/-- The number of the frame fits a page-table entry. -/
def Frame.IsNarrow (f : Frame) : Prop := f.number < 1 <<< 40

instance (f : Frame) : Decidable f.IsNarrow := inferInstanceAs (Decidable (_ < _))

/-- An injective map of the narrow frames. What it does to other frames does not matter. -/
structure Renaming where
  frame : Frame → Frame
  isNarrow : ∀ f, f.IsNarrow → (frame f).IsNarrow
  injective : ∀ f g, f.IsNarrow → g.IsNarrow → frame f = frame g → f = g

def Renaming.identity : Renaming := ⟨id, fun _ narrow => narrow, fun _ _ _ _ same => same⟩

/-- The narrow frames in the reverse order. -/
def Renaming.reversal : Renaming where
  frame f := .ofNumber ((1 <<< 40) - 1 - f.number)
  isNarrow f narrow := by
    unfold Frame.IsNarrow at *
    rw [Frame.number_ofNumber (by unfold frameCount; omega)]
    omega
  injective f g narrow narrow' same := by
    have numbers := congrArg Frame.number same
    unfold Frame.IsNarrow at *
    rw [Frame.number_ofNumber (by unfold frameCount; omega),
      Frame.number_ofNumber (by unfold frameCount; omega)] at numbers
    exact Frame.ext (by omega)

variable (r : Renaming)

def Slot.rename : Slot → Slot
  | free => free
  | stale f => stale (r.frame f)
  | held f holders => held (r.frame f) holders

def ReleaseError.rename : ReleaseError → ReleaseError
  | outsideWindow va => outsideWindow va
  | unaligned va => unaligned va
  | notHeld va state => notHeld va (state.rename r)

def Fault.rename : Fault → Fault
  | bindingOccupied f state => bindingOccupied (r.frame f) (state.rename r)
  | reverseFull capacity f => reverseFull capacity (r.frame f)
  | mappingLost nr found f => mappingLost nr (found.map r.frame) (r.frame f)
  | stillMapped nr found => stillMapped nr (r.frame found)
  | wrongMapping nr found f => wrongMapping nr (found.map r.frame) (r.frame f)
  | wrongReverse nr f found va => wrongReverse nr (r.frame f) found va
  | releaseRefused cause => releaseRefused (cause.rename r)
  | fault => fault

def Event.rename : Event → Event
  | mapped va f => mapped va (r.frame f)
  | shared f nr state => shared (r.frame f) nr (state.rename r)
  | bound f nr va => bound (r.frame f) nr va
  | busy slots f => busy slots (r.frame f)
  | woken f => woken (r.frame f)
  | event => event

/-- The ending of an operation with its frames renamed: `value` renames those of a value. -/
def Renaming.ending {α β : Type} (value : α → β) : Except Fault α → Except Fault β
  | .ok a => .ok (value a)
  | .error fault => .error (fault.rename r)

namespace Slot

variable {r} {s t : Slot}

@[simp] theorem isFree_rename : (s.rename r).isFree = s.isFree := by cases s <;> rfl

@[simp] theorem isStale_rename : (s.rename r).isStale = s.isStale := by cases s <;> rfl

@[simp] theorem frame?_rename : (s.rename r).frame? = s.frame?.map r.frame := by cases s <;> rfl

theorem share?_rename : (s.rename r).share? = s.share?.map (rename r) := by cases s <;> rfl

theorem release?_rename : (s.rename r).release? = s.release?.map (rename r) := by
  cases s with
  | free => rfl
  | stale => rfl
  | held f holders =>
      simp only [rename, release?]
      cases holders.less? <;> rfl

end Slot

section Identity

@[simp] theorem Slot.rename_identity (s : Slot) : s.rename .identity = s := by cases s <;> rfl

@[simp] theorem ReleaseError.rename_identity (e : ReleaseError) : e.rename .identity = e := by
  cases e with
  | notHeld va state => exact congrArg (notHeld va) state.rename_identity
  | _ => rfl

@[simp] theorem Fault.rename_identity (e : Fault) : e.rename .identity = e := by
  cases e with
  | bindingOccupied f state => exact congrArg (bindingOccupied f) state.rename_identity
  | releaseRefused cause => exact congrArg releaseRefused cause.rename_identity
  | mappingLost nr found f => cases found <;> rfl
  | wrongMapping nr found f => cases found <;> rfl
  | _ => rfl

theorem Event.rename_identity : Event.rename .identity = id := by
  funext e
  cases e with
  | shared f nr state => exact congrArg (shared f nr) state.rename_identity
  | _ => rfl

theorem ReleaseError.mapError_identity :
    (Except.mapError (rename .identity) : Except ReleaseError Unit → _) = id := by
  funext ending
  cases ending with
  | ok => rfl
  | error e => exact congrArg Except.error e.rename_identity

theorem Renaming.ending_identity {α : Type} :
    (ending identity id : Except Fault α → Except Fault α) = id := by
  funext result
  cases result with
  | ok a => rfl
  | error fault => exact congrArg Except.error fault.rename_identity

end Identity

variable {σ τ α β : Type} {alike : σ → σ → Prop} {value : α → α} {value' : β → β}

/-- The second outcome is the first with the frames renamed: `alike` says so of the states,
and `value` renames the frames of a value. -/
structure Outcome.Renamed (alike : σ → σ → Prop) (value : α → α) (o o' : Outcome σ α) : Prop where
  result : o'.result = r.ending value o.result
  state : alike o.state o'.state
  events : o'.events = o.events.map (Event.rename r)

namespace Outcome.Renamed

variable {r} {s s' : σ} {op op' : Op σ α} {next next' : α → Op σ β}

/-- An operation that yields a value at once. -/
theorem pure (a : α) (states : alike s s') :
    Renamed r alike value ((Pure.pure a : Op σ α).run s) ((Pure.pure (value a) : Op σ α).run s') :=
  ⟨rfl, states, rfl⟩

/-- What follows an operation, in the states that the operation leaves. -/
theorem bind (first : Renamed r alike value (op.run s) (op'.run s'))
    (later : ∀ a t t' es, op.run s = ⟨.ok a, t, es⟩ → alike t t' →
      Renamed r alike value' ((next a).run t) ((next' (value a)).run t')) :
    Renamed r alike value' ((op >>= next).run s) ((op' >>= next').run s') := by
  obtain ⟨result, states, events⟩ := first
  cases ran : op.run s with
  | mk ending t es =>
    cases ran' : op'.run s' with
    | mk ending' t' es' =>
      rw [ran, ran'] at result states events
      cases ending with
      | error fault =>
          cases result
          rw [Op.run_bind_error ran, Op.run_bind_error ran']
          exact ⟨rfl, states, events⟩
      | ok a =>
          cases result
          have later := later a t t' es ran states
          rw [Op.run_bind_ok ran, Op.run_bind_ok ran']
          refine ⟨later.result, later.state, ?_⟩
          rw [List.map_append, ← later.events]
          exact congrArg (· ++ _) events

/-- A value that is passed on in another form. -/
theorem map {g : α → β} (first : Renamed r alike value (op.run s) (op'.run s'))
    (commutes : ∀ a, value' (g a) = g (value a)) :
    Renamed r alike value' ((g <$> op).run s) ((g <$> op').run s') := by
  rw [Op.run_map, Op.run_map]
  refine ⟨?_, first.state, first.events⟩
  rw [first.result]
  cases (op.run s).result with
  | error fault => rfl
  | ok a => exact congrArg Except.ok (commutes a).symm

/-- What follows a look at the state. -/
theorem get_bind {next next' : σ → Op σ α}
    (later : Renamed r alike value ((next s).run s) ((next' s').run s')) :
    Renamed r alike value ((get >>= next).run s) ((get >>= next').run s') := later

/-- A calculation with numbers. -/
theorem lift (x : Except Overflow α) (states : alike s s') :
    Renamed r alike id ((liftM x : Op σ α).run s) ((liftM x : Op σ α).run s') := by
  rw [Op.run_lift_overflow, Op.run_lift_overflow]
  exact ⟨by cases x <;> rfl, states, rfl⟩

/-- A report comes out renamed. -/
theorem emit (e : Event) (states : alike s s') :
    Renamed r alike id ((Op.emit e).run s) ((Op.emit (e.rename r)).run s') :=
  ⟨rfl, states, rfl⟩

/-- A change of the state. -/
theorem modify {f f' : σ → σ} (states : alike (f s) (f' s')) :
    Renamed r alike id ((MonadState.modifyGet fun t => (PUnit.unit, f t) : Op σ PUnit).run s)
      ((MonadState.modifyGet fun t => (PUnit.unit, f' t) : Op σ PUnit).run s') :=
  ⟨rfl, states, rfl⟩

/-- An operation whose fault is an answer. -/
theorem ending (inner : Renamed r alike value (op.run s) (op'.run s')) :
    Renamed r alike (r.ending value) (op.ending.run s) (op'.ending.run s') :=
  ⟨congrArg Except.ok inner.result, inner.state, inner.events⟩

/-- An operation on a part of the state. -/
theorem within {alike' : τ → τ → Prop} {part : σ → τ} {replace : τ → σ → σ} {op op' : Op τ α}
    (inner : Renamed r alike' value (op.run (part s)) (op'.run (part s')))
    (outer : ∀ t t', alike' t t' → alike (replace t s) (replace t' s')) :
    Renamed r alike value ((Op.within part replace op).run s)
      ((Op.within part replace op').run s') :=
  ⟨inner.result, outer _ _ inner.state, inner.events⟩

/-- Outcomes with the same frames: their results and events are equal. -/
theorem identity_iff {o o' : Outcome σ α} :
    Renamed .identity alike id o o' ↔
      o'.result = o.result ∧ o'.events = o.events ∧ alike o.state o'.state := by
  have result : Renaming.identity.ending id o.result = o.result := by
    rw [Renaming.ending_identity, id]
  have events : o.events.map (Event.rename .identity) = o.events := by
    rw [Event.rename_identity, List.map_id]
  constructor
  · intro renamed
    exact ⟨renamed.result.trans result, renamed.events.trans events, renamed.state⟩
  · rintro ⟨same, same', states⟩
    exact ⟨same.trans result.symm, states, same'.trans events.symm⟩

end Outcome.Renamed

end Highmem
