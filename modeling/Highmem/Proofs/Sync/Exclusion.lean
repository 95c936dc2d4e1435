import Highmem.Proofs.Sync.Turns
import Mathlib.Algebra.Ring.Int.Defs

/-!
# Mutual exclusion

Only a thread with the guard can write the value, and no other thread can get the guard
meanwhile. So a thread with the guard always finds the value that it knows, and nothing is
lost of what critical sections add, whatever the order in which the accesses of different
threads come about.

A critical section that is given as a function is the same accesses between `lock` and `drop`.
A thread is one sequence of calls here: a call for the lock that a thread makes while it has
a guard is to be counted as one of another thread.
-/

namespace Highmem.Sync

/-- The value that an access leaves. -/
def Action.result (value : Int) : Action → Int
  | .write w => w
  | _ => value

namespace Threads

variable {s s' : Threads} {i j : ThreadId} {a : Action} {script : List (ThreadId × Action)}

/-- What an access of a thread does to the value and to what the thread knows of it, and how
the thread can come to be stopped. -/
structure Effect (s : Threads) (i : ThreadId) (a : Action) (s' : Threads) : Prop where
  value_eq : s'.value = a.result s.value
  informed : ∀ v, s'.known? i = some v →
    s'.value = v ∨ (s.known? i = some v ∧ s'.value = s.value)
  stopped : s'.phase i = .broken → s.lock.isLocked = false ∧ ∃ after, s.phase i = .checking after

/-- A thread that goes on without knowing the value. -/
theorem Effect.blank {t : Threads} {phase : Phase} (value : t.value = a.result s.value)
    (unknowing : ∀ v, phase ≠ .inside (some v)) (sane : phase ≠ .broken) :
    Effect s i a (t.enter i phase) := by
  refine ⟨value, fun v known => ?_, fun stopped => ?_⟩
  · rw [known?, phase_enter_self] at known
    cases phase with
    | inside other => exact absurd (congrArg Phase.inside known) (unknowing v)
    | _ => cases known
  · rw [phase_enter_self] at stopped
    exact absurd stopped sane

/-- A thread that goes on with the value in its hands. -/
theorem Effect.knowing {t : Threads} {v : Int} (value : t.value = a.result s.value)
    (known : t.value = v) : Effect s i a (t.enter i (.inside (some v))) := by
  refine ⟨value, fun other same => Or.inl ?_, fun stopped => ?_⟩
  · rw [known?, phase_enter_self] at same
    exact known.trans (Option.some.inj same)
  · rw [phase_enter_self] at stopped
    cases stopped

/-- A thread that serves tickets. -/
theorem Effect.still {known : Option Int} {tickets : Tickets} (quiet : a.result s.value = s.value)
    (inside : s.phase i = .inside known) : Effect s i a { s with tickets } := by
  refine ⟨quiet.symm, fun v same => Or.inr ⟨same, rfl⟩, fun stopped => ?_⟩
  cases inside.symm.trans stopped

theorem advance_effect (step : s.advance i = some s') : Effect s i .advance s' := by
  unfold advance at step
  cases phase : s.phase i with
  | outside => rw [phase] at step; cases step
  | inside => rw [phase] at step; cases step
  | broken => rw [phase] at step; cases step
  | checking after =>
      rw [phase] at step
      cases step
      cases flag : s.lock.isLocked with
      | true => exact .blank rfl nofun nofun
      | false =>
          refine ⟨rfl, fun v known => ?_, fun _ => ⟨flag, after, phase⟩⟩
          rw [known?, phase_enter_self] at known
          cases known
  | clearing after =>
      rw [phase] at step
      cases after <;> cases step <;> exact .blank rfl nofun nofun
  | _ =>
      rw [phase] at step
      cases step
      refine .blank rfl ?_ ?_ <;> split <;> nofun

/-- What a thread does with the guard. -/
theorem effect_of_inside {known : Option Int} (inside : s.phase i = .inside known)
    (step : s.step i a = some s') : Effect s i a s' := by
  unfold Threads.step at step
  rw [inside] at step
  cases a with
  | advance => exact advance_effect step
  | lock => cases step
  | tryLock => cases step
  | read => cases step; exact .knowing rfl rfl
  | write => cases step; exact .knowing rfl rfl
  | notifyOne => cases step; exact .still rfl inside
  | notifyAll => cases step; exact .still rfl inside
  | _ => cases step; exact .blank rfl nofun nofun

theorem step_effect (step : s.step i a = some s') : Effect s i a s' := by
  cases a with
  | advance => exact advance_effect step
  | lock =>
      obtain ⟨-, same⟩ := Option.ite_none_right_eq_some.mp step
      cases same
      exact .blank rfl nofun nofun
  | tryLock =>
      obtain ⟨-, same⟩ := Option.ite_none_right_eq_some.mp step
      cases same
      exact .blank rfl nofun nofun
  | _ =>
      obtain ⟨known, inside⟩ := inside_of_step step nofun nofun nofun
      exact effect_of_inside inside step

/-- A thread without the guard does not write. -/
theorem value_eq_of_step (step : s.step i a = some s') (without : (s.phase i).hasGuard = false) :
    s'.value = s.value := by
  rw [(step_effect step).value_eq]
  cases a with
  | write w =>
      obtain ⟨known, inside⟩ := inside_of_step step nofun nofun nofun
      rw [inside] at without
      cases without
  | _ => rfl

/-- For one thread, everything is as it was. -/
structure Undisturbed (i : ThreadId) (s s' : Threads) : Prop where
  phase_eq : s'.phase i = s.phase i
  lock_eq : s'.lock = s.lock
  value_eq : s'.value = s.value

/-- Nobody disturbs the thread with the guard. -/
theorem Exclusive.undisturbed (exclusive : s.Exclusive) (guard : (s.phase i).hasGuard = true)
    (apart : j ≠ i) (step : s.step j a = some s') : Undisturbed i s s' := by
  have turn := step_turn step
  have without : (s.phase j).hasGuard = false :=
    Bool.eq_false_iff.mpr fun held => apart (exclusive.alone j i held guard)
  have raised : s.lock.isLocked = true := exclusive.raised.mpr ⟨i, guard⟩
  exact ⟨turn.phase_eq apart.symm, turn.lock_eq without raised, value_eq_of_step step without⟩

/-- What holds in every interleaving. -/
structure Sound (s : Threads) : Prop where
  exclusive : s.Exclusive
  /-- What a thread with the guard read or wrote last is the value. -/
  current : ∀ i v, s.known? i = some v → s.value = v
  /-- No thread was stopped on dropping the guard. -/
  running : ∀ i, s.phase i ≠ .broken

theorem sound_start (value : Int) : (start value).Sound :=
  ⟨exclusive_start value, nofun, nofun⟩

theorem hasGuard_of_known? {v : Int} (known : s.known? i = some v) :
    (s.phase i).hasGuard = true := by
  unfold known? at known
  split at known
  case h_1 inside => rw [inside]; rfl
  case h_2 => cases known

theorem Sound.step (sound : s.Sound) (step : s.step i a = some s') : s'.Sound := by
  have turn := step_turn step
  have effect := step_effect step
  refine ⟨turn.exclusive sound.exclusive, fun j v known => ?_, fun j stopped => ?_⟩
  · by_cases here : j = i
    · subst here
      rcases effect.informed v known with now | ⟨before, same⟩
      · exact now
      · exact same.trans (sound.current j v before)
    · have phase := turn.phase_eq here
      have before : s.known? j = some v := by
        rw [known?, phase] at known
        exact known
      have same := sound.exclusive.undisturbed (hasGuard_of_known? before) (Ne.symm here) step
      exact same.value_eq.trans (sound.current j v before)
  · by_cases here : j = i
    · subst here
      obtain ⟨free, after, checking⟩ := effect.stopped stopped
      cases free.symm.trans (sound.exclusive.isLocked_of_checking checking)
    · rw [turn.phase_eq here] at stopped
      exact sound.running j stopped

theorem Sound.run (sound : s.Sound) (ran : s.run script = some s') : s'.Sound := by
  induction script generalizing s with
  | nil => cases ran; exact sound
  | cons x rest ih =>
      obtain ⟨middle, step, later⟩ := exists_of_run_cons ran
      exact ih (sound.step step) later

/-- Some accesses of other threads. -/
def Pause (i : ThreadId) (s s' : Threads) : Prop :=
  ∃ script, (∀ x ∈ script, x.1 ≠ i) ∧ s.run script = some s'

/-- The thread with the guard finds everything as it left it. -/
theorem Pause.undisturbed (pause : Pause i s s') (sound : s.Sound)
    (guard : (s.phase i).hasGuard = true) : s'.Sound ∧ Undisturbed i s s' := by
  obtain ⟨script, others, ran⟩ := pause
  refine ⟨sound.run ran, ?_⟩
  induction script generalizing s with
  | nil => cases ran; exact ⟨rfl, rfl, rfl⟩
  | cons x rest ih =>
      obtain ⟨middle, step, later⟩ := exists_of_run_cons ran
      have first := sound.exclusive.undisturbed guard (others x List.mem_cons_self) step
      have rest := ih (sound.step step) (by rw [first.phase_eq]; exact guard)
        (fun y mem => others y (List.mem_cons_of_mem x mem)) later
      exact ⟨rest.phase_eq.trans first.phase_eq, rest.lock_eq.trans first.lock_eq,
        rest.value_eq.trans first.value_eq⟩

/-- Dropping the guard takes two more accesses. Whatever other threads do before and between
them, both can be done, and then the lock is free and the value is the given one. -/
def Unlocks (i : ThreadId) (value : Int) (s : Threads) : Prop :=
  ∀ s₁, Pause i s s₁ → ∃ s₂, s₁.step i .advance = some s₂ ∧
    ∀ s₃, Pause i s₂ s₃ → ∃ s₄, s₃.step i .advance = some s₄ ∧
      s₄.phase i = .outside ∧ s₄.lock = .unlocked ∧ s₄.value = value

theorem advance_checking {after : AfterDrop} (checking : s.phase i = .checking after)
    (raised : s.lock.isLocked = true) :
    s.step i .advance = some (s.enter i (.clearing after)) := by
  simp [Threads.step, advance, checking, raised]

theorem advance_clearing (clearing : s.phase i = .clearing .leave) :
    s.step i .advance = some ({ s with lock := .unlocked }.enter i .outside) := by
  simp [Threads.step, advance, clearing, SpinLock.store, SpinLock.unlocked]

theorem Sound.unlocks (sound : s.Sound) (checking : s.phase i = .checking .leave) :
    Unlocks i s.value s := by
  intro s₁ pause
  obtain ⟨sound₁, same₁⟩ := pause.undisturbed sound (by rw [checking]; rfl)
  have checking₁ := same₁.phase_eq.trans checking
  have first := advance_checking checking₁ (sound₁.exclusive.isLocked_of_checking checking₁)
  refine ⟨_, first, fun s₃ pause' => ?_⟩
  have clearing : (s₁.enter i (.clearing .leave)).phase i = .clearing .leave := phase_enter_self ..
  obtain ⟨-, same₃⟩ := pause'.undisturbed (sound₁.step first) (by rw [clearing]; rfl)
  refine ⟨_, advance_clearing (same₃.phase_eq.trans clearing), phase_enter_self .., rfl, ?_⟩
  exact same₃.value_eq.trans same₁.value_eq

/-- What the lock guarantees in a state. -/
structure Guarded (s : Threads) : Prop where
  alone : ∀ i j, (s.phase i).hasGuard = true → (s.phase j).hasGuard = true → i = j
  raised : s.lock.isLocked = true ↔ ∃ i, (s.phase i).hasGuard = true
  /-- However a thread asks for the lock, it only gets it where nobody has the guard. -/
  taken : ∀ i a s', s.step i a = some s' →
    (s.phase i).hasGuard = false → (s'.phase i).hasGuard = true →
      ∀ j, (s.phase j).hasGuard = false
  /-- Whoever drops the guard finds the flag up, also where the flag is lowered. -/
  checked : ∀ i after, s.phase i = .checking after →
    s.step i .advance = some (s.enter i (.clearing after))
  cleared : ∀ i after, s.phase i = .clearing after → s.lock.isLocked = true
  running : ∀ i, s.phase i ≠ .broken
  current : ∀ i v, s.known? i = some v → s.value = v
  /-- A critical section that ends or fails leaves its writes and the lock. -/
  unlocks : ∀ i a s', a = .drop ∨ a = .abort → s.step i a = some s' → s'.Unlocks i s.value

/-- The access with which a critical section ends or fails. -/
theorem enter_of_leaving (leaving : a = .drop ∨ a = .abort) (step : s.step i a = some s') :
    s' = s.enter i (.checking .leave) := by
  obtain ⟨known, inside⟩ := inside_of_step step (by rintro rfl; simp at leaving)
    (by rintro rfl; simp at leaving) (by rintro rfl; simp at leaving)
  unfold Threads.step at step
  rw [inside] at step
  rcases leaving with rfl | rfl <;> cases step <;> rfl

theorem Sound.guarded (sound : s.Sound) : s.Guarded := by
  have exclusive := sound.exclusive
  constructor
  case alone => exact exclusive.alone
  case raised => exact exclusive.raised
  case taken =>
    intro i a s' step without guard
    exact exclusive.hasGuard_eq_false ((step_turn step).free without guard)
  case checked =>
    intro i after checking
    exact advance_checking checking (exclusive.isLocked_of_checking checking)
  case cleared =>
    intro i after clearing
    exact exclusive.raised.mpr ⟨i, by rw [clearing]; rfl⟩
  case running => exact sound.running
  case current => exact sound.current
  case unlocks =>
    intro i a s' leaving step
    have after := sound.step step
    cases enter_of_leaving leaving step
    exact after.unlocks (phase_enter_self ..)

/-- In these accesses every write puts one of the amounts on top of what its thread has read
or written last with the guard. -/
inductive Adds : Threads → List (ThreadId × Action) → List Int → Prop
  | nil {s : Threads} : Adds s [] []
  | add {s s' : Threads} {i : ThreadId} {v w amount : Int} {script : List (ThreadId × Action)}
      {amounts : List Int} (known : s.known? i = some v) (sum : w = v + amount)
      (step : s.step i (.write w) = some s') (later : Adds s' script amounts) :
      Adds s ((i, .write w) :: script) (amount :: amounts)
  | other {s s' : Threads} {i : ThreadId} {a : Action} {script : List (ThreadId × Action)}
      {amounts : List Int} (quiet : ∀ w, a ≠ .write w) (step : s.step i a = some s')
      (later : Adds s' script amounts) : Adds s ((i, a) :: script) amounts

/-- No amount is lost. -/
theorem Adds.value_eq {amounts : List Int} (adds : s.Adds script amounts) (sound : s.Sound)
    (ran : s.run script = some s') : s'.value = s.value + amounts.sum := by
  induction adds with
  | nil =>
      cases ran
      exact (Int.add_zero _).symm
  | @add s middle i v w amount script amounts known sum step later ih =>
      have written : middle.value = w := (step_effect step).value_eq
      rw [run, step] at ran
      rw [ih (sound.step step) ran, written, sum, sound.current i v known, List.sum_cons,
        Int.add_assoc]
  | @other s middle i a script amounts quiet step later ih =>
      have same : middle.value = s.value := by
        rw [(step_effect step).value_eq]
        cases a with
        | write w => exact absurd rfl (quiet w)
        | _ => rfl
      rw [run, step] at ran
      rw [ih (sound.step step) ran, same]

/-- In every interleaving of any number of threads, one thread at most has the guard, the
flag tells whether one has it, nobody gets the lock meanwhile, nobody drops the guard with
the flag down, and a critical section that fails leaves the lock free and its writes in
place. If critical sections only add to what they have read, no addition is lost. -/
theorem guarded_run {value : Int} (ran : (start value).run script = some s) :
    s.Guarded ∧
      ∀ amounts, (start value).Adds script amounts → s.value = value + amounts.sum := by
  have sound := sound_start value
  exact ⟨(sound.run ran).guarded, fun amounts adds => adds.value_eq sound ran⟩

/-- While one thread adds two and fails, a second one tries in vain to take the lock, and a
third one spins until it can add three. -/
def contended : List (ThreadId × Action) :=
  [(0, .lock), (0, .advance), (0, .read), (1, .tryLock), (1, .advance), (2, .lock),
    (2, .advance), (0, .write 7), (2, .advance), (0, .abort), (0, .advance), (0, .advance),
    (2, .advance), (2, .advance), (2, .read), (2, .write 10), (2, .drop), (2, .advance),
    (2, .advance)]

theorem guarded_run_contended : ∃ s, (start 5).run contended = some s ∧
    (start 5).Adds contended [2, 3] ∧ s.Guarded ∧ s.value = 5 + (2 + (3 + 0)) ∧
    ∀ i, (s.phase i).hasGuard = false := by
  obtain ⟨s, ran⟩ : ∃ s, (start 5).run contended = some s := ⟨_, rfl⟩
  have adds : (start 5).Adds contended [2, 3] := by
    refine .other nofun rfl (.other nofun rfl (.other nofun rfl (.other nofun rfl
      (.other nofun rfl (.other nofun rfl (.other nofun rfl (.add rfl rfl rfl ?_)))))))
    refine .other nofun rfl (.other nofun rfl (.other nofun rfl (.other nofun rfl
      (.other nofun rfl (.other nofun rfl (.other nofun rfl (.add rfl rfl rfl ?_)))))))
    exact .other nofun rfl (.other nofun rfl (.other nofun rfl .nil))
  obtain ⟨guarded, sum⟩ := guarded_run ran
  refine ⟨s, ran, adds, guarded, sum _ adds, fun i => ?_⟩
  have free : s.lock.isLocked = false := by
    cases ran
    rfl
  refine Bool.eq_false_iff.mpr fun guard => ?_
  rw [guarded.raised.mpr ⟨i, guard⟩] at free
  cases free

end Threads

end Highmem.Sync
