import Highmem.Proofs.Session.Beyond
import Highmem.Proofs.Session.Faults

/-!
# Usable windows

A window is usable if its place can always be told, its slots can always be asked for, and
a slot that a pass turned free is bound again only after an invalidation. Every window
whose end is an address is usable. A pool can be created on one window more, the topmost
one of full size: all its slots have addresses, but its end has none. There a pass breaks
off after it has turned the stale slots free, and before it has invalidated them.
-/

namespace Highmem.Session

open Paging Sync

variable {n c : Nat} {s s' : Session n c} {es : List Event}

/-- What a window is good for, in every run with fewer passes than the counters allow. -/
structure Usable (s : Session n c) : Prop where
  window : ∀ moves, invalidations (s.trace moves) < 2 ^ 55 →
    ∃ place, (s.afterAll moves).pool.window = .ok place
  contains : ∀ moves va, invalidations (s.trace moves) < 2 ^ 55 →
    ∃ inside, (s.afterAll moves).pool.contains va = .ok inside
  served : ∀ moves m f, invalidations (s.trace (moves ++ [m])) < 2 ^ 55 →
    (s.afterAll moves).asks? m = some f → f.number < 2 ^ 40 →
      ∃ reply, (s.afterAll moves).reply m = .ok reply
  renewed : ∀ moves before va between f after, invalidations (s.trace moves) < 2 ^ 55 →
    s.trace moves = before ++ .cleared va :: (between ++ .mapped va f :: after) →
      ∃ start stop, .invalidated start stop ∈ between ∧ start ≤ va ∧ va < stop

theorem Transition.renewed (transition : Transition s s' es) (consistent : s.pool.Consistent)
    (reach : s.pool.Reaches) : Renewed es := by
  cases transition with
  | rest => trivial
  | request ends => exact ends.renewed consistent reach
  | resumption _ _ ends => exact ends.renewed consistent reach
  | release ends => exact ends.renewed

/-- In a run of a window that ends within the reach of addresses, what is cleared is
invalidated before it is programmed again. -/
theorem renewed_trace (consistent : s.pool.Consistent) (reach : s.pool.Reaches)
    (moves : List Move) : Renewed (s.trace moves) := by
  induction moves generalizing s with
  | nil => trivial
  | cons m later ih =>
      have transition := run_step consistent m
      have first := transition.renewed consistent reach
      refine first.append (ih (transition.consistent consistent) ?_)
      exact reaches_afterAll consistent reach [m]

/-- A new window whose end is an address is usable. -/
theorem usable_of_reaches {size : Pool.Size n} {base : VirtAddr} {pool : Pool n n}
    (created : Pool.create size base = .ok pool) (reach : pool.Reaches) (direct : DirectMap) :
    (start direct pool).Usable := by
  have fresh := Pool.consistent_of_create created
  have here : ∀ moves, ((start direct pool).afterAll moves).pool.Reaches :=
    reaches_afterAll (s := start direct pool) fresh reach
  constructor
  case window =>
    intro moves _
    exact ⟨_, (here moves).window_eq⟩
  case contains =>
    intro moves va _
    exact ⟨_, (here moves).contains_eq va⟩
  case served =>
    intro moves m f few asks narrow
    cases answer : ((start direct pool).afterAll moves).reply m with
    | ok reply => exact ⟨reply, rfl⟩
    | error fault =>
        obtain ⟨-, wide, -⟩ :=
          (reply_error_iff_afterAll created reach direct moves few asks).mp answer
        exact absurd narrow (Nat.not_lt_of_le wide)
  case renewed =>
    intro moves before va between f after _ split
    have renewed := renewed_trace (s := start direct pool) fresh reach moves
    rw [split] at renewed
    exact renewed.drops.exists_invalidated

theorem not_usable_of_beyond {pool : Pool n n} (beyond : ¬ pool.Reaches) (direct : DirectMap) :
    ¬ (start direct pool).Usable := by
  intro usable
  obtain ⟨place, known⟩ := usable.window [] (Nat.two_pow_pos 55)
  have unknown : ((start direct pool).afterAll []).pool.window = .error .add :=
    Pool.window_eq_error beyond
  rw [unknown] at known
  cases known

/-- A pool of any size can be created wherever a leaf table can begin, and its window is
usable exactly if the first address above it exists. Otherwise it is the topmost window of
full size. There the place of the window cannot be told in any session, a request faults
whenever it needs a pass, no run asks for an invalidation, and there is a run in which a
slot is bound again that a pass has turned free. -/
theorem usable_iff (size : Pool.Size n) {base : VirtAddr}
    (aligned : base.toNat % tableSpan = 0) :
    ∃ pool, Pool.create size base = .ok pool ∧ ∀ direct : DirectMap,
      ((start direct pool).Usable ↔ base.toNat + n * pageSize < 2 ^ 64) ∧
      (2 ^ 64 ≤ base.toNat + n * pageSize →
        n = tableEntries ∧ base.toNat + tableSpan = 2 ^ 64 ∧
        (∀ moves,
          let s := (start direct pool).afterAll moves
          s.pool.window = .error .add ∧ (∀ va, s.pool.contains va = .error .add) ∧
          (∀ m f, s.asks? m = some f → (∀ nr, (s.pool.slot nr).frame? ≠ some f) →
            s.pool.ahead? = none → s.reply m = .error (.overflow .add)) ∧
          invalidations ((start direct pool).trace moves) = 0) ∧
        ∃ moves before va between f after, (start direct pool).trace moves =
          before ++ .cleared va :: (between ++ .mapped va f :: after)) := by
  obtain ⟨pool, created⟩ := Pool.exists_of_aligned size aligned
  refine ⟨pool, created, ?_⟩
  intro direct
  have fresh := Pool.consistent_of_create created
  have reaches : pool.Reaches ↔ base.toNat + n * pageSize < 2 ^ 64 := by
    rw [Pool.Reaches, Pool.base_of_create created]
    exact Iff.rfl
  constructor
  · constructor
    · intro usable
      by_contra high
      exact not_usable_of_beyond (mt reaches.mp high) direct usable
    · intro reach
      exact usable_of_reaches created (reaches.mpr reach) direct
  · intro high
    have beyond : ¬ pool.Reaches := mt reaches.mp (Nat.not_lt_of_le high)
    have full : n = tableEntries ∧ base.toNat + tableSpan = 2 ^ 64 := by
      have inside := base.isLt
      have room := size.2
      simp only [tableSpan, tableEntries, pageSize, wordCount] at *
      omega
    have several : 1 < n := full.1 ▸ (by decide)
    refine ⟨full.1, full.2, ?_, exists_rebound created beyond several direct⟩
    intro moves s
    have here : ¬ s.pool.Reaches := beyond_afterAll (s := start direct pool) fresh beyond moves
    have consistent : s.pool.Consistent := consistent_afterAll (s := start direct pool) fresh moves
    refine ⟨Pool.window_eq_error here, Pool.contains_eq_error here, ?_, ?_⟩
    · intro m f asks unbound nothing
      exact reply_of_beyond consistent here asks unbound nothing
    · exact invalidations_trace_of_beyond (s := start direct pool) fresh beyond moves

theorem usable_iff_window :
    Layout.windowBase.toNat % tableSpan = 0 ∧
      ∃ pool : Pool 512 512, Pool.create ⟨by decide, by decide⟩ Layout.windowBase = .ok pool ∧
        (start .standard pool).Usable := by
  have aligned : Layout.windowBase.toNat % tableSpan = 0 := by decide
  obtain ⟨pool, created, usable⟩ := usable_iff (n := 512) ⟨by decide, by decide⟩ aligned
  exact ⟨aligned, pool, created, (usable .standard).1.mpr (by decide)⟩

/-- The topmost window of full size is not usable: its place cannot be told, the first
request for a slot faults, and a run that asks for no invalidation clears the entry of a
slot and programs it again. -/
theorem topmost_not_usable :
    ∃ pool : Pool 512 512,
      Pool.create ⟨by decide, by decide⟩ ⟨0xffffffffffe00000, by decide⟩ = .ok pool ∧
        ¬ (start .standard pool).Usable ∧ pool.window = .error .add ∧
        (start .standard pool).reply (.submit ⟨.ofNumber 1, .slots, none⟩) =
          .error (.overflow .add) ∧
        ∃ moves before va between f after, (start .standard pool).trace moves =
          before ++ .cleared va :: (between ++ .mapped va f :: after) ∧
            invalidations ((start .standard pool).trace moves) = 0 := by
  let base : VirtAddr := ⟨0xffffffffffe00000, by decide⟩
  have aligned : base.toNat % tableSpan = 0 := by decide
  obtain ⟨pool, created⟩ := Pool.exists_of_aligned (n := 512) ⟨by decide, by decide⟩ aligned
  have fresh := Pool.consistent_of_create created
  have beyond : ¬ pool.Reaches := by
    rw [Pool.Reaches, Pool.base_of_create created]
    decide
  have nothing : pool.ahead? = none := if_pos (Pool.cursor_of_create created)
  have unbound : ∀ nr, (pool.slot nr).frame? ≠ some (.ofNumber 1) := by
    intro nr bound
    rw [Pool.slot_of_create created] at bound
    cases bound
  refine ⟨pool, created, not_usable_of_beyond beyond .standard, Pool.window_eq_error beyond, ?_, ?_⟩
  · exact reply_of_beyond (s := start .standard pool) fresh beyond rfl unbound nothing
  · obtain ⟨moves, before, va, between, f, after, again⟩ :=
      exists_rebound created beyond (by decide) .standard
    exact ⟨moves, before, va, between, f, after, again,
      invalidations_trace_of_beyond (s := start .standard pool) fresh beyond moves⟩

end Highmem.Session
