import Highmem.Proofs.Pool.Renewal
import Highmem.Proofs.Session.Filling

/-!
# Windows without an end

The first address above a window need not exist. Then no pass runs to its end, and a run
asks for no invalidation at all. As long as a request finds a free slot ahead of the
cursor it is served nevertheless: callers can fill the window, turn a slot stale, have it
turned free by a pass that breaks off, and bind it again. `exists_rebound` is this run.
-/

namespace Highmem

open Paging Sync

variable {n c : Nat}

namespace Pool

variable {p : Pool n c} {nr : Fin n} {f : Frame}

/-- The last holder of a slot leaves it stale. -/
theorem Releases.of_one {o : Outcome (Pool n c) (Except ReleaseError Unit)}
    (ends : p.Releases (p.address nr) o) (consistent : p.Consistent)
    (held : p.slot nr = .held f .one) : o.state = (p.withSlot nr (.stale f)).notified := by
  generalize place : p.address nr = va at ends
  have same : ∀ {other}, va = p.address other → nr = other := fun here =>
    consistent.eq_of_address_eq (place.trans here)
  cases ends with
  | unknown refused =>
      rw [consistent.slotOf_eq_ok_iff.mpr place.symm] at refused
      cases refused
  | unheld address idle =>
      rw [← same address, held] at idle
      cases idle
  | fewer address held' less =>
      rw [← same address, held] at held'
      cases held'
      cases less
  | last address held' =>
      obtain rfl := same address
      rw [held] at held'
      cases held'
      rfl

end Pool

namespace Session

variable {s s' : Session n c} {es : List Event} {first k : Nat}

theorem Transition.invalidations_of_beyond (transition : Transition s s' es)
    (beyond : ¬ s.pool.Reaches) : invalidations es = 0 := by
  cases transition with
  | rest => rfl
  | request ends => exact ends.invalidations_of_beyond beyond
  | resumption _ _ ends => exact ends.invalidations_of_beyond beyond
  | release ends => exact ends.invalidations_eq

theorem beyond_afterAll (consistent : s.pool.Consistent) (beyond : ¬ s.pool.Reaches)
    (moves : List Move) : ¬ (s.afterAll moves).pool.Reaches := by
  rw [Pool.Reaches, base_afterAll consistent]
  exact beyond

/-- A run of a window that ends beyond the reach of addresses invalidates nothing. -/
theorem invalidations_trace_of_beyond (consistent : s.pool.Consistent)
    (beyond : ¬ s.pool.Reaches) (moves : List Move) : invalidations (s.trace moves) = 0 := by
  induction moves generalizing s with
  | nil => rfl
  | cons m later ih =>
      have transition := run_step consistent m
      have rest := ih (transition.consistent consistent) (beyond_afterAll consistent beyond [m])
      rw [trace, invalidations_append, transition.invalidations_of_beyond beyond, rest]

/-- Where the window has no end, a request that needs a pass faults. -/
theorem reply_of_beyond (consistent : s.pool.Consistent) (beyond : ¬ s.pool.Reaches) {m : Move}
    {f : Frame} (asks : s.asks? m = some f) (unbound : ∀ nr, (s.pool.slot nr).frame? ≠ some f)
    (nothing : s.pool.ahead? = none) : s.reply m = .error (.overflow .add) := by
  obtain ⟨o, ends, answers, -⟩ := reply_of_asks consistent asks
  obtain ⟨fault, -⟩ := ends.of_beyond beyond unbound nothing
  rw [fault] at answers
  generalize s.reply m = reply at answers ⊢
  cases answers with
  | fault => rfl

/-- Where the window has no end, the first request faults and moves the cursor on. -/
theorem filled_one (consistent : s.pool.Consistent) (beyond : ¬ s.pool.Reaches)
    (filled : s.pool.Filled 1 0) : (s.after (ask 0)).pool.Filled 1 1 := by
  have start : s.pool.cursor.val = 0 := filled.cursor_eq.trans (Nat.zero_mod n)
  obtain ⟨o, ends, pool, -⟩ := run_ask consistent 0
  obtain ⟨-, -, swept⟩ := ends.of_beyond beyond (filled.unbound (Nat.le_refl 0) (by decide))
    (if_pos start)
  rw [pool]
  constructor
  · rw [swept.cursor_eq]
    rfl
  · intro nr
    refine (swept.slot_eq nr).trans ?_
    change (s.pool.slot nr).swept = _
    rw [filled.slot_eq_free, if_neg fun inside => Nat.not_le_of_lt inside.2 inside.1]
    rfl

/-- Where the window has no end, a stale slot right behind the first one is turned free by
one request and bound by the next. -/
theorem rebound_of_stale (consistent : s.pool.Consistent) (beyond : ¬ s.pool.Reaches)
    (start : s.pool.cursor.val = 0) {nr : Fin n} (second : nr.val = 1) {g : Frame}
    (stale : s.pool.slot nr = .stale g) {j : Nat} (narrow : j + 1 < 1 <<< 40)
    (unbound : ∀ i, j ≤ i → i < frameCount →
      ∀ other, (s.pool.slot other).frame? ≠ some (.ofNumber i)) :
    ∃ before between after f, s.trace [ask j, ask (j + 1)] =
      before ++ .cleared (s.pool.address nr) ::
        (between ++ .mapped (s.pool.address nr) f :: after) := by
  have small : j + 1 < frameCount := narrow.trans (by decide)
  obtain ⟨o, ends, pool, events⟩ := run_ask consistent j
  obtain ⟨-, clears, swept⟩ := ends.of_beyond beyond
    (unbound j (Nat.le_refl j) ((Nat.lt_succ_self j).trans small)) (if_pos start)
  rw [← pool] at swept
  have cursor : (s.after (ask j)).pool.cursor = nr := by
    have inside : s.pool.firstSlot.val + 1 < n := by
      change 0 + 1 < n
      rw [Nat.zero_add, ← second]
      exact nr.isLt
    rw [swept.cursor_eq]
    exact Fin.ext ((Cyclic.val_next_of_lt inside).trans second.symm)
  have free : (s.after (ask j)).pool.slot nr = .free := by
    refine (swept.slot_eq nr).trans ?_
    change (s.pool.slot nr).swept = _
    rw [stale]
    rfl
  have ahead : (s.after (ask j)).pool.ahead? = some nr := by
    rw [← cursor] at free second ⊢
    exact Pool.ahead?_of_free (second.symm ▸ Nat.one_ne_zero) free
  obtain ⟨o', ends', -, events'⟩ := run_ask swept.consistent (j + 1)
  obtain ⟨binds, -⟩ := ends'.of_ahead
    (fun other bound => unbound (j + 1) (Nat.le_succ j) small other
      (Slot.frame?_of_swept ((congrArg Slot.frame? (swept.slot_eq other)).symm.trans bound)))
    ((Nat.mod_le _ _).trans_lt narrow) ahead
  have place : (s.after (ask j)).pool.address nr = s.pool.address nr :=
    Pool.address_eq swept.base_eq nr
  rw [place] at binds
  have cleared : .cleared (s.pool.address nr) ∈ s.pool.clearings := by
    refine List.mem_flatMap.mpr ⟨nr, List.mem_finRange nr, ?_⟩
    rw [Pool.clearing, stale]
    exact List.mem_singleton_self _
  obtain ⟨before, between, split⟩ := List.append_of_mem cleared
  refine ⟨before, between, [.bound (.ofNumber (j + 1)) nr (s.pool.address nr)],
    .ofNumber (j + 1), ?_⟩
  change s.emitted (ask j) ++ ((s.after (ask j)).emitted (ask (j + 1)) ++ []) = _
  rw [events, events', clears, binds, split, List.append_assoc]
  rfl

/-- The only holder of a filled slot leaves: the slot turns stale. -/
theorem release_filled (consistent : s.pool.Consistent) (filled : s.pool.Filled first k)
    {nr : Fin n} (behind : first ≤ nr.val) (inside : nr.val < k) :
    (s.after (.release (s.pool.address nr))).pool =
      (s.pool.withSlot nr (.stale (.ofNumber nr.val))).notified := by
  have held : s.pool.slot nr = .held (.ofNumber nr.val) .one :=
    (filled.slot_eq nr).trans (if_pos ⟨behind, inside⟩)
  have given : s.gives? (.release (s.pool.address nr)) = some (s.pool.address nr) := rfl
  obtain ⟨ending, p, es, -, ends, -, left, -⟩ := reply_of_gives consistent given
  exact left.trans (ends.of_one consistent held)

/-- Where the window has no end and more than one slot, a run of a new pool binds a slot
again that a pass turned free. -/
theorem exists_rebound {size : Pool.Size n} {base : VirtAddr} {pool : Pool n n}
    (created : Pool.create size base = .ok pool) (beyond : ¬ pool.Reaches) (several : 1 < n)
    (direct : DirectMap) :
    ∃ moves before va between f after, (start direct pool).trace moves =
      before ++ .cleared va :: (between ++ .mapped va f :: after) := by
  have fresh := Pool.consistent_of_create created
  have begun : ((start direct pool).after (ask 0)).pool.Filled 1 1 :=
    filled_one fresh beyond (Pool.filled_of_create created 1)
  let s := (start direct pool).afterAll (asks n)
  have consistent : s.pool.Consistent := consistent_afterAll (s := start direct pool) fresh _
  obtain ⟨full, -⟩ : s.pool.Filled 1 n ∧ _ :=
    filled_asks (s := start direct pool) fresh begun (Nat.le_refl 1) (Nat.zero_lt_of_lt several)
      (Nat.le_refl n)
  let nr : Fin n := ⟨1, several⟩
  let va := s.pool.address nr
  have stale : (s.after (.release va)).pool =
      (s.pool.withSlot nr (.stale (.ofNumber 1))).notified :=
    release_filled consistent full (Nat.le_refl 1) several
  have consistent' : (s.after (.release va)).pool.Consistent :=
    consistent_afterAll consistent [.release va]
  have beyond' : ¬ (s.after (.release va)).pool.Reaches := by
    rw [stale]
    exact beyond_afterAll (s := start direct pool) fresh beyond (asks n)
  have room := pool.fits
  have unbound : ∀ i, n ≤ i → i < frameCount → ∀ other,
      ((s.after (.release va)).pool.slot other).frame? ≠ some (.ofNumber i) := by
    intro i above small other
    have same : (Slot.stale (.ofNumber 1)).frame? = (s.pool.slot nr).frame? := by
      rw [full.slot_eq, if_pos ⟨Nat.le_refl 1, several⟩]
      rfl
    rw [stale]
    change ((s.pool.withSlot nr _).slot other).frame? ≠ _
    rw [Pool.frame?_withSlot same]
    exact full.unbound above small other
  have start' : (s.after (.release va)).pool.cursor.val = 0 := by
    rw [stale]
    exact full.cursor_eq.trans (Nat.mod_self n)
  have slot : (s.after (.release va)).pool.slot nr = .stale (.ofNumber 1) := by
    rw [stale]
    exact Pool.slot_withSlot_self _ _ _
  have place : (s.after (.release va)).pool.address nr = va := by
    rw [stale]
    rfl
  have narrow : n + 1 < 1 <<< 40 := (Nat.succ_le_succ room).trans_lt (by decide)
  obtain ⟨before, between, after, f, again⟩ :=
    rebound_of_stale consistent' beyond' start' rfl slot narrow unbound
  rw [place] at again
  refine ⟨asks n ++ [.release va, ask n, ask (n + 1)],
    (start direct pool).trace (asks n) ++ s.emitted (.release va) ++ before, va, between, f,
    after, ?_⟩
  rw [trace_append]
  change _ ++ (s.emitted (.release va) ++ (s.after (.release va)).trace [ask n, ask (n + 1)]) = _
  rw [again, List.append_assoc, List.append_assoc]

end Session

end Highmem
