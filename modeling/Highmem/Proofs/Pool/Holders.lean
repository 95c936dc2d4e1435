import Highmem.Proofs.Pool.Holding
import Mathlib.Algebra.Order.BigOperators.Group.Finset

/-!
# Counting holders

How many holders a frame has in a pool, and how that number follows the notes: a grant of
the frame adds one, a release of an address that the frame is bound to takes one away.
The totals of a pool can be calculated as long as a word can count all holders.
-/

namespace Highmem

instance : Fintype Frame :=
  Fintype.ofEquiv (Fin frameCount) ⟨fun i => ⟨i.val, i.isLt⟩, fun f => ⟨f.number, f.isLt⟩,
    fun _ => rfl, fun _ => rfl⟩

namespace Note

def grants (f : Frame) : Note → Bool
  | granted g _ => g = f
  | released _ _ => false

/-- Whether an address was given back while it was bound to a frame. -/
def releases (f : Frame) : Note → Bool
  | granted _ _ => false
  | released _ f? => f? = some f

theorem countP_grants (f g : Frame) (va : VirtAddr) :
    [granted g va].countP (grants f) = if g = f then 1 else 0 := by
  rw [List.countP_singleton, grants]
  simp only [decide_eq_true_eq]

theorem countP_releases (f g : Frame) (va : VirtAddr) :
    [released va (some g)].countP (releases f) = if g = f then 1 else 0 := by
  rw [List.countP_singleton, releases]
  simp only [decide_eq_true_eq, Option.some.injEq]

end Note

namespace Slot

/-- The number of holders that a slot has for a frame. -/
def holdersOf (f : Frame) (s : Slot) : Nat :=
  match s.hold? with
  | some (g, k) => if g = f then k else 0
  | none => 0

theorem holdersOf_of_hold? {s : Slot} {f g : Frame} {k : Nat} (hold : s.hold? = some (g, k)) :
    s.holdersOf f = if g = f then k else 0 := by
  rw [holdersOf, hold]

theorem holdersOf_of_idle {s : Slot} {f : Frame} (idle : s.hold? = none) : s.holdersOf f = 0 := by
  rw [holdersOf, idle]

theorem holdersOf_congr {s t : Slot} {f : Frame} (same : t.hold? = s.hold?) :
    t.holdersOf f = s.holdersOf f := by
  rw [holdersOf, holdersOf, same]

theorem holdersOf_of_frame? {s : Slot} {f : Frame} (bound : s.frame? = some f) :
    s.holdersOf f = s.holders := by
  cases s with
  | free => cases bound
  | stale g => rfl
  | held g holders =>
      cases bound
      exact if_pos rfl

theorem holdersOf_eq_zero {s : Slot} {f : Frame} (unbound : s.frame? ≠ some f) :
    s.holdersOf f = 0 := by
  cases s with
  | free => rfl
  | stale g => rfl
  | held g holders => exact if_neg fun same => unbound (congrArg some same)

/-- All holders of a slot are holders for its frame. -/
theorem sum_holdersOf (s : Slot) : ∑ f, s.holdersOf f = s.holders := by
  cases s with
  | free => exact Finset.sum_const_zero
  | stale g => exact Finset.sum_const_zero
  | held g holders =>
      exact (Finset.sum_ite_eq Finset.univ g fun _ => holders.toNat).trans
        (if_pos (Finset.mem_univ g))

/-- A slot is in one of three states. -/
theorem countP_states (slots : List Slot) :
    slots.countP isFree + slots.countP isStale + slots.countP isHeld = slots.length := by
  induction slots with
  | nil => rfl
  | cons s rest ih =>
      rw [List.countP_cons, List.countP_cons, List.countP_cons, List.length_cons]
      cases s <;> simp only [isFree, isStale, isHeld, if_true, Bool.false_eq_true, if_false] <;>
        omega

end Slot

/-- One slot more in the totals. -/
theorem Stats.enter_eq {before : Stats} (slot : Slot)
    (fits : before.holders + slot.holders < wordCount) :
    before.enter slot = .ok
      { before with
        free := before.free + if slot.isFree then 1 else 0
        stale := before.stale + if slot.isStale then 1 else 0
        held := before.held + if slot.isHeld then 1 else 0
        holders := before.holders + slot.holders } := by
  cases slot with
  | free => rfl
  | stale g => rfl
  | held g holders =>
      have sum : Word.add before.holders holders.toNat = .ok (before.holders + holders.toNat) :=
        if_pos fits
      simp only [enter, sum]
      rfl

/-- The totals can be calculated while a word counts all holders. -/
theorem Stats.enterAll_eq {before : Stats} {slots : List Slot}
    (fits : before.holders + (slots.map Slot.holders).sum < wordCount) :
    before.enterAll slots = .ok
      { before with
        free := before.free + slots.countP Slot.isFree
        stale := before.stale + slots.countP Slot.isStale
        held := before.held + slots.countP Slot.isHeld
        holders := before.holders + (slots.map Slot.holders).sum } := by
  induction slots generalizing before with
  | nil => rfl
  | cons slot rest ih =>
      rw [List.map_cons, List.sum_cons, ← Nat.add_assoc] at fits
      rw [enterAll, enter_eq slot (Nat.lt_of_le_of_lt (Nat.le_add_right _ _) fits)]
      refine (ih fits).trans ?_
      simp only [List.countP_cons, List.map_cons, List.sum_cons]
      congr 2 <;> omega

namespace Pool

variable {n c : Nat} {p q : Pool n c} {nr : Fin n} {f : Frame} {js : List Note}

/-- The number of holders that a pool has for a frame. -/
def holdersOf (p : Pool n c) (f : Frame) : Nat := ∑ nr, (p.slot nr).holdersOf f

def holders (p : Pool n c) : Nat := ∑ nr, (p.slot nr).holders

/-- The holders of a frame are those of its slot. -/
theorem Consistent.holdersOf_eq (consistent : p.Consistent) (bound : (p.slot nr).frame? = some f) :
    p.holdersOf f = (p.slot nr).holders := by
  rw [← Slot.holdersOf_of_frame? bound]
  apply Finset.sum_eq_single_of_mem nr (Finset.mem_univ nr)
  intro other _ apart
  apply Slot.holdersOf_eq_zero
  intro bound'
  exact apart (consistent.eq_of_bound bound' bound)

theorem holdersOf_eq_zero (unbound : ∀ nr, (p.slot nr).frame? ≠ some f) : p.holdersOf f = 0 :=
  Finset.sum_eq_zero fun nr _ => Slot.holdersOf_eq_zero (unbound nr)

/-- Every holder is a holder for some frame. -/
theorem sum_holdersOf (p : Pool n c) : ∑ f, p.holdersOf f = p.holders := by
  unfold holdersOf holders
  rw [Finset.sum_comm]
  exact Finset.sum_congr rfl fun nr _ => (p.slot nr).sum_holdersOf

/-- The totals of a pool, while a word counts all its holders. -/
theorem stats_eq (fits : p.holders < wordCount) :
    ∃ stats, p.stats = .ok stats ∧ stats.free + stats.stale + stats.held = n ∧
      stats.holders = p.holders ∧ stats.waiting = p.tickets.waiting := by
  have sum : (p.slots.toList.map Slot.holders).sum = p.holders := sum_toList _ _
  have states := Slot.countP_states p.slots.toList
  rw [Vector.length_toList] at states
  refine ⟨_, Stats.enterAll_eq ?_, ?_, ?_, rfl⟩
  · rw [sum]
    exact (Nat.zero_add _).trans_lt fits
  · simpa [Stats.zero] using states
  · simpa [Stats.zero] using sum

/-- A slot has no more holders than there are. -/
theorem le_holders {k : Nat} (hold : (p.slot nr).hold? = some (f, k)) : k ≤ p.holders := by
  obtain ⟨holders, held, rfl⟩ := Slot.hold?_eq_some_iff.mp hold
  have part := Finset.single_le_sum (f := fun nr => (p.slot nr).holders)
    (fun _ _ => Nat.zero_le _) (Finset.mem_univ nr)
  simp only [held] at part
  exact part

/-- A critical section changes the holders of a frame as its note says, while a word can
count one holder more than there are. -/
theorem Records.holdersOf (records : p.Records q js) (room : p.holders + 1 < wordCount)
    (f : Frame) :
    q.holdersOf f + js.countP (Note.releases f) = p.holdersOf f + js.countP (Note.grants f) := by
  have exchange : ∀ nr, (∀ other, other ≠ nr → (q.slot other).hold? = (p.slot other).hold?) →
      q.holdersOf f + (p.slot nr).holdersOf f = p.holdersOf f + (q.slot nr).holdersOf f :=
    fun nr others => sum_exchange nr fun other apart => Slot.holdersOf_congr (others other apart)
  cases records with
  | nothing same =>
      change q.holdersOf f = p.holdersOf f
      exact Finset.sum_congr rfl fun nr _ => Slot.holdersOf_congr (same nr)
  | @taken nr g idle hold others =>
      have change := exchange nr others
      rw [Slot.holdersOf_of_idle idle, Slot.holdersOf_of_hold? hold] at change
      rw [Note.countP_grants]
      exact change
  | @joined nr g k k' hold hold' more others =>
      have change := exchange nr others
      have count := more (Nat.lt_of_le_of_lt (Nat.succ_le_succ (le_holders hold)) room)
      rw [Slot.holdersOf_of_hold? hold, Slot.holdersOf_of_hold? hold', count] at change
      rw [Note.countP_grants]
      change q.holdersOf f + 0 = _
      by_cases same : g = f
      · rw [if_pos same, if_pos same] at change
        rw [if_pos same]
        omega
      · rw [if_neg same, if_neg same] at change
        rw [if_neg same]
        omega
  | @left nr g k hold hold' others =>
      have change := exchange nr others
      have rest : (q.slot nr).holdersOf f = if g = f then k else 0 := by
        by_cases last : k = 0
        · rw [if_pos last] at hold'
          rw [Slot.holdersOf_of_idle hold', last, ite_self]
        · rw [if_neg last] at hold'
          exact Slot.holdersOf_of_hold? hold'
      rw [Slot.holdersOf_of_hold? hold, rest] at change
      rw [Note.countP_releases]
      change _ = p.holdersOf f + 0
      by_cases same : g = f
      · rw [if_pos same, if_pos same] at change
        rw [if_pos same]
        omega
      · rw [if_neg same, if_neg same] at change
        rw [if_neg same]
        omega

end Pool

end Highmem
