import Highmem.Proofs.Pool.Balance

/-!
# Callers let in and slots left for them

A critical section lets one caller in at most. The last holder of a slot leaves that slot
idle for it. A pass lets a caller in only if it has turned several slots free, so that one
is left when its own caller has taken another. A caller that goes to sleep found every
slot held, and its pass turned none free.
-/

namespace Highmem.Pool

open Sync

variable {n c : Nat} {p q : Pool n c} {f : Frame} {es : List Event}

/-- Stale slots are idle. -/
theorem staleCount_le_idle (p : Pool n c) : p.staleCount ≤ p.idle := by
  apply tally_mono
  intro nr stale
  obtain ⟨f, stale⟩ := Slot.exists_of_isStale stale
  rw [stale]
  rfl

/-- A search lets a caller in only if there is an idle slot for it besides the one that
its own caller takes. -/
theorem Search.surplus {found : Option (Fin n)} (search : p.Search found q es) :
    q.tickets = p.tickets ∨ q.tickets = p.tickets.notifyOne.2 ∧ 1 < p.idle := by
  obtain ⟨nr, rfl, rfl⟩ | ⟨r, nr, pass, rfl⟩ := search.passes
  · exact Or.inl rfl
  · have tickets : r.tickets = p.tickets := pass.swept.tickets_eq
    change (r.letIn p.staleCount).tickets = _ ∨ (r.letIn p.staleCount).tickets = _ ∧ _
    rw [tickets_letIn, tickets]
    split
    · rename_i surplus
      exact Or.inr ⟨rfl, Nat.lt_of_lt_of_le surplus p.staleCount_le_idle⟩
    · exact Or.inl rfl

/-- Where a slot is idle nobody goes to sleep. -/
theorem Attempts.not_parked {o : Outcome (Pool n c) Grant} (ends : p.Attempts f o)
    (idle : 0 < p.idle) (ticket : Ticket) : o.result ≠ .ok (.parked ticket) := by
  intro parked
  cases ends with
  | shared => cases parked
  | bound => cases parked
  | parked _ search =>
      have full : p.idle = 0 := idle_eq_zero_iff.mpr search.isHeld_of_none
      omega
  | tooWide => cases parked
  | aborted => cases parked

/-- A request that returns lets one caller in at most, and leaves an idle slot for it. -/
theorem Attempts.provides {o : Outcome (Pool n c) Grant} (ends : p.Attempts f o)
    (returned : ∀ ticket, o.result ≠ .ok (.parked ticket)) :
    p.tickets.waiting ≤ o.state.tickets.waiting + 1 ∧
      (o.state.tickets.waiting < p.tickets.waiting → 0 < o.state.idle) := by
  have searched : ∀ {found q es}, p.Search found q es →
      p.tickets.waiting ≤ q.tickets.waiting + 1 ∧
        (q.tickets.waiting < p.tickets.waiting → 1 < p.idle) := by
    intro found q es search
    rcases search.surplus with same | ⟨served, surplus⟩
    · rw [same]
      exact ⟨Nat.le_succ _, fun less => absurd less (Nat.lt_irrefl _)⟩
    · rw [served, Tickets.waiting_notifyOne]
      exact ⟨Nat.le_add_of_sub_le (Nat.le_refl _), fun _ => surplus⟩
  cases ends with
  | shared => exact ⟨Nat.le_succ _, fun less => absurd less (Nat.lt_irrefl _)⟩
  | @bound nr q r es _ search _ becomes =>
      obtain ⟨one, surplus⟩ := searched search
      have same := search.idle_eq
      -- of the slots that the search found idle, the request takes one
      have taken : q.idle = r.idle + 1 := by
        refine idle_succ nr ?_ ?_ fun other apart => ?_
        · rw [search.free]
          rfl
        · rw [becomes.slot_eq, if_pos rfl]
          rfl
        · rw [becomes.slot_eq, if_neg apart]
      change p.tickets.waiting ≤ r.tickets.waiting + 1 ∧ _
      rw [becomes.elsewhere.tickets_eq]
      refine ⟨one, fun less => ?_⟩
      change 0 < r.idle
      have several := surplus less
      omega
  | parked => exact absurd rfl (returned _)
  | tooWide _ search =>
      obtain ⟨one, surplus⟩ := searched search
      refine ⟨one, fun less => ?_⟩
      rw [search.idle_eq]
      exact Nat.zero_lt_of_lt (surplus less)
  | aborted _ _ pass =>
      have same := pass.swept.tickets_eq
      change _ = p.tickets at same
      rw [same]
      exact ⟨Nat.le_succ _, fun less => absurd less (Nat.lt_irrefl _)⟩

/-- A request that does not return leaves everybody else as they were. -/
theorem Attempts.waiting_of_parked {o : Outcome (Pool n c) Grant} (ends : p.Attempts f o)
    {ticket : Ticket} (parked : o.result = .ok (.parked ticket))
    (few : p.tickets.waiting < Tickets.horizon) :
    o.state.tickets.waiting = p.tickets.waiting + 1 := by
  cases ends with
  | shared => cases parked
  | bound => cases parked
  | @parked q es _ search =>
      have full : p.idle = 0 := idle_eq_zero_iff.mpr search.isHeld_of_none
      have same : q.tickets = p.tickets := by
        refine search.surplus.resolve_right ?_
        rintro ⟨-, surplus⟩
        omega
      change q.tickets.draw.2.waiting = _
      rw [same, Tickets.waiting_draw few]
  | tooWide => cases parked
  | aborted => cases parked

/-- The last holder of a slot lets one caller in at most, and leaves its slot to it. -/
theorem Releases.provides {va : VirtAddr} {o : Outcome (Pool n c) (Except ReleaseError Unit)}
    (ends : p.Releases va o) :
    p.tickets.waiting ≤ o.state.tickets.waiting + 1 ∧
      (o.state.tickets.waiting < p.tickets.waiting → 0 < o.state.idle) := by
  cases ends with
  | unknown => exact ⟨Nat.le_succ _, fun less => absurd less (Nat.lt_irrefl _)⟩
  | unheld => exact ⟨Nat.le_succ _, fun less => absurd less (Nat.lt_irrefl _)⟩
  | fewer => exact ⟨Nat.le_succ _, fun less => absurd less (Nat.lt_irrefl _)⟩
  | @last nr f before _ held =>
      constructor
      · change _ ≤ p.tickets.notifyOne.2.waiting + 1
        rw [Tickets.waiting_notifyOne]
        exact Nat.le_add_of_sub_le (Nat.le_refl _)
      · intro _
        refine Nat.pos_of_ne_zero fun full => ?_
        have here := idle_eq_zero_iff.mp full nr
        change ((p.withSlot nr (.stale f)).slot nr).isHeld = true at here
        rw [slot_withSlot_self] at here
        cases here

end Highmem.Pool
