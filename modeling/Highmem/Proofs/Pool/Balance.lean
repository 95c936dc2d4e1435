import Highmem.Proofs.Pool.Attempt
import Highmem.Proofs.Pool.Release
import Highmem.Proofs.Sync.Tickets

/-!
# Idle slots and waiting callers

The slots that nobody holds are there for the callers that were let in. Each critical
section changes the number of both, and the credit of its events tells by how much the
slots gain on those callers: one for a caller that resumes and will not claim a slot
any more, minus one for a slot that is taken, and minus one for a caller that is let in
because a pass freed more slots than its own caller needs. The last holder of a slot
makes it idle and lets a caller in for it, which is no gain.
-/

namespace Highmem

open Sync

/-- What an event adds to the idle slots, less what it adds to the claims on them. -/
def Event.credit : Event → Int
  | .woken _ => 1
  | .bound _ _ _ => -1
  | .shared _ _ state => if state.holders = 1 then -1 else 0
  | .swept freed => if 1 < freed then -1 else 0
  | _ => 0

/-- Whether an event tells that a caller goes to sleep. -/
def Event.isBusy : Event → Bool
  | .busy _ _ => true
  | _ => false

def credit : List Event → Int
  | [] => 0
  | e :: es => e.credit + credit es

theorem credit_append (es es' : List Event) : credit (es ++ es') = credit es + credit es' := by
  induction es with
  | nil => exact (Int.zero_add _).symm
  | cons e es ih =>
      change e.credit + credit (es ++ es') = e.credit + credit es + credit es'
      rw [ih, Int.add_assoc]

theorem credit_singleton (e : Event) : credit [e] = e.credit := Int.add_zero _

/-- Events that all have no credit have none together. -/
theorem credit_eq_zero {es : List Event} (none : ∀ e ∈ es, e.credit = 0) : credit es = 0 := by
  induction es with
  | nil => rfl
  | cons e es ih =>
      change e.credit + credit es = 0
      rw [none e List.mem_cons_self, ih fun e mem => none e (List.mem_cons_of_mem _ mem),
        Int.add_zero]

/-- With a holder more there are several. -/
theorem Holders.one_lt_more (h : Holders) : 1 < h.more.toNat := by
  have pos := h.inRange.1
  by_cases fits : h.toNat + 1 < wordCount
  · rw [toNat_more fits]
    omega
  · have large : 2 < wordCount := by decide
    rw [more, dif_neg fits]
    omega

namespace Pool

variable {n c : Nat} {p q : Pool n c} {f : Frame} {es : List Event}

/-- How many slots nobody holds. -/
def idle (p : Pool n c) : Nat := tally fun nr => !(p.slot nr).isHeld

theorem idle_eq_zero_iff : p.idle = 0 ↔ ∀ nr, (p.slot nr).isHeld = true := by
  rw [idle, tally_eq_zero_iff]
  exact forall_congr' fun nr => by rw [Bool.not_eq_false']

theorem idle_congr (same : ∀ nr, (q.slot nr).isHeld = (p.slot nr).isHeld) : q.idle = p.idle :=
  tally_congr fun nr => by rw [same]

/-- A slot that stays held, or stays idle, leaves the count alone. -/
theorem idle_withSlot {nr : Fin n} {s : Slot} (same : s.isHeld = (p.slot nr).isHeld) :
    (p.withSlot nr s).idle = p.idle := by
  refine idle_congr ?_
  intro other
  rw [slot_withSlot]
  split
  · rename_i here
    rw [here, same]
  · rfl

/-- A slot that becomes held is no longer idle. -/
theorem idle_succ (nr : Fin n) (before : (p.slot nr).isHeld = false)
    (after : (q.slot nr).isHeld = true)
    (others : ∀ other, other ≠ nr → (q.slot other).isHeld = (p.slot other).isHeld) :
    p.idle = q.idle + 1 := by
  refine tally_succ nr ?_ ?_ fun other apart => ?_
  · rw [after]
    rfl
  · rw [before]
    rfl
  · rw [others other apart]

theorem credit_clearings (p : Pool n c) (l : List (Fin n)) : credit (l.flatMap p.clearing) = 0 := by
  refine credit_eq_zero fun e mem => ?_
  obtain ⟨va, rfl⟩ := eq_cleared_of_mem mem
  rfl

/-- A pass lets a caller in exactly if its events say so. -/
theorem Passes.credit_eq {o : Outcome (Pool n c) Nat} (pass : p.Passes o) :
    credit o.events = match o.result with
      | .ok freed => if 1 < freed then -1 else 0
      | .error _ => 0 := by
  cases pass with
  | complete =>
      change credit (p.clearings ++ ([p.flushed] ++ [.swept p.staleCount])) = _
      rw [credit_append, credit_append, clearings, credit_clearings, credit_singleton,
        credit_singleton]
      simp [Event.credit, flushed]
  | uncounted =>
      rw [credit_append, clearings, credit_clearings]
      rfl
  | unreachable => exact credit_clearings p _

theorem Passes.credit_letIn {freed : Nat} (pass : p.Passes ⟨.ok freed, q, es⟩)
    (waits : 0 < (q.letIn freed).tickets.waiting) :
    ((q.letIn freed).tickets.waiting : Int) = p.tickets.waiting + credit es := by
  have credits : credit es = if 1 < freed then -1 else 0 := pass.credit_eq
  have tickets : q.tickets = p.tickets := pass.swept.tickets_eq
  rw [tickets_letIn, tickets] at waits ⊢
  rw [credits]
  by_cases surplus : 1 < freed
  · rw [if_pos surplus, Tickets.waiting_notifyOne] at waits ⊢
    rw [if_pos surplus]
    omega
  · rw [if_neg surplus] at waits ⊢
    rw [if_neg surplus]
    omega

namespace Search

variable {found : Option (Fin n)}

theorem tickets_eq (search : p.Search found q es) :
    q.tickets = p.tickets ∨ q.tickets = p.tickets.notifyOne.2 := by
  obtain ⟨nr, rfl, rfl⟩ | ⟨r, nr, pass, rfl⟩ := search.passes
  · exact Or.inl rfl
  · have tickets : r.tickets = p.tickets := pass.swept.tickets_eq
    change (r.letIn p.staleCount).tickets = _ ∨ (r.letIn p.staleCount).tickets = _
    rw [tickets_letIn, tickets]
    split
    · exact Or.inr rfl
    · exact Or.inl rfl

theorem waiting_le (search : p.Search found q es) : q.tickets.waiting ≤ p.tickets.waiting := by
  rcases search.tickets_eq with same | served
  · rw [same]
  · rw [served, Tickets.waiting_notifyOne]
    exact Nat.sub_le _ _

theorem waiting_eq (search : p.Search found q es) (waits : 0 < q.tickets.waiting) :
    (q.tickets.waiting : Int) = p.tickets.waiting + credit es := by
  obtain ⟨nr, rfl, rfl⟩ | ⟨r, nr, pass, rfl⟩ := search.passes
  · exact (Int.add_zero _).symm
  · exact pass.credit_letIn waits

theorem idle_eq (search : p.Search found q es) : q.idle = p.idle := idle_congr search.isHeld_eq

end Search

/-- A holder more on a slot that was held already, or the first one on a stale slot. -/
theorem idle_share {nr : Fin n} {s : Slot} (shared : (p.slot nr).share? = some s) :
    ((p.withSlot nr s).idle : Int) = p.idle + (Event.shared f nr s).credit := by
  cases state : p.slot nr with
  | free =>
      rw [state] at shared
      cases shared
  | stale g =>
      rw [state] at shared
      cases shared
      have taken : p.idle = (p.withSlot nr (.held g .one)).idle + 1 := by
        refine idle_succ nr ?_ ?_ fun other apart => ?_
        · rw [state]
          rfl
        · rw [slot_withSlot_self]
          rfl
        · rw [slot_withSlot, if_neg apart]
      have credit : (Event.shared f nr (.held g .one)).credit = -1 := rfl
      omega
  | held g holders =>
      rw [state] at shared
      cases shared
      have kept : (p.withSlot nr (.held g holders.more)).idle = p.idle :=
        idle_withSlot (by rw [state]; rfl)
      have credit : (Event.shared f nr (.held g holders.more)).credit = 0 :=
        if_neg (Nat.ne_of_gt holders.one_lt_more)
      rw [kept, credit, Int.add_zero]

/-- Only a caller that goes to sleep waits. -/
theorem Attempts.waiting_le {o : Outcome (Pool n c) Grant} (ends : p.Attempts f o)
    (returned : ∀ ticket, o.result ≠ .ok (.parked ticket)) :
    o.state.tickets.waiting ≤ p.tickets.waiting := by
  cases ends with
  | shared => exact Nat.le_refl _
  | bound _ search _ becomes =>
      rw [becomes.elsewhere.tickets_eq]
      exact search.waiting_le
  | parked => exact absurd rfl (returned _)
  | tooWide _ search => exact search.waiting_le
  | aborted _ _ pass =>
      rw [pass.swept.tickets_eq]
      exact Nat.le_refl _

/-- A request that returns while callers wait: what the slots gain on the callers that
were let in is the credit of its events. -/
theorem Attempts.balance {o : Outcome (Pool n c) Grant} (ends : p.Attempts f o)
    (returned : ∀ ticket, o.result ≠ .ok (.parked ticket))
    (waits : 0 < o.state.tickets.waiting) :
    (o.state.idle : Int) + o.state.tickets.waiting =
      p.idle + p.tickets.waiting + credit o.events := by
  cases ends with
  | @shared nr s _ shared =>
      have idle := idle_share (f := f) shared
      rw [credit_singleton]
      change ((p.withSlot nr s).idle : Int) + p.tickets.waiting = _
      omega
  | @bound nr q r es _ search _ becomes =>
      have taken : q.idle = r.idle + 1 := by
        refine idle_succ nr ?_ ?_ fun other apart => ?_
        · rw [search.free]
          rfl
        · rw [becomes.slot_eq, if_pos rfl]
          rfl
        · rw [becomes.slot_eq, if_neg apart]
      change 0 < r.tickets.waiting at waits
      rw [becomes.elsewhere.tickets_eq] at waits
      have waiting := search.waiting_eq waits
      have idle := search.idle_eq
      rw [credit_append]
      change (r.idle : Int) + r.tickets.waiting = p.idle + p.tickets.waiting + (credit es + -1)
      rw [becomes.elsewhere.tickets_eq]
      omega
  | parked => exact absurd rfl (returned _)
  | @tooWide nr q es _ search =>
      have waiting := search.waiting_eq waits
      have idle := search.idle_eq
      change (q.idle : Int) + q.tickets.waiting = p.idle + p.tickets.waiting + credit es
      omega
  | @aborted fault q es _ _ pass =>
      have tickets : q.tickets = p.tickets := pass.swept.tickets_eq
      have idle : q.idle = p.idle := idle_congr fun nr => by
        rw [pass.swept.slot_eq, Slot.isHeld_swept]
        rfl
      have credits : credit es = 0 := pass.credit_eq
      change (q.idle : Int) + q.tickets.waiting = p.idle + p.tickets.waiting + credit es
      rw [tickets, idle, credits, Int.add_zero]

theorem Passes.any_isBusy {o : Outcome (Pool n c) Nat} (pass : p.Passes o) :
    o.events.any Event.isBusy = false := by
  have clears : p.clearings.any Event.isBusy = false := by
    refine List.any_eq_false.mpr fun e mem => ?_
    obtain ⟨va, rfl⟩ := eq_cleared_of_mem mem
    exact Bool.false_ne_true
  cases pass with
  | complete => exact List.any_append.trans (by rw [clears]; rfl)
  | uncounted => exact List.any_append.trans (by rw [clears]; rfl)
  | unreachable => exact clears

theorem Search.any_isBusy {found : Option (Fin n)} (search : p.Search found q es) :
    es.any Event.isBusy = false := by
  obtain ⟨nr, rfl, rfl⟩ | ⟨r, nr, pass, rfl⟩ := search.passes
  · rfl
  · exact pass.any_isBusy

/-- A request that puts its caller to sleep says so. -/
theorem Attempts.any_isBusy_iff {o : Outcome (Pool n c) Grant} (ends : p.Attempts f o) :
    o.events.any Event.isBusy = true ↔ ∃ ticket, o.result = .ok (.parked ticket) := by
  cases ends with
  | shared => exact iff_of_false Bool.false_ne_true nofun
  | bound _ search =>
      refine iff_of_false ?_ nofun
      rw [List.any_append, search.any_isBusy]
      exact Bool.false_ne_true
  | parked _ search =>
      refine iff_of_true ?_ ⟨_, rfl⟩
      rw [List.any_append]
      exact Bool.or_true _
  | tooWide _ search =>
      refine iff_of_false ?_ nofun
      rw [search.any_isBusy]
      exact Bool.false_ne_true
  | aborted _ _ pass => exact iff_of_false (by rw [pass.any_isBusy]; exact Bool.false_ne_true) nofun

/-- A caller goes to sleep only when every slot is held. -/
theorem Attempts.idle_of_parked {o : Outcome (Pool n c) Grant} (ends : p.Attempts f o)
    {ticket : Ticket} (parked : o.result = .ok (.parked ticket)) : o.state.idle = 0 := by
  cases ends with
  | shared => cases parked
  | bound => cases parked
  | @parked q es _ search =>
      refine idle_eq_zero_iff.mpr fun nr => ?_
      exact (search.isHeld_eq nr).trans (search.isHeld_of_none nr)
  | tooWide => cases parked
  | aborted => cases parked

theorem Releases.waiting_le {va : VirtAddr} {o : Outcome (Pool n c) (Except ReleaseError Unit)}
    (ends : p.Releases va o) : o.state.tickets.waiting ≤ p.tickets.waiting := by
  cases ends with
  | unknown => exact Nat.le_refl _
  | unheld => exact Nat.le_refl _
  | fewer => exact Nat.le_refl _
  | last =>
      change p.tickets.notifyOne.2.waiting ≤ _
      rw [Tickets.waiting_notifyOne]
      exact Nat.sub_le _ _

theorem Releases.any_isBusy {va : VirtAddr} {o : Outcome (Pool n c) (Except ReleaseError Unit)}
    (ends : p.Releases va o) : o.events.any Event.isBusy = false := by
  cases ends <;> rfl

/-- The last holder of a slot lets a caller in for the slot that becomes idle. -/
theorem Releases.balance {va : VirtAddr} {o : Outcome (Pool n c) (Except ReleaseError Unit)}
    (ends : p.Releases va o) (waits : 0 < o.state.tickets.waiting) :
    (o.state.idle : Int) + o.state.tickets.waiting =
      p.idle + p.tickets.waiting + credit o.events := by
  cases ends with
  | unknown => exact (Int.add_zero _).symm
  | unheld => exact (Int.add_zero _).symm
  | @fewer nr f before after _ held =>
      have idle : (p.withSlot nr (.held f after)).idle = p.idle :=
        idle_withSlot (by rw [held]; rfl)
      change ((p.withSlot nr (.held f after)).idle : Int) + p.tickets.waiting = _ + 0
      rw [idle, Int.add_zero]
  | @last nr f before _ held =>
      have idle : (p.withSlot nr (.stale f)).idle = p.idle + 1 := by
        refine idle_succ nr ?_ ?_ fun other apart => ?_
        · rw [slot_withSlot_self]
          rfl
        · rw [held]
          rfl
        · rw [slot_withSlot, if_neg apart]
      change 0 < p.tickets.notifyOne.2.waiting at waits
      change ((p.withSlot nr (.stale f)).idle : Int) + p.tickets.notifyOne.2.waiting = _ + 0
      rw [Tickets.waiting_notifyOne] at waits ⊢
      omega

end Pool

end Highmem
