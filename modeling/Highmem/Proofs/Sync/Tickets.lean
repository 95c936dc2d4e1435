import Highmem.Sync.Tickets
import Highmem.Word

/-!
# Ages of tickets

The age of a ticket is the number of draws since it was drawn, that draw included. The
tickets that wait are the youngest ones. While no ticket that somebody still asks about
is `horizon` draws old, the signed comparison of the two counters tells the served
tickets from the waiting ones, also after the counters have wrapped.
-/

namespace Highmem.Sync.Tickets

variable {t : Tickets} {x : Ticket}

/-- Draws since a ticket was drawn, including its own. -/
def age (t : Tickets) (x : Ticket) : Nat := (t.next - x).toNat

/-- Distances from here on count as negative. -/
def horizon : Nat := 0x8000000000000000

theorem age_eq (t : Tickets) (x : Ticket) :
    t.age x = (wordCount - x.toNat + t.next.toNat) % wordCount := UInt64.toNat_sub _ _

theorem waiting_eq (t : Tickets) :
    t.waiting = (wordCount - t.served.toNat + t.next.toNat) % wordCount := UInt64.toNat_sub _ _

/-- A ticket has been served exactly if it is older than all that wait. -/
theorem isServed_iff (young : t.age x < horizon) (few : t.waiting < horizon) :
    t.isServed x = true ↔ t.waiting < t.age x := by
  have distance : (t.served - x).toNat = (wordCount - x.toNat + t.served.toNat) % wordCount :=
    UInt64.toNat_sub _ _
  have hx := x.toNat_lt
  have hserved := t.served.toNat_lt
  have hnext := t.next.toNat_lt
  rw [age_eq] at young ⊢
  rw [waiting_eq] at few ⊢
  rw [isServed, Bool.and_eq_true, decide_eq_true_iff, decide_eq_true_iff, distance]
  unfold horizon wordCount at *
  omega

theorem age_draw (young : t.age x < horizon) : t.draw.2.age x = t.age x + 1 := by
  have next : t.draw.2.next.toNat = (t.next.toNat + 1) % wordCount := UInt64.toNat_add _ _
  have hx := x.toNat_lt
  have hnext := t.next.toNat_lt
  rw [age_eq] at young
  rw [age_eq, age_eq, next]
  unfold horizon wordCount at *
  omega

/-- A ticket that has just been drawn. -/
theorem age_draw_self (t : Tickets) : t.draw.2.age t.draw.1 = 1 := by
  have next : t.draw.2.next.toNat = (t.next.toNat + 1) % wordCount := UInt64.toNat_add _ _
  have hnext := t.next.toNat_lt
  rw [age_eq, next]
  change (wordCount - t.next.toNat + _) % wordCount = 1
  unfold wordCount
  omega

theorem waiting_draw (few : t.waiting < horizon) : t.draw.2.waiting = t.waiting + 1 :=
  age_draw (x := t.served) few

theorem age_notifyOne (t : Tickets) (x : Ticket) : t.notifyOne.2.age x = t.age x := by
  unfold notifyOne
  split <;> rfl

theorem waiting_notifyOne (t : Tickets) : t.notifyOne.2.waiting = t.waiting - 1 := by
  have hserved := t.served.toNat_lt
  have hnext := t.next.toNat_lt
  by_cases same : t.served = t.next
  · have idle : t.notifyOne.2 = t := by rw [notifyOne, if_pos same]
    rw [idle, waiting_eq, same]
    unfold wordCount
    omega
  · have served : t.notifyOne.2 = { t with served := t.served + 1 } := by
      rw [notifyOne, if_neg same]
    have more : (t.served + 1).toNat = (t.served.toNat + 1) % wordCount := UInt64.toNat_add _ _
    have apart : t.served.toNat ≠ t.next.toNat := mt UInt64.toNat_inj.mp same
    rw [served, waiting_eq, waiting_eq]
    change (wordCount - (t.served + 1).toNat + t.next.toNat) % wordCount = _
    rw [more]
    unfold wordCount
    omega

end Highmem.Sync.Tickets
