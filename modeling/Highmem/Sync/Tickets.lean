/-!
# Tickets

Callers that wait draw numbered tickets, and tickets are served in the order in
which they were drawn. Two 64-bit counters say everything: the number of the
next ticket, and the number of the first ticket that has not been served. Both
wrap, so tickets are compared by their signed distance.

Drawing and serving happen under the lock of the queue. A notification without
a waiting caller changes nothing, so it is not remembered.
-/

namespace Highmem.Sync

/-- The number of a ticket. -/
abbrev Ticket := UInt64

/-- The two counters of a queue. -/
@[ext] structure Tickets where
  /-- The ticket to be drawn next. -/
  next : Ticket
  /-- The ticket to be served next. -/
  served : Ticket
  deriving DecidableEq

namespace Tickets

def empty : Tickets := ⟨0, 0⟩

def draw (t : Tickets) : Ticket × Tickets := (t.next, { t with next := t.next + 1 })

/-- How many tickets were drawn and not served. -/
def waiting (t : Tickets) : Nat := (t.next - t.served).toNat

/-- Serve the oldest ticket, if there is one. -/
def notifyOne (t : Tickets) : Bool × Tickets :=
  if t.served = t.next then (false, t) else (true, { t with served := t.served + 1 })

/-- Serve all tickets, and answer how many there were. -/
def notifyAll (t : Tickets) : Nat × Tickets := (t.waiting, { t with served := t.next })

/-- Whether a ticket has been served: the first unserved ticket is ahead of it by
a distance that is positive as a signed number. -/
def isServed (t : Tickets) (ticket : Ticket) : Bool :=
  0 < (t.served - ticket).toNat && (t.served - ticket).toNat < 0x8000000000000000

theorem waiting_empty : empty.waiting = 0 := rfl

/-- A caller is let in exactly when the counters differ. -/
theorem notifyOne_fst_iff {t : Tickets} : t.notifyOne.1 = true ↔ t.served ≠ t.next := by
  unfold notifyOne
  split <;> simp_all

/-- After all tickets were served nobody waits. -/
theorem waiting_notifyAll (t : Tickets) : t.notifyAll.2.waiting = 0 := by
  simp [notifyAll, waiting]

end Tickets

end Highmem.Sync
