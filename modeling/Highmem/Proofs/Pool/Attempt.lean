import Highmem.Proofs.Pool.Scan

/-!
# Requests for a frame

`Attempts` lists the ways in which the critical section of a caller that asks for a
frame can end. Each of them leaves a consistent pool. Two are faults: a frame number
that has no room in a page-table entry, found out when a slot has been chosen already,
and a pass that could not be completed.
-/

namespace Highmem.Pool

open Paging Sync

variable {n c : Nat} {p q r : Pool n c} {nr : Fin n} {f : Frame} {es : List Event}

theorem tickets_letIn (p : Pool n c) (freed : Nat) :
    (p.letIn freed).tickets = if 1 < freed then p.tickets.notifyOne.2 else p.tickets := by
  unfold letIn
  split <;> rfl

theorem base_letIn (p : Pool n c) (freed : Nat) : (p.letIn freed).base = p.base := by
  unfold letIn
  split <;> rfl

theorem Consistent.letIn (consistent : p.Consistent) (freed : Nat) :
    (p.letIn freed).Consistent := by
  unfold Pool.letIn
  split
  · exact consistent.notified
  · exact consistent

namespace Search

variable {found : Option (Fin n)}

/-- A search moves the cursor, with or without a pass before. -/
theorem passes (search : p.Search found q es) :
    (∃ nr, q = p.withCursor nr ∧ es = []) ∨
      ∃ r nr, p.entered.Passes ⟨.ok p.staleCount, r, es⟩ ∧
        q = (r.letIn p.staleCount).withCursor nr := by
  cases search with
  | ahead => exact Or.inl ⟨_, rfl, rfl⟩
  | around _ pass => exact Or.inr ⟨_, _, pass, rfl⟩
  | full _ pass => exact Or.inr ⟨_, _, pass, rfl⟩

theorem consistent (search : p.Search found q es) (before : p.Consistent) : q.Consistent := by
  obtain ⟨nr, rfl, rfl⟩ | ⟨r, nr, pass, rfl⟩ := search.passes
  · exact before.withCursor nr
  · exact (pass.swept.consistent.letIn _).withCursor nr

theorem base_eq (search : p.Search found q es) : q.base = p.base := by
  obtain ⟨nr, rfl, rfl⟩ | ⟨r, nr, pass, rfl⟩ := search.passes
  · rfl
  · exact (base_letIn r _).trans pass.swept.base_eq

/-- A search leaves the slots as they are or as a pass leaves them. -/
theorem slot_eq (search : p.Search found q es) :
    (∀ other, q.slot other = p.slot other) ∨ ∀ other, q.slot other = (p.slot other).swept := by
  obtain ⟨nr, rfl, rfl⟩ | ⟨r, nr, pass, rfl⟩ := search.passes
  · exact Or.inl fun _ => rfl
  · right
    intro other
    exact (slot_letIn r _ other).trans (pass.swept.slot_eq other)

theorem isHeld_eq (search : p.Search found q es) (other : Fin n) :
    (q.slot other).isHeld = (p.slot other).isHeld := by
  rcases search.slot_eq with same | swept
  · rw [same]
  · rw [swept, Slot.isHeld_swept]

/-- A search ends at a slot that is free by then. -/
theorem free (search : p.Search (some nr) q es) : q.slot nr = .free := by
  cases search with
  | ahead found =>
      unfold ahead? at found
      split at found
      · cases found
      · have vacant : p.freeAt nr = true := List.find?_some found
        exact Slot.isFree_iff.mp vacant
  | around _ pass found =>
      have idle : (p.slot nr).isHeld = false := by
        have := List.find?_some found
        simpa using this
      refine (slot_letIn _ _ nr).trans ((pass.swept.slot_eq nr).trans ?_)
      exact Slot.swept_eq_free idle

/-- A search without an end means that every slot is held. -/
theorem isHeld_of_none (search : p.Search none q es) (other : Fin n) :
    (p.slot other).isHeld = true := by
  cases search with
  | full _ _ found =>
      have held := List.find?_eq_none.mp found other (List.mem_finRange other)
      simpa using held

/-- A frame that has no slot does not get one by a search. -/
theorem unbound (search : p.Search found q es) (unbound : ∀ other, (p.slot other).frame? ≠ some f)
    (other : Fin n) : (q.slot other).frame? ≠ some f := by
  rcases search.slot_eq with same | swept
  · rw [same]
    exact unbound other
  · rw [swept]
    exact fun bound => unbound other (Slot.frame?_of_swept bound)

end Search

/-- The ways in which a caller's request for a frame can end. -/
inductive Attempts (p : Pool n c) (f : Frame) : Outcome (Pool n c) Grant → Prop
  | shared {nr : Fin n} {s : Slot} (bound : (p.slot nr).frame? = some f)
      (shared : (p.slot nr).share? = some s) :
      Attempts p f ⟨.ok (.granted (p.address nr)), p.withSlot nr s, [.shared f nr s]⟩
  | bound {nr : Fin n} {q r : Pool n c} {es : List Event}
      (unbound : ∀ other, (p.slot other).frame? ≠ some f) (search : p.Search (some nr) q es)
      (fits : f.number < 1 <<< 40)
      (becomes : q.Becomes (fun other => if other = nr then .held f .one else q.slot other) r) :
      Attempts p f ⟨.ok (.granted (p.address nr)), r,
        es ++ [.mapped (p.address nr) f, .bound f nr (p.address nr)]⟩
  | parked {q : Pool n c} {es : List Event}
      (unbound : ∀ other, (p.slot other).frame? ≠ some f) (search : p.Search none q es) :
      Attempts p f ⟨.ok (.parked q.tickets.draw.1), { q with tickets := q.tickets.draw.2 },
        es ++ [.busy n f]⟩
  | tooWide {nr : Fin n} {q : Pool n c} {es : List Event}
      (unbound : ∀ other, (p.slot other).frame? ≠ some f) (search : p.Search (some nr) q es)
      (wide : 1 <<< 40 ≤ f.number) : Attempts p f ⟨.error (.overflow (.field 40)), q, es⟩
  | aborted {fault : Fault} {q : Pool n c} {es : List Event}
      (unbound : ∀ other, (p.slot other).frame? ≠ some f) (nothing : p.ahead? = none)
      (pass : p.entered.Passes ⟨.error fault, q, es⟩) : Attempts p f ⟨.error fault, q, es⟩

/-- Every end of a request is one of those listed. -/
theorem Consistent.run_attempt (consistent : p.Consistent) (f : Frame) :
    p.Attempts f ((attempt f).run p) := by
  by_cases exists? : ∃ nr, (p.slot nr).frame? = some f
  · obtain ⟨nr, bound⟩ := exists?
    obtain ⟨s, shared, -, run⟩ := consistent.run_shareBound bound
    rw [attempt, Op.run_bind_ok run]
    exact .shared bound shared
  · have unbound := not_exists.mp exists?
    rw [attempt, Op.run_bind_ok (run_shareBound_unbound (consistent.get?_eq_none_iff.mpr unbound))]
    have scans := consistent.run_scan f
    cases result : (scan f).run p with
    | mk ending q es =>
      rw [result] at scans
      cases scans with
      | found search =>
          rename_i nr q es
          have here := search.consistent consistent
          have fresh := here.get?_eq_none_iff.mpr (search.unbound unbound)
          have address : q.address nr = p.address nr := address_eq search.base_eq nr
          rcases Nat.lt_or_ge f.number (1 <<< 40) with fits | wide
          · obtain ⟨r, bind, becomes⟩ := here.run_bindSlot search.free fresh fits
            rw [address] at bind
            have bound := Attempts.bound unbound search fits becomes
            simpa [result, grab, bind, Except.map] using bound
          · have bind := here.run_bindSlot_too_wide search.free wide
            have tooWide := Attempts.tooWide unbound search wide
            simpa [result, grab, bind, Except.map] using tooWide
      | full search =>
          have parked := Attempts.parked unbound search
          simpa [result, drawTicket, Except.map] using parked
      | aborted nothing pass =>
          rw [List.nil_append, Op.run_bind_error result]
          exact .aborted unbound nothing pass

/-- However a request ends, the pool stays consistent. -/
theorem Attempts.consistent {o : Outcome (Pool n c) Grant} (ends : p.Attempts f o)
    (before : p.Consistent) : o.state.Consistent := by
  cases ends with
  | shared _ shared => exact before.withSlot (Slot.frame?_of_share? shared)
  | bound _ _ _ becomes => exact becomes.consistent
  | parked _ search =>
      exact (search.consistent before).of_sameBindings ⟨rfl, rfl, rfl, rfl, rfl⟩
  | tooWide _ search => exact search.consistent before
  | aborted _ _ pass => exact pass.swept.consistent

theorem Attempts.base_eq {o : Outcome (Pool n c) Grant} (ends : p.Attempts f o) :
    o.state.base = p.base := by
  cases ends with
  | shared => rfl
  | bound _ search _ becomes => exact becomes.elsewhere.base_eq.trans search.base_eq
  | parked _ search => exact search.base_eq
  | tooWide _ search => exact search.base_eq
  | aborted _ _ pass => exact pass.swept.base_eq

end Highmem.Pool
