import Highmem.Proofs.Pool.Sweep

/-!
# Scanning for a free slot

A scan either finds a free slot between the cursor and the last slot, or reaches the
first slot, where a pass turns every slot that nobody holds free. So the slot that it
finds is known before it begins: `ahead?`, and without one the `lowest?` slot that
nobody holds. `Search` lists the ways in which a scan comes to its end, and `Attempts`
those in which a caller's whole critical section does.
-/

namespace Highmem.Pool

open Paging Sync

variable {n c : Nat} {p q r : Pool n c} {nr : Fin n} {f : Frame}

def withCursor (p : Pool n c) (nr : Fin n) : Pool n c := { p with cursor := nr }

theorem Consistent.withCursor (consistent : p.Consistent) (nr : Fin n) :
    (p.withCursor nr).Consistent :=
  consistent.of_sameBindings ⟨rfl, rfl, rfl, rfl, rfl⟩

/-- Binding a slot, for a caller that takes what it finds. -/
def grab (nr : Fin n) (f : Frame) : Op (Pool n c) (Option VirtAddr) := some <$> bindSlot nr f

def freeAt (p : Pool n c) (nr : Fin n) : Bool := (p.slot nr).isFree

theorem freeAt_withCursor (p : Pool n c) (nr other : Fin n) :
    (p.withCursor nr).freeAt other = p.freeAt other := rfl

/-- Binding a slot if it is free, and scanning on from there if it is not. -/
def look (f : Frame) (nr : Fin n) (rest : List (Fin n)) : Op (Pool n c) (Option VirtAddr) := do
  let p ← get
  if p.freeAt nr then grab nr f else scanAlong f rest

theorem run_look (f : Frame) (nr : Fin n) (rest : List (Fin n)) (p : Pool n c) :
    (look f nr rest).run p =
      if p.freeAt nr then (grab nr f).run p else (scanAlong f rest).run p := by
  cases free : p.freeAt nr <;> simp [look, free]

/-- Away from the first slot, a scan just looks. -/
theorem run_scanAlong_later (later : nr.val ≠ 0) (rest : List (Fin n)) :
    (scanAlong f (nr :: rest)).run p = (look f nr rest).run (p.withCursor (Cyclic.next nr)) := by
  simp only [scanAlong, later, if_false]
  rfl

/-- Away from the first slot, a scan finds the first free slot on its way. -/
theorem run_scanAlong_append (l rest : List (Fin n)) (later : ∀ nr ∈ l, nr.val ≠ 0) :
    (scanAlong f (l ++ rest)).run p =
      match l.find? p.freeAt with
      | some nr => (grab nr f).run (p.withCursor (Cyclic.next nr))
      | none =>
        (scanAlong f rest).run (p.withCursor (l.foldl (fun _ nr => Cyclic.next nr) p.cursor)) := by
  induction l generalizing p with
  | nil => rfl
  | cons nr l ih =>
      have further := ih (p := p.withCursor (Cyclic.next nr)) fun other mem =>
        later other (List.mem_cons_of_mem nr mem)
      rw [List.cons_append, run_scanAlong_later (later nr List.mem_cons_self), run_look, further]
      by_cases free : p.freeAt nr = true
      · rw [freeAt_withCursor, if_pos free, List.find?_cons_of_pos free]
      · rw [freeAt_withCursor, if_neg free, List.find?_cons_of_neg free]
        rfl

def firstSlot (p : Pool n c) : Fin n := Cyclic.first (Nat.zero_lt_of_lt p.cursor.isLt)

/-- The pool as it is when a pass begins: the cursor stands behind the first slot. -/
def entered (p : Pool n c) : Pool n c := p.withCursor (Cyclic.next p.firstSlot)

/-- The pool after a pass that turned `freed` slots free, one of which is spoken for. -/
def letIn (p : Pool n c) (freed : Nat) : Pool n c := if 1 < freed then p.notified else p

theorem finRange_eq_cons (p : Pool n c) :
    List.finRange n = p.firstSlot :: (List.finRange n).tail := by
  have start := p.cursor
  cases n with
  | zero => exact start.elim0
  | succ m =>
      rw [List.finRange_succ]
      rfl

/-- Behind the first slot there is no slot with number zero. -/
theorem later_of_mem_drop {k : Nat} (pos : 0 < k) (mem : nr ∈ (List.finRange n).drop k) :
    nr.val ≠ 0 := by
  obtain ⟨i, hi, rfl⟩ := List.mem_iff_getElem.mp mem
  rw [List.getElem_drop, List.getElem_finRange]
  change k + i ≠ 0
  omega

theorem foldl_next_finRange (p : Pool n c) (start : Fin n) :
    (List.finRange n).foldl (fun _ nr => Cyclic.next nr) start = p.firstSlot := by
  cases n with
  | zero => exact start.elim0
  | succ m =>
      rw [List.finRange_succ_last, List.foldl_append]
      exact Fin.ext (Cyclic.val_next_of_last rfl)

/-- A round of all slots from the first one on, once the pass is over. -/
theorem run_look_round (here : p.cursor = Cyclic.next p.firstSlot) :
    (look f p.firstSlot (List.finRange n).tail).run p =
      match (List.finRange n).find? p.freeAt with
      | some nr => (grab nr f).run (p.withCursor (Cyclic.next nr))
      | none => ⟨.ok none, p.withCursor p.firstSlot, []⟩ := by
  have along := run_scanAlong_append (p := p) (f := f) (List.finRange n).tail [] fun nr mem =>
    later_of_mem_drop Nat.zero_lt_one (List.drop_one ▸ mem)
  rw [List.append_nil] at along
  have ending := foldl_next_finRange p p.firstSlot
  rw [finRange_eq_cons p, List.foldl_cons, ← here] at ending
  rw [run_look, along, ending]
  conv => rhs; rw [finRange_eq_cons p]
  by_cases free : p.freeAt p.firstSlot = true
  · rw [if_pos free, List.find?_cons_of_pos free]
    change _ = (grab p.firstSlot f).run (p.withCursor (Cyclic.next p.firstSlot))
    rw [← here]
    rfl
  · rw [if_neg free, List.find?_cons_of_neg free]
    rfl

theorem run_scanAlong_first (rest : List (Fin n)) :
    (scanAlong f (p.firstSlot :: rest)).run p =
      (do
        let freed ← sweep
        if 1 < freed then notifyOne
        look f p.firstSlot rest).run p.entered := by
  have zero : p.firstSlot.val = 0 := rfl
  simp only [scanAlong, zero, if_true]
  rfl

theorem run_scanAlong_first_ok {freed : Nat} {es : List Event}
    (pass : sweep.run p.entered = ⟨.ok freed, q, es⟩) (rest : List (Fin n)) :
    (scanAlong f (p.firstSlot :: rest)).run p =
      ⟨((look f p.firstSlot rest).run (q.letIn freed)).result,
        ((look f p.firstSlot rest).run (q.letIn freed)).state,
        es ++ ((look f p.firstSlot rest).run (q.letIn freed)).events⟩ := by
  rw [run_scanAlong_first, Op.run_bind_ok pass]
  by_cases more : 1 < freed
  · simp [more, letIn, notifyOne, notified]
  · simp [more, letIn]

theorem run_scanAlong_first_error {fault : Fault} {es : List Event}
    (pass : sweep.run p.entered = ⟨.error fault, q, es⟩) (rest : List (Fin n)) :
    (scanAlong f (p.firstSlot :: rest)).run p = ⟨.error fault, q, es⟩ := by
  rw [run_scanAlong_first, Op.run_bind_error pass]

/-- The first free slot from the cursor on, unless the cursor is at the first slot. -/
def ahead? (p : Pool n c) : Option (Fin n) :=
  if p.cursor.val = 0 then none else ((List.finRange n).drop p.cursor).find? p.freeAt

/-- The first slot that nobody holds. -/
def lowest? (p : Pool n c) : Option (Fin n) :=
  (List.finRange n).find? fun nr => !(p.slot nr).isHeld

/-- The ways in which a scan of a consistent pool can come to a slot, or to the end of
the slots, with the pool that it leaves and the events that it causes until then. -/
inductive Search (p : Pool n c) : Option (Fin n) → Pool n c → List Event → Prop
  | ahead {nr : Fin n} (found : p.ahead? = some nr) :
      Search p (some nr) (p.withCursor (Cyclic.next nr)) []
  | around {nr : Fin n} {q : Pool n c} {es : List Event} (nothing : p.ahead? = none)
      (pass : p.entered.Passes ⟨.ok p.staleCount, q, es⟩) (found : p.lowest? = some nr) :
      Search p (some nr) ((q.letIn p.staleCount).withCursor (Cyclic.next nr)) es
  | full {q : Pool n c} {es : List Event} (nothing : p.ahead? = none)
      (pass : p.entered.Passes ⟨.ok p.staleCount, q, es⟩) (found : p.lowest? = none) :
      Search p none ((q.letIn p.staleCount).withCursor p.firstSlot) es

/-- The ways in which a scan of a consistent pool can end. -/
inductive Scans (p : Pool n c) (f : Frame) : Outcome (Pool n c) (Option VirtAddr) → Prop
  | found {nr : Fin n} {q : Pool n c} {es : List Event} (search : p.Search (some nr) q es) :
      Scans p f ⟨((grab nr f).run q).result, ((grab nr f).run q).state,
        es ++ ((grab nr f).run q).events⟩
  | full {q : Pool n c} {es : List Event} (search : p.Search none q es) :
      Scans p f ⟨.ok none, q, es⟩
  | aborted {fault : Fault} {q : Pool n c} {es : List Event} (nothing : p.ahead? = none)
      (pass : p.entered.Passes ⟨.error fault, q, es⟩) : Scans p f ⟨.error fault, q, es⟩

/-- Once a pass is over, the free slots are those that nobody held. -/
theorem Swept.freeAt_eq (swept : Swept p q) (nr : Fin n) :
    q.freeAt nr = !(p.slot nr).isHeld := by
  rw [freeAt, swept.slot_eq]
  cases p.slot nr <;> rfl

theorem slot_letIn (p : Pool n c) (freed : Nat) (nr : Fin n) :
    (p.letIn freed).slot nr = p.slot nr := by
  unfold letIn
  split <;> rfl

theorem cursor_letIn (p : Pool n c) (freed : Nat) : (p.letIn freed).cursor = p.cursor := by
  unfold letIn
  split <;> rfl

/-- A whole round does not depend on where the cursor stood. -/
theorem run_round_withCursor (p : Pool n c) (f : Frame) (nr : Fin n) :
    (scanAlong f (List.finRange n)).run (p.withCursor nr) =
      (scanAlong f (List.finRange n)).run p := by
  rw [finRange_eq_cons p, run_scanAlong_first]
  exact run_scanAlong_first _

/-- A whole round of slots, beginning with a pass. -/
theorem Consistent.run_round (consistent : p.Consistent) (nothing : p.ahead? = none)
    (f : Frame) : p.Scans f ((scanAlong f (List.finRange n)).run p) := by
  have pass := (consistent.withCursor (Cyclic.next p.firstSlot)).run_sweep
  change p.entered.Passes (sweep.run p.entered) at pass
  rw [finRange_eq_cons p]
  cases result : sweep.run p.entered with
  | mk ending q es =>
    rw [result] at pass
    cases ending with
    | error fault =>
        rw [run_scanAlong_first_error result]
        exact .aborted nothing pass
    | ok freed =>
        have swept := pass.swept
        have counted : freed = p.staleCount := pass.result_eq
        rw [counted] at pass result
        have slots : (q.letIn p.staleCount).freeAt = fun nr => !(p.slot nr).isHeld := by
          funext nr
          rw [freeAt, slot_letIn]
          exact swept.freeAt_eq nr
        have here : (q.letIn p.staleCount).cursor = Cyclic.next p.firstSlot := by
          rw [cursor_letIn]
          exact swept.cursor_eq
        have round : (look f p.firstSlot (List.finRange n).tail).run (q.letIn p.staleCount) = _ :=
          run_look_round here
        rw [slots] at round
        change _ = match p.lowest? with
          | some nr => _
          | none => _ at round
        rw [run_scanAlong_first_ok result]
        cases found : p.lowest? with
        | none =>
            rw [found] at round
            rw [round, List.append_nil]
            exact .full (.full nothing pass found)
        | some nr =>
            rw [found] at round
            rw [round]
            exact .found (.around nothing pass found)

/-- Every end of a scan is one of those listed. -/
theorem Consistent.run_scan (consistent : p.Consistent) (f : Frame) :
    p.Scans f ((scan f).run p) := by
  change p.Scans f ((scanAlong f (itinerary p.cursor)).run p)
  unfold itinerary
  by_cases start : p.cursor.val = 0
  · rw [if_pos start]
    exact consistent.run_round (if_pos start) f
  · rw [if_neg start, run_scanAlong_append _ _ fun nr mem =>
      later_of_mem_drop (Nat.pos_of_ne_zero start) mem]
    cases found : ((List.finRange n).drop p.cursor).find? p.freeAt with
    | some nr => exact .found (.ahead ((if_neg start).trans found))
    | none =>
        change p.Scans f ((scanAlong f (List.finRange n)).run (p.withCursor _))
        rw [run_round_withCursor]
        exact consistent.run_round ((if_neg start).trans found) f

end Highmem.Pool
