import Highmem.Proofs.Pool.Scan

/-!
# Scanning with a budget

A scan can be told without the list of the slots that it looks at. It looks at the slot
under the cursor, over and over, and it has a budget of looks: `n` at first, and `n` again
whenever it comes to slot zero. `seek` is this loop, with a bound on all of its looks.
The slots that it still has before it are those of `course`; at the outset they are the
itinerary of the scan, so `2 * n - 1` looks are enough.
-/

namespace Highmem

open Paging Sync

/-- What follows an operation only matters where it is run, on the state that the operation
leaves. -/
theorem Op.run_bind_congr {σ α β : Type} {op : Op σ α} {next next' : α → Op σ β} {s : σ}
    (same : ∀ a t es, op.run s = ⟨.ok a, t, es⟩ → (next a).run t = (next' a).run t) :
    (op >>= next).run s = (op >>= next').run s := by
  cases ran : op.run s with
  | mk result t es =>
    cases result with
    | error fault => rw [run_bind_error ran, run_bind_error ran]
    | ok a => rw [run_bind_ok ran, run_bind_ok ran, same a t es ran]

namespace Pool

variable {n c : Nat} {p q : Pool n c} {nr : Fin n} {f : Frame} {es : List Event}

/-- Move the cursor on behind a slot that is looked at next. Slot zero is looked at only after
an invalidation pass. -/
def advance (nr : Fin n) : Op (Pool n c) Unit := do
  modify fun p => { p with cursor := Cyclic.next nr }
  if nr.val = 0 then
    let freed ← sweep
    if 1 < freed then notifyOne

/-- The budget once the cursor has come to a slot. -/
def renewed (budget : Nat) (nr : Fin n) : Nat := if nr.val = 0 then n else budget

/-- Look at the slot under the cursor until it is free or the budget is spent. `none` means
that the looks did not suffice. -/
def seek (f : Frame) : (looks budget : Nat) → Op (Pool n c) (Option (Option VirtAddr))
  | 0, _ => return none
  | looks + 1, budget => do
    let p ← get
    let nr := p.cursor
    advance nr
    let p ← get
    if p.freeAt nr then some <$> grab nr f
    else
      let left := renewed budget nr - 1
      if left = 0 then return some none else seek f looks left

/-- The slots that a budget pays for, from a slot on. A small one is spent by the last slot. A
larger one is renewed at slot zero, and pays for a whole round more. -/
def course (budget : Nat) (nr : Fin n) : List (Fin n) :=
  if budget ≤ n - nr then ((List.finRange n).drop nr).take budget
  else (List.finRange n).drop nr ++ List.finRange n

theorem drop_finRange (nr : Fin n) :
    (List.finRange n).drop nr = nr :: (List.finRange n).drop (nr + 1) := by
  have inside : nr.val < (List.finRange n).length := by
    rw [List.length_finRange]
    exact nr.isLt
  rw [List.drop_eq_getElem_cons inside, List.getElem_finRange]
  rfl

/-- A whole budget at the first slot pays for one round. -/
theorem course_first (first : nr.val = 0) : course n nr = List.finRange n := by
  rw [course, first, if_pos (by rw [Nat.sub_zero]), List.drop_zero, List.take_of_length_le]
  exact Nat.le_of_eq List.length_finRange

/-- A scan begins with a whole budget. -/
theorem course_cursor (start : Fin n) : course n start = itinerary start := by
  unfold itinerary
  by_cases first : start.val = 0
  · rw [if_pos first, course_first first]
  · rw [if_neg first, course, if_neg (by omega)]

/-- The slots behind a slot are those that the rest of the budget pays for. -/
theorem course_eq_cons {budget : Nat} (pos : 0 < budget) (nr : Fin n) :
    course budget nr = nr :: if budget - 1 = 0 then []
      else course (renewed (budget - 1) (Cyclic.next nr)) (Cyclic.next nr) := by
  have inside := nr.isLt
  obtain ⟨left, rfl⟩ := Nat.exists_eq_add_of_le' pos
  rw [Nat.add_sub_cancel]
  by_cases short : left + 1 ≤ n - nr
  · -- the budget is spent before the cursor comes to slot zero again
    have here : course (left + 1) nr = nr :: ((List.finRange n).drop (nr + 1)).take left := by
      rw [course, if_pos short, drop_finRange, List.take_succ_cons]
    rw [here]
    by_cases spent : left = 0
    · rw [if_pos spent, spent, List.take_zero]
    · have next := Cyclic.val_next_of_lt (i := nr) (by omega)
      have same : renewed left (Cyclic.next nr) = left := if_neg (by omega)
      rw [if_neg spent, same, course, next, if_pos (by omega)]
  · have here : course (left + 1) nr =
        nr :: ((List.finRange n).drop (nr + 1) ++ List.finRange n) := by
      rw [course, if_neg short, drop_finRange, List.cons_append]
    rw [here, if_neg (by omega)]
    by_cases last : nr.val + 1 = n
    · -- slot zero is next, where the budget is renewed
      have next := Cyclic.val_next_of_last last
      have again : renewed left (Cyclic.next nr) = n := if_pos next
      rw [again, course_first next, last, List.drop_eq_nil_of_le, List.nil_append]
      exact Nat.le_of_eq List.length_finRange
    · have next := Cyclic.val_next_of_lt (i := nr) (by omega)
      have same : renewed left (Cyclic.next nr) = left := if_neg (by omega)
      rw [same, course, next, if_neg (by omega)]

theorem scanAlong_cons (f : Frame) (nr : Fin n) (rest : List (Fin n)) :
    (scanAlong f (nr :: rest) : Op (Pool n c) _) = advance nr >>= fun _ => look f nr rest := by
  rw [scanAlong, advance, bind_assoc]
  by_cases first : nr.val = 0
  · simp only [first, if_true, bind_assoc]
    congr 1
    funext _
    congr 1
    funext freed
    by_cases more : 1 < freed
    · simp only [more, if_true]
      rfl
    · simp only [more, if_false, pure_bind]
      rfl
  · simp only [first, if_false, pure_bind]
    rfl

/-- A step of the cursor leaves a consistent pool, whether or not a pass was due and could
be completed. -/
theorem Consistent.after_advance (consistent : p.Consistent) (nr : Fin n) :
    ((advance nr).run p).state.Consistent ∧
      ((advance nr).run p).state.cursor = Cyclic.next nr := by
  have moved := consistent.withCursor (Cyclic.next nr)
  by_cases first : nr.val = 0
  · have shape : (advance nr).run p =
        (sweep >>= fun freed => if 1 < freed then notifyOne else pure ()).run
          (p.withCursor (Cyclic.next nr)) := by
      rw [advance, if_pos first]
      rfl
    have pass := moved.run_sweep
    rw [shape]
    cases ran : sweep.run (p.withCursor (Cyclic.next nr)) with
    | mk result q es =>
      rw [ran] at pass
      have swept := pass.swept
      cases result with
      | error fault =>
          rw [Op.run_bind_error ran]
          exact ⟨swept.consistent, swept.cursor_eq⟩
      | ok freed =>
          rw [Op.run_bind_ok ran]
          by_cases more : 1 < freed
          · rw [if_pos more]
            exact ⟨swept.consistent.notified, swept.cursor_eq⟩
          · rw [if_neg more]
            exact ⟨swept.consistent, swept.cursor_eq⟩
  · rw [advance, if_neg first]
    exact ⟨moved, rfl⟩

theorem renewed_pos {budget : Nat} (pos : 0 < budget) (nr : Fin n) : 0 < renewed budget nr := by
  unfold renewed
  split
  · exact Nat.zero_lt_of_lt nr.isLt
  · exact pos

/-- With enough looks, the loop does what a scan along its course does. -/
theorem Consistent.run_seek_course (consistent : p.Consistent) (f : Frame) {looks budget : Nat}
    (pos : 0 < budget)
    (enough : (course (renewed budget p.cursor) p.cursor).length ≤ looks) :
    (seek f looks budget).run p =
      (some <$> scanAlong f (course (renewed budget p.cursor) p.cursor)).run p := by
  induction looks generalizing p budget with
  | zero =>
      rw [course_eq_cons (renewed_pos pos _)] at enough
      exact absurd enough (Nat.not_succ_le_zero _)
  | succ looks ih =>
      rw [course_eq_cons (renewed_pos pos _)] at enough ⊢
      rw [scanAlong_cons, map_bind]
      change (advance p.cursor >>= fun _ => _ : Op (Pool n c) _).run p = _
      refine Op.run_bind_congr fun _ q es ran => ?_
      obtain ⟨after, cursor⟩ := consistent.after_advance p.cursor
      rw [ran] at after cursor
      change Op.run (if q.freeAt p.cursor then _ else _) q = _
      rw [Op.run_map, run_look]
      by_cases free : q.freeAt p.cursor = true
      · rw [if_pos free, if_pos free, Op.run_map]
      · rw [if_neg free, if_neg free]
        by_cases spent : renewed budget p.cursor - 1 = 0
        · rw [if_pos spent, if_pos spent]
          rfl
        · rw [if_neg spent, ← cursor] at enough
          have along := ih after (Nat.pos_of_ne_zero spent) (Nat.le_of_succ_le_succ enough)
          rw [if_neg spent, if_neg spent, ← cursor, ← Op.run_map]
          exact along

/-- `2 * n - 1` looks suffice for every scan. -/
theorem Consistent.run_seek (consistent : p.Consistent) (f : Frame) :
    (seek f (2 * n - 1) n).run p = (some <$> scan f).run p := by
  have whole : renewed n p.cursor = n := by
    unfold renewed
    exact ite_self _
  have short : (course (renewed n p.cursor) p.cursor).length ≤ 2 * n - 1 := by
    rw [whole, course_cursor]
    exact length_itinerary_le p.cursor
  have pos : 0 < n := Nat.zero_lt_of_lt p.cursor.isLt
  rw [consistent.run_seek_course f pos short, whole, course_cursor]
  rfl

end Pool

end Highmem
