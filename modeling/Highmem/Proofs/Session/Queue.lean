import Highmem.Session
import Highmem.Proofs.Sync.Tickets

/-!
# The queue of sleeping calls

The sleeping calls stand in a line in the order of their tickets: first those that were
let in and have not resumed, then those that still wait, one for each waiting ticket.
`Line` says so for a list of calls and the counters that their tickets belong to.
Letting a caller in, drawing a ticket and resuming a call all keep the line.
-/

namespace Highmem

open Sync

variable {t : Tickets} {calls : List SleepingCall}

/-- The calls that were let in, then a call for each ticket that waits, oldest first. -/
def Line (t : Tickets) (calls : List SleepingCall) : Prop :=
  ∃ ahead behind, calls = ahead ++ behind ∧
    (∀ call ∈ ahead, t.waiting < t.age call.ticket) ∧
    behind.map (fun call => t.age call.ticket) = (List.range' 1 t.waiting).reverse

/-- No call has slept for so long that its ticket would be taken for a waiting one. -/
def Young (t : Tickets) (calls : List SleepingCall) : Prop :=
  ∀ call ∈ calls, t.age call.ticket < Tickets.horizon

theorem age_le_of_mem {behind : List SleepingCall}
    (ages : behind.map (fun call => t.age call.ticket) = (List.range' 1 t.waiting).reverse)
    {call : SleepingCall} (mem : call ∈ behind) : t.age call.ticket ≤ t.waiting := by
  have age : t.age call.ticket ∈ behind.map fun call => t.age call.ticket :=
    List.mem_map_of_mem mem
  rw [ages, List.mem_reverse, List.mem_range'_1] at age
  omega

theorem line_nil : Line .empty [] := ⟨[], [], rfl, nofun, rfl⟩

/-- Letting a caller in does not change ages. -/
theorem Young.notifyOne (young : Young t calls) : Young t.notifyOne.2 calls := by
  intro call mem
  rw [Tickets.age_notifyOne]
  exact young call mem

theorem Young.filter (young : Young t calls) (keep : SleepingCall → Bool) :
    Young t (calls.filter keep) := fun call mem => young call (List.mem_filter.mp mem).1

namespace Line

variable (line : Line t calls)

include line

theorem waiting_lt (young : Young t calls) : t.waiting < Tickets.horizon := by
  obtain ⟨ahead, behind, rfl, -, ages⟩ := line
  cases waiting : t.waiting with
  | zero => decide
  | succ k =>
      rw [waiting] at ages
      have mem : k + 1 ∈ behind.map fun call => t.age call.ticket := by
        rw [ages, List.mem_reverse, List.mem_range'_1]
        omega
      obtain ⟨call, here, age⟩ := List.mem_map.mp mem
      rw [← age]
      exact young call (List.mem_append_right ahead here)

/-- The call that waits longest is let in. -/
theorem notifyOne : Line t.notifyOne.2 calls := by
  obtain ⟨ahead, behind, rfl, before, ages⟩ := line
  have same : ∀ x, t.notifyOne.2.age x = t.age x := t.age_notifyOne
  have fewer := t.waiting_notifyOne
  cases waiting : t.waiting with
  | zero =>
      rw [waiting] at ages fewer before
      refine ⟨ahead, behind, rfl, fun call mem => ?_, ?_⟩
      · rw [same, fewer]
        exact before call mem
      · simp only [same, fewer]
        exact ages
  | succ k =>
      rw [waiting] at ages fewer before
      rw [List.range'_1_concat, List.reverse_concat] at ages
      cases behind with
      | nil => cases ages
      | cons first rest =>
          obtain ⟨oldest, ages⟩ := List.cons_eq_cons.mp ages
          have oldest : t.age first.ticket = 1 + k := oldest
          refine ⟨ahead ++ [first], rest, List.append_cons ahead first rest, fun call mem => ?_, ?_⟩
          · rw [same, fewer]
            rcases List.mem_append.mp mem with old | new
            · have := before call old
              omega
            · rw [List.mem_singleton.mp new]
              omega
          · simp only [same, fewer]
            exact ages

/-- A call that draws a ticket joins the end of the line. -/
theorem draw (young : Young t calls) {call : SleepingCall} (ticket : call.ticket = t.draw.1) :
    Line t.draw.2 (calls ++ [call]) := by
  have few := line.waiting_lt young
  have more := Tickets.waiting_draw few
  obtain ⟨ahead, behind, rfl, before, ages⟩ := line
  refine ⟨ahead, behind ++ [call], List.append_assoc _ _ _, fun other mem => ?_, ?_⟩
  · rw [more, Tickets.age_draw (young other (List.mem_append_left behind mem))]
    exact Nat.succ_lt_succ (before other mem)
  · have older : behind.map (fun call => t.draw.2.age call.ticket) =
        (behind.map fun call => t.age call.ticket).map (1 + ·) := by
      rw [List.map_map]
      refine List.map_congr_left fun other mem => ?_
      rw [Tickets.age_draw (young other (List.mem_append_right ahead mem)), Nat.add_comm]
      rfl
    rw [List.map_append, older, ages, more, List.map_reverse, List.map_add_range',
      List.range'_succ, List.reverse_cons]
    change _ ++ [t.draw.2.age call.ticket] = _
    rw [ticket, Tickets.age_draw_self]

/-- A call that was let in leaves the line. -/
theorem leave (young : Young t calls) (distinct : (calls.map (·.id)).Nodup) {call : SleepingCall}
    (mem : call ∈ calls) (served : t.isServed call.ticket = true) :
    Line t (calls.filter (·.id ≠ call.id)) := by
  have older := (Tickets.isServed_iff (young call mem) (line.waiting_lt young)).mp served
  obtain ⟨ahead, behind, rfl, before, ages⟩ := line
  have here : call ∈ ahead := by
    refine (List.mem_append.mp mem).resolve_right fun late => ?_
    have := age_le_of_mem ages late
    omega
  have others : behind.filter (·.id ≠ call.id) = behind := by
    rw [List.map_append, List.nodup_append] at distinct
    refine List.filter_eq_self.mpr fun other late => decide_eq_true ?_
    exact (distinct.2.2 _ (List.mem_map_of_mem here) _ (List.mem_map_of_mem late)).symm
  refine ⟨ahead.filter (·.id ≠ call.id), behind, ?_, fun other old => ?_, ages⟩
  · rw [List.filter_append, others]
  · exact before other ((List.mem_filter.mp old).1)

/-- The calls that may resume are those for which no ticket waits. -/
theorem countP_isServed (young : Young t calls) :
    calls.countP (fun call => t.isServed call.ticket) + t.waiting = calls.length := by
  have few := line.waiting_lt young
  obtain ⟨ahead, behind, rfl, before, ages⟩ := line
  have served : ahead.countP (fun call => t.isServed call.ticket) = ahead.length := by
    refine List.countP_eq_length.mpr fun call mem => ?_
    exact (Tickets.isServed_iff (young call (List.mem_append_left behind mem)) few).mpr
      (before call mem)
  have waits : behind.countP (fun call => t.isServed call.ticket) = 0 := by
    refine List.countP_eq_zero.mpr fun call mem served => ?_
    have := (Tickets.isServed_iff (young call (List.mem_append_right ahead mem)) few).mp served
    have := age_le_of_mem ages mem
    omega
  have each : behind.length = t.waiting := by
    have lengths := congrArg List.length ages
    rw [List.length_map, List.length_reverse, List.length_range'] at lengths
    exact lengths
  rw [List.countP_append, served, waits, List.length_append, each]
  rfl

end Line

end Highmem
