import Highmem.Proofs.Sync.Waiting

/-!
# Service in order

Every access of a thread keeps the counters of the queue in line with the history of the
queue, so in every interleaving a notification lets exactly those through that wait
longest, and nobody else gets out of `wait`.
-/

namespace Highmem.Sync

namespace Tickets

variable {t : Tickets} {k : Nat} (next : t.next = t.served + .ofNat k) (few : k < wordCount)

include next few

theorem served_eq_next_iff : t.served = t.next ↔ k = 0 := by
  have hserved := t.served.toNat_lt
  rw [next, ← UInt64.toNat_inj, toNat_add_ofNat]
  unfold wordCount at *
  omega

/-- With nobody waiting, nothing is served. -/
theorem served_notifyOne : t.notifyOne.2.served = t.served + .ofNat (min 1 k) := by
  have idle := served_eq_next_iff next few
  unfold notifyOne
  split
  case isTrue same =>
    rw [idle.mp same]
    exact (UInt64.add_zero _).symm
  case isFalse apart =>
    have one : min 1 k = 1 := by
      have := mt idle.mpr apart
      omega
    rw [one]
    rfl

end Tickets

namespace Hall

variable {h : Hall} {i j : ThreadId} {a : Action} {out : Bool} {k : Nat}

/-- Whom an action lets through. -/
def admitted (h : Hall) : Action → List ThreadId
  | .notifyOne => h.waiting.take 1
  | .notifyAll => h.waiting
  | _ => []

theorem mem_waiting_letIn (nodup : h.waiting.Nodup) :
    j ∈ (h.letIn k).waiting ↔ j ∈ h.waiting ∧ j ∉ h.waiting.take k := by
  constructor
  · intro later
    exact ⟨List.mem_of_mem_drop later,
      fun first => List.disjoint_take_drop nodup (Nat.le_refl k) first later⟩
  · rintro ⟨mem, apart⟩
    rw [← List.take_append_drop k h.waiting, List.mem_append] at mem
    exact mem.resolve_left apart

theorem isThrough_letIn :
    (h.letIn k).IsThrough j ↔ j ∈ h.waiting.take k ∨ h.IsThrough j := by
  constructor
  · rintro ⟨later, mem⟩
    rcases List.mem_append.mp mem with old | new
    · obtain ⟨x, known, same⟩ := List.mem_map.mp old
      cases same
      exact Or.inr ⟨x.2, known⟩
    · obtain ⟨x, first, same⟩ := List.mem_map.mp new
      cases same
      exact Or.inl first
  · rintro (first | ⟨later, known⟩)
    · exact ⟨0, List.mem_append_right _ (List.mem_map_of_mem first)⟩
    · exact ⟨_, List.mem_append_left _ (List.mem_map_of_mem known)⟩

/-- Those who wait after an action: those who waited and were not let through, and the one
that has just begun to wait. -/
theorem mem_waiting_follow (nodup : h.waiting.Nodup) :
    j ∈ (h.follow i a out).waiting ↔
      (j ∈ h.waiting ∧ j ∉ h.admitted a) ∨ (a = .wait ∧ j = i) := by
  cases a with
  | wait => simp [follow, admitted]
  | notifyOne => simpa [follow, admitted] using mem_waiting_letIn nodup
  | notifyAll => simp [follow, admitted, letIn]
  | _ => cases out <;> simp [follow, admitted]

/-- Those who are let through stay so until they get out. -/
theorem isThrough_follow (leave : out = true → a = .advance) :
    (h.follow i a out).IsThrough j ↔
      j ∈ h.admitted a ∨ (h.IsThrough j ∧ ¬(j = i ∧ out = true)) := by
  cases out with
  | true =>
      cases leave rfl
      simp [follow, admitted, IsThrough]
  | false =>
      cases a with
      | notifyOne => simpa [follow, admitted] using isThrough_letIn
      | notifyAll =>
          have all := isThrough_letIn (h := h) (j := j) (k := h.waiting.length)
          rw [List.take_length] at all
          simpa [follow, admitted] using all
      | _ => simp [follow, admitted, IsThrough]

end Hall

namespace Threads

variable {s s' : Threads} {h : Hall} {i j : ThreadId} {a : Action}

/-- Every access keeps the counters in line with the hall. -/
theorem Turn.matches (turn : Turn s i a s') (exclusive : s.Exclusive) (agree : s.Matches h)
    (bounded : h.Bounded) : s'.Matches (h.follow i a (s.emerges s' i)) := by
  have room := bounded.length_lt
  have quiet : Action.advance ≠ .wait ∧ Action.advance ≠ .notifyOne ∧
      Action.advance ≠ .notifyAll := ⟨nofun, nofun, nofun⟩
  cases turn with
  | onward quiet guard same =>
      rw [emerges_eq_false (by rw [phase_enter_self, same]), h.follow_quiet i quiet]
      exact agree.of_same rfl (view_enter (s := s) Phase.ticket? same)
  | take free guard outside =>
      rw [emerges_eq_false (by rw [phase_enter_self, outside]; rfl), h.follow_quiet i quiet]
      exact agree.of_same rfl (view_enter (s := s) Phase.ticket? outside.symm)
  | @clear after clearing =>
      have same : after.phase.ticket? = (s.phase i).ticket? := by
        rw [clearing]
        cases after <;> rfl
      rw [emerges_eq_false (by rw [phase_enter_self, same]), h.follow_quiet i quiet]
      exact agree.of_same rfl (view_enter (s := s) Phase.ticket? same)
  | fail checking free => cases free.symm.trans (exclusive.isLocked_of_checking checking)
  | draw inside => exact agree.draw (by rw [inside]; rfl) rfl
  | serveOne =>
      refine agree.letIn bounded ?_ ?_
      · unfold Tickets.notifyOne
        split <;> rfl
      · rw [List.length_take]
        exact Tickets.served_notifyOne agree.next room
  | serveAll =>
      refine agree.letIn bounded rfl ?_
      rw [List.take_length]
      exact agree.next
  | pass parked served =>
      have out : s.emerges (s.enter i .exchanging) i = true := by
        rw [emerges, parked, phase_enter_self]
        rfl
      rw [out]
      exact agree.pass bounded parked served

/-- Nobody gets out of `wait` without having been let through. -/
theorem Turn.of_emerges (turn : Turn s i a s') (exclusive : s.Exclusive)
    (out : s.emerges s' i = true) : a = .advance ∧ s.LetThrough i := by
  cases turn with
  | onward quiet guard same =>
      rw [emerges_eq_false (by rw [phase_enter_self, same])] at out
      cases out
  | take free guard outside =>
      rw [emerges, outside] at out
      cases out
  | @clear after clearing =>
      rw [emerges, clearing, phase_enter_self] at out
      cases after <;> cases out
  | fail checking free => cases free.symm.trans (exclusive.isLocked_of_checking checking)
  | draw inside =>
      rw [emerges, inside] at out
      cases out
  | serveOne inside =>
      rw [emerges, inside] at out
      cases out
  | serveAll inside =>
      rw [emerges, inside] at out
      cases out
  | @pass ticket parked served => exact ⟨rfl, ticket, by rw [parked]; rfl, served⟩

/-- The counters and the hall agree after every interleaving. -/
theorem matches_hall {script : List (ThreadId × Action)} (reach : s.run script = some s')
    (exclusive : s.Exclusive) (agree : s.Matches h) (limited : s.Limited h script) :
    s'.Exclusive ∧ s'.Matches (s.hall h script) ∧ (s.hall h script).Bounded := by
  induction script generalizing s h with
  | nil =>
      cases reach
      exact ⟨exclusive, agree, limited⟩
  | cons access later ih =>
      obtain ⟨middle, step, reach⟩ := exists_of_run_cons reach
      rw [Limited, step] at limited
      rw [hall, step]
      have turn := step_turn step
      exact ih reach (turn.exclusive exclusive) (turn.matches exclusive agree limited.1) limited.2

/-- What the queue answers in a state whose history is that of the hall. -/
structure InOrder (s : Threads) (h : Hall) : Prop where
  /-- The threads that drew a ticket that was not served yet. -/
  waits : ∀ j, s.Waits j ↔ j ∈ h.waiting
  nodup : h.waiting.Nodup
  /-- Whoever looks at the queue under the lock finds them parked. -/
  parked : ∀ i known, s.phase i = .inside known →
    ∀ j ∈ h.waiting, ∃ ticket, s.phase j = .parked ticket
  letThrough : ∀ j, s.LetThrough j ↔ h.IsThrough j
  waiting : s.tickets.waiting = h.waiting.length
  notifyOne : s.tickets.notifyOne.1 = true ↔ h.waiting ≠ []
  notifyAll : s.tickets.notifyAll.1 = h.waiting.length
  /-- A notification that finds nobody leaves no trace. -/
  forgotten : h.waiting = [] →
    s.tickets.notifyOne.2 = s.tickets ∧ s.tickets.notifyAll.2 = s.tickets
  /-- A parked thread that looks at its ticket gets out exactly if it was let through. -/
  passes : ∀ i ticket, s.phase i = .parked ticket →
    ∃ s', s.step i .advance = some s' ∧ (s.emerges s' i = true ↔ s.LetThrough i)

/-- What one more access changes: a notification lets exactly those through that it admits,
and everybody who was let through stays so until it gets out. -/
structure StepsInOrder (s : Threads) (h : Hall) (i : ThreadId) (a : Action) (s' : Threads) :
    Prop where
  notified : s.emerges s' i = true → s.LetThrough i
  letThrough : ∀ j, s'.LetThrough j ↔
    j ∈ h.admitted a ∨ (s.LetThrough j ∧ ¬(j = i ∧ s.emerges s' i = true))
  waits : ∀ j, s'.Waits j ↔ (s.Waits j ∧ j ∉ h.admitted a) ∨ (a = .wait ∧ j = i)

/-- A thread with a ticket has the guard, or is parked. -/
theorem parked_of_ticket {ticket : Ticket} (drawn : (s.phase i).ticket? = some ticket)
    (guard : (s.phase i).hasGuard = false) : s.phase i = .parked ticket := by
  cases phase : s.phase i with
  | checking after =>
      rw [phase] at guard
      cases guard
  | clearing after =>
      rw [phase] at guard
      cases guard
  | parked own =>
      rw [phase] at drawn
      cases drawn
      rfl
  | _ =>
      rw [phase] at drawn
      cases drawn

/-- A look at the own ticket. -/
theorem emerges_iff {ticket : Ticket} (parked : s.phase i = .parked ticket) :
    ∃ s', s.step i .advance = some s' ∧ (s.emerges s' i = true ↔ s.LetThrough i) := by
  refine ⟨_, by rw [step, advance, parked], ?_⟩
  have known : s.LetThrough i ↔ s.tickets.isServed ticket = true := by
    simp [LetThrough, parked, Phase.ticket?]
  rw [known, emerges, parked, phase_enter_self]
  cases s.tickets.isServed ticket <;> simp [Phase.ticket?]

theorem Matches.inOrder (agree : s.Matches h) (exclusive : s.Exclusive) (bounded : h.Bounded) :
    s.InOrder h := by
  have room := bounded.length_lt
  have none := Tickets.served_eq_next_iff agree.next room
  have count := Tickets.waiting_of_next agree.next room
  constructor
  case waits => exact fun j => agree.waits_iff bounded
  case nodup => exact agree.nodup_waiting bounded
  case parked =>
    intro i known inside j mem
    -- while another thread has the guard, one with a ticket is past dropping its own
    obtain ⟨ticket, drawn, -⟩ := agree.waits_of_mem bounded mem
    refine ⟨ticket, parked_of_ticket drawn (Bool.eq_false_iff.mpr fun guard => ?_)⟩
    rw [exclusive.alone j i guard (by rw [inside]; rfl), inside] at drawn
    cases drawn
  case letThrough => exact fun j => agree.letThrough_iff bounded
  case waiting => exact count
  case notifyOne => rw [Tickets.notifyOne_fst_iff, ne_eq, none, List.length_eq_zero_iff]
  case notifyAll => exact count
  case forgotten =>
    intro nobody
    have same := none.mpr (List.length_eq_zero_iff.mpr nobody)
    constructor
    · rw [Tickets.notifyOne, if_pos same]
    · exact Tickets.ext rfl same.symm
  case passes => exact fun i ticket parked => emerges_iff parked

theorem Matches.stepsInOrder (agree : s.Matches h) (exclusive : s.Exclusive)
    (bounded : h.Bounded) (turn : Turn s i a s')
    (bounded' : (h.follow i a (s.emerges s' i)).Bounded) : s.StepsInOrder h i a s' := by
  have agree' := turn.matches exclusive agree bounded
  constructor
  case notified => exact fun out => (turn.of_emerges exclusive out).2
  case letThrough =>
    intro j
    rw [agree'.letThrough_iff bounded', agree.letThrough_iff bounded]
    exact Hall.isThrough_follow fun out => (turn.of_emerges exclusive out).1
  case waits =>
    intro j
    rw [agree'.waits_iff bounded', agree.waits_iff bounded]
    exact Hall.mem_waiting_follow (agree.nodup_waiting bounded)

/-- In every interleaving the queue serves those who wait in the order in which they began
to, whatever the counters have wrapped to. -/
theorem served_in_order {value : Int} {script : List (ThreadId × Action)} {s : Threads}
    (reach : (start value).run script = some s)
    (limited : (start value).Limited .empty script) :
    s.InOrder ((start value).hall .empty script) ∧
      ∀ i a s', s.step i a = some s' →
        (((start value).hall .empty script).follow i a (s.emerges s' i)).Bounded →
        s.StepsInOrder ((start value).hall .empty script) i a s' := by
  obtain ⟨exclusive, agree, bounded⟩ :=
    matches_hall reach (exclusive_start value) (matches_start value) limited
  exact ⟨agree.inOrder exclusive bounded, fun i a s' step =>
    agree.stepsInOrder exclusive bounded (step_turn step)⟩

/-- Two threads wait, and a third one, with the guard, has let one of them through. -/
def oneOfTwo : List (ThreadId × Action) :=
  [(0, .lock), (0, .advance), (0, .wait), (0, .advance), (0, .advance),
    (1, .lock), (1, .advance), (1, .wait), (1, .advance), (1, .advance),
    (2, .lock), (2, .advance), (2, .notifyOne)]

/-- The first of the two was let through, and the next notification is for the other. -/
theorem served_in_order_two : ∃ s, (start 0).run oneOfTwo = some s ∧
    (start 0).Limited .empty oneOfTwo ∧ s.InOrder ⟨[1], [(0, 0)]⟩ ∧
    ∃ s', s.step 2 .notifyAll = some s' ∧
      s.StepsInOrder ⟨[1], [(0, 0)]⟩ 2 .notifyAll s' := by
  obtain ⟨s, reach⟩ : ∃ s, (start 0).run oneOfTwo = some s := ⟨_, rfl⟩
  have limited : (start 0).Limited .empty oneOfTwo := by decide
  have told : (start 0).hall .empty oneOfTwo = ⟨[1], [(0, 0)]⟩ := by decide
  obtain ⟨before, next⟩ := served_in_order reach limited
  rw [told] at before next
  obtain ⟨s', step⟩ : ∃ s', s.step 2 .notifyAll = some s' := by
    cases reach
    exact ⟨_, rfl⟩
  refine ⟨s, reach, limited, before, s', step, next 2 .notifyAll s' step ?_⟩
  exact (by decide : (Hall.mk [] [(0, 1), (1, 0)]).Bounded)

end Threads

end Highmem.Sync
