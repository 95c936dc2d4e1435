import Highmem.Proofs.Sync.Tickets
import Highmem.Proofs.Sync.Turns
import Mathlib.Data.List.Nodup

/-!
# Waiting in order

A `Hall` is told from the history of a queue alone, without a look at its counters: who
drew a ticket and was not let through yet, in the order of the draws, and who was let
through and is not out of `wait` yet. The two counters say the same. Their distance is the
number of those who wait, a ticket has been served exactly if its owner was let through,
and a thread leaves `wait` exactly if it was.

The counters may wrap. The signed distance of a ticket from the first unserved one tells
served tickets from others as long as it is not too far: fewer than 2^62 threads wait at
any time, and no thread that was let through stays in `wait` while more than 2^62 others
are let through after it.
-/

namespace Highmem.Sync

namespace Tickets

variable {t : Tickets} {x : Ticket} {k : Nat}

theorem toNat_add_ofNat (x : Ticket) (k : Nat) :
    (x + .ofNat k).toNat = (x.toNat + k) % wordCount := by
  rw [UInt64.toNat_add, UInt64.toNat_ofNat']
  unfold wordCount
  omega

/-- How many tickets were served since a ticket was drawn before them, its own included. -/
def lead (t : Tickets) (x : Ticket) : Nat := (t.served - x).toNat

theorem lead_eq (t : Tickets) (x : Ticket) :
    t.lead x = (wordCount - x.toNat + t.served.toNat) % wordCount := UInt64.toNat_sub _ _

theorem isServed_iff_lead : t.isServed x = true ↔ 0 < t.lead x ∧ t.lead x < horizon := by
  rw [isServed, Bool.and_eq_true, decide_eq_true_iff, decide_eq_true_iff]
  exact Iff.rfl

section

variable {t' : Tickets} {c : Nat} (served : t'.served = t.served + .ofNat c)

include served

/-- Serving some tickets leaves the others behind by as many. -/
theorem lead_add (room : t.lead x + c < wordCount) : t'.lead x = t.lead x + c := by
  have hx := x.toNat_lt
  have hserved := t.served.toNat_lt
  rw [lead_eq] at room
  rw [lead_eq, lead_eq, served, toNat_add_ofNat]
  unfold wordCount at *
  omega

/-- The tickets that are served now: the oldest one leads by as many as there are. -/
theorem lead_served (first : k ≤ c) (few : c < wordCount) :
    t'.lead (t.served + .ofNat k) = c - k := by
  have hserved := t.served.toNat_lt
  rw [lead_eq, served, toNat_add_ofNat, toNat_add_ofNat]
  unfold wordCount at *
  omega

end

/-- The ticket that is `k` draws ahead of the first unserved one. -/
theorem lead_ahead (few : k < wordCount) :
    t.lead (t.served + .ofNat k) = (wordCount - k) % wordCount := by
  have hserved := t.served.toNat_lt
  rw [lead_eq, toNat_add_ofNat]
  unfold wordCount at *
  omega

theorem waiting_of_next (next : t.next = t.served + .ofNat k) (few : k < wordCount) :
    t.waiting = k := by
  have hserved := t.served.toNat_lt
  rw [waiting_eq, next, toNat_add_ofNat]
  unfold wordCount at *
  omega

end Tickets

/-- The threads inside `wait`, as the history of a queue tells them. -/
structure Hall where
  /-- Those that were not let through, the one that waits longest first. -/
  waiting : List ThreadId
  /-- Those that were, each with the number of threads that were let through after it. -/
  through : List (ThreadId × Nat)
  deriving DecidableEq

namespace Hall

def empty : Hall := ⟨[], []⟩

/-- A thread was let through and is not out of `wait` yet. -/
def IsThrough (h : Hall) (i : ThreadId) : Prop := ∃ later, (i, later) ∈ h.through

/-- The `k` threads that wait longest are let through. -/
def letIn (h : Hall) (k : Nat) : Hall where
  waiting := h.waiting.drop k
  through :=
    h.through.map (fun x => (x.1, x.2 + (h.waiting.take k).length)) ++
      (h.waiting.take k).map (·, 0)

/-- What an access of a thread means for the hall. `out` tells whether it brings the thread
out of `wait`. -/
def follow (h : Hall) (i : ThreadId) (a : Action) (out : Bool) : Hall :=
  match a with
  | .wait => { h with waiting := h.waiting ++ [i] }
  | .notifyOne => h.letIn 1
  | .notifyAll => h.letIn h.waiting.length
  | _ => if out then { h with through := h.through.filter (·.1 ≠ i) } else h

/-- A quarter of all tickets: two to the power of 62. -/
def limit : Nat := 0x4000000000000000

/-- Few threads wait, and none that was let through stays while many others are. -/
structure Bounded (h : Hall) : Prop where
  waiting : h.waiting.length < limit
  through : ∀ x ∈ h.through, x.2 ≤ limit

instance (h : Hall) : Decidable h.Bounded :=
  decidable_of_iff (h.waiting.length < limit ∧ ∀ x ∈ h.through, x.2 ≤ limit)
    ⟨fun both => ⟨both.1, both.2⟩, fun bounded => ⟨bounded.waiting, bounded.through⟩⟩

/-- The counters are wide enough to tell how many threads wait. -/
theorem Bounded.length_lt {h : Hall} (bounded : h.Bounded) : h.waiting.length < wordCount :=
  Nat.lt_trans bounded.waiting (by decide)

/-- An access that neither draws nor serves tickets, nor brings its thread out of `wait`. -/
theorem follow_quiet (h : Hall) (i : ThreadId) {a : Action}
    (quiet : a ≠ .wait ∧ a ≠ .notifyOne ∧ a ≠ .notifyAll) : h.follow i a false = h := by
  obtain ⟨wait, notifyOne, notifyAll⟩ := quiet
  cases a with
  | wait => exact absurd rfl wait
  | notifyOne => exact absurd rfl notifyOne
  | notifyAll => exact absurd rfl notifyAll
  | _ => rfl

end Hall

namespace Threads

variable {s s' : Threads} {h : Hall} {i j : ThreadId} {a : Action} {ticket : Ticket}

/-- Whether an access that leads from `s` to `s'` brings a thread out of `wait`. -/
def emerges (s s' : Threads) (i : ThreadId) : Bool :=
  (s.phase i).ticket?.isSome && (s'.phase i).ticket?.isNone

def hall (s : Threads) (h : Hall) : List (ThreadId × Action) → Hall
  | [] => h
  | (i, a) :: later =>
    match s.step i a with
    | some s' => s'.hall (h.follow i a (s.emerges s' i)) later
    | none => h

/-- The hall is bounded throughout some accesses. -/
def Limited (s : Threads) (h : Hall) : List (ThreadId × Action) → Prop
  | [] => h.Bounded
  | (i, a) :: later =>
    h.Bounded ∧
      match s.step i a with
      | some s' => s'.Limited (h.follow i a (s.emerges s' i)) later
      | none => True

instance decidableLimited (s : Threads) (h : Hall) :
    (script : List (ThreadId × Action)) → Decidable (s.Limited h script)
  | [] => inferInstanceAs (Decidable h.Bounded)
  | (i, a) :: later =>
    match step : s.step i a with
    | some s' =>
      have := decidableLimited s' (h.follow i a (s.emerges s' i)) later
      decidable_of_iff (h.Bounded ∧ s'.Limited (h.follow i a (s.emerges s' i)) later)
        (by rw [Limited, step])
    | none => decidable_of_iff h.Bounded (by rw [Limited, step, and_true])

/-- A thread is inside `wait` and its ticket was not served. -/
def Waits (s : Threads) (i : ThreadId) : Prop :=
  ∃ ticket, (s.phase i).ticket? = some ticket ∧ s.tickets.isServed ticket = false

/-- A thread is inside `wait` and its ticket was served. -/
def LetThrough (s : Threads) (i : ThreadId) : Prop :=
  ∃ ticket, (s.phase i).ticket? = some ticket ∧ s.tickets.isServed ticket = true

/-- The counters say what the hall says. -/
structure Matches (s : Threads) (h : Hall) : Prop where
  next : s.tickets.next = s.tickets.served + .ofNat h.waiting.length
  waiting : ∀ k (lt : k < h.waiting.length),
    (s.phase h.waiting[k]).ticket? = some (s.tickets.served + .ofNat k)
  through : ∀ x ∈ h.through, ∃ ticket, (s.phase x.1).ticket? = some ticket ∧
    0 < s.tickets.lead ticket ∧ s.tickets.lead ticket < x.2 + Hall.limit
  known : ∀ i ticket, (s.phase i).ticket? = some ticket →
    i ∈ h.waiting ∨ h.IsThrough i

theorem matches_start (value : Int) : (start value).Matches .empty := by
  refine ⟨rfl, fun k lt => absurd lt (Nat.not_lt_zero k), nofun, fun i ticket drawn => ?_⟩
  cases drawn

namespace Matches

variable (agree : s.Matches h)

include agree

/-- The phase of a thread is of no concern beyond its ticket. -/
theorem of_same (tickets : s'.tickets = s.tickets)
    (same : ∀ j, (s'.phase j).ticket? = (s.phase j).ticket?) : s'.Matches h := by
  constructor
  · rw [tickets, agree.next]
  · intro k lt
    rw [tickets, same, agree.waiting k lt]
  · intro x mem
    rw [tickets, same]
    exact agree.through x mem
  · intro i ticket drawn
    rw [same] at drawn
    exact agree.known i ticket drawn

/-- A thread that draws a ticket waits behind all others. -/
theorem draw {phase : Phase} (outside : (s.phase i).ticket? = none)
    (drawn : phase.ticket? = some s.tickets.next) :
    ({ s with tickets := s.tickets.draw.2 }.enter i phase).Matches
      { h with waiting := h.waiting ++ [i] } := by
  have others : ∀ j ticket, (s.phase j).ticket? = some ticket →
      (({ s with tickets := s.tickets.draw.2 }.enter i phase).phase j).ticket? = some ticket := by
    intro j ticket here
    have apart : j ≠ i := fun same => by
      rw [same, outside] at here
      cases here
    rw [phase_enter_of_ne _ phase apart]
    exact here
  constructor
  · change s.tickets.next + 1 = s.tickets.served + .ofNat (h.waiting ++ [i]).length
    rw [List.length_append, List.length_singleton, UInt64.ofNat_add, ← UInt64.add_assoc,
      agree.next]
    rfl
  · intro k lt
    rw [List.length_append, List.length_singleton] at lt
    rcases Nat.lt_succ_iff_lt_or_eq.mp lt with old | rfl
    · rw [List.getElem_append_left old]
      exact others _ _ (agree.waiting k old)
    · rw [List.getElem_append_right (Nat.le_refl _)]
      simp only [Nat.sub_self, List.getElem_singleton, phase_enter_self]
      rw [drawn, agree.next]
      rfl
  · intro x mem
    obtain ⟨ticket, here, lead⟩ := agree.through x mem
    exact ⟨ticket, others _ _ here, lead⟩
  · intro j ticket here
    by_cases mine : j = i
    · rw [mine]
      exact Or.inl (List.mem_append_right _ (List.mem_singleton_self i))
    · rw [phase_enter_of_ne _ phase mine] at here
      exact (agree.known j ticket here).imp_left (List.mem_append_left [i])

/-- Serving the tickets of the first threads lets these through. -/
theorem letIn {t : Tickets} {k : Nat} (bounded : h.Bounded) (next : t.next = s.tickets.next)
    (served : t.served = s.tickets.served + .ofNat (h.waiting.take k).length) :
    ({ s with tickets := t } : Threads).Matches (h.letIn k) := by
  have count := List.length_take (i := k) (l := h.waiting)
  have few : (h.waiting.take k).length < Hall.limit := by
    have := bounded.waiting
    omega
  constructor
  · change t.next = t.served + .ofNat (h.waiting.drop k).length
    rw [next, served, agree.next, UInt64.add_assoc, ← UInt64.ofNat_add, List.length_drop]
    congr 2
    omega
  · intro j lt
    have inside : k + j < h.waiting.length := by
      simp only [Hall.letIn, List.length_drop] at lt
      omega
    have same : (h.letIn k).waiting[j] = h.waiting[k + j] := List.getElem_drop
    rw [same, agree.waiting (k + j) inside, served, UInt64.add_assoc, ← UInt64.ofNat_add]
    congr 3
    omega
  · intro x mem
    -- a ticket that was served before gets further ahead, and one that is served now gets
    -- ahead by the number of those behind it
    rcases List.mem_append.mp mem with old | new
    · obtain ⟨y, known, rfl⟩ := List.mem_map.mp old
      obtain ⟨ticket, here, ahead, near⟩ := agree.through y known
      have later := bounded.through y known
      have lead : t.lead ticket = s.tickets.lead ticket + (h.waiting.take k).length :=
        Tickets.lead_add served (by unfold wordCount Hall.limit at *; omega)
      refine ⟨ticket, here, ?_⟩
      change 0 < t.lead ticket ∧ t.lead ticket < y.2 + (h.waiting.take k).length + Hall.limit
      omega
    · obtain ⟨j, first, rfl⟩ := List.mem_map.mp new
      obtain ⟨n, lt, rfl⟩ := List.getElem_of_mem first
      have lead : t.lead (s.tickets.served + .ofNat n) = (h.waiting.take k).length - n :=
        Tickets.lead_served served (Nat.le_of_lt lt) (by unfold wordCount Hall.limit at *; omega)
      refine ⟨s.tickets.served + .ofNat n, ?_, ?_⟩
      · rw [List.getElem_take]
        exact agree.waiting n _
      · change 0 < t.lead _ ∧ t.lead _ < 0 + Hall.limit
        omega
  · intro i ticket here
    rcases agree.known i ticket here with waits | ⟨later, mem⟩
    · rw [← List.take_append_drop k h.waiting, List.mem_append] at waits
      refine waits.symm.imp id fun first => ⟨0, List.mem_append_right _ ?_⟩
      exact List.mem_map_of_mem first
    · exact Or.inr ⟨_, List.mem_append_left _ (List.mem_map_of_mem mem)⟩

/-- One who waits was not let through. -/
theorem waits_of_mem (bounded : h.Bounded) (mem : i ∈ h.waiting) : s.Waits i := by
  obtain ⟨k, lt, rfl⟩ := List.getElem_of_mem mem
  refine ⟨_, agree.waiting k lt, Bool.eq_false_iff.mpr fun served => ?_⟩
  obtain ⟨ahead, near⟩ := Tickets.isServed_iff_lead.mp served
  have few := bounded.waiting
  rw [Tickets.lead_ahead (Nat.lt_trans lt bounded.length_lt)] at ahead near
  unfold wordCount Tickets.horizon Hall.limit at *
  omega

theorem letThrough_of_mem (bounded : h.Bounded) (mem : h.IsThrough i) :
    s.LetThrough i := by
  obtain ⟨later, mem⟩ := mem
  obtain ⟨ticket, here, ahead, near⟩ := agree.through _ mem
  refine ⟨ticket, here, Tickets.isServed_iff_lead.mpr ⟨ahead, ?_⟩⟩
  have few := bounded.through _ mem
  unfold Tickets.horizon Hall.limit at *
  omega

/-- The tickets that were not served are those of the threads that wait. -/
theorem waits_iff (bounded : h.Bounded) : s.Waits i ↔ i ∈ h.waiting := by
  refine ⟨fun waits => ?_, agree.waits_of_mem bounded⟩
  obtain ⟨ticket, here, unserved⟩ := waits
  refine (agree.known i ticket here).resolve_right fun mem => ?_
  obtain ⟨same, here', served⟩ := agree.letThrough_of_mem bounded mem
  cases here.symm.trans here'
  exact absurd (served.symm.trans unserved) nofun

theorem letThrough_iff (bounded : h.Bounded) :
    s.LetThrough i ↔ h.IsThrough i := by
  refine ⟨fun through => ?_, agree.letThrough_of_mem bounded⟩
  obtain ⟨ticket, here, served⟩ := through
  refine (agree.known i ticket here).resolve_left fun mem => ?_
  obtain ⟨same, here', unserved⟩ := agree.waits_of_mem bounded mem
  cases here.symm.trans here'
  exact absurd (served.symm.trans unserved) nofun

/-- Nobody waits twice. -/
theorem nodup_waiting (bounded : h.Bounded) : h.waiting.Nodup := by
  rw [List.nodup_iff_getElem?_ne_getElem?]
  intro k l lt inside same
  have few := bounded.length_lt
  have before : k < h.waiting.length := Nat.lt_trans lt inside
  rw [List.getElem?_eq_getElem before, List.getElem?_eq_getElem inside] at same
  have drawn := agree.waiting k before
  rw [Option.some.inj same, agree.waiting l inside] at drawn
  -- the places of a line that is shorter than the counters can count have different tickets
  have distance := congrArg s.tickets.lead (Option.some.inj drawn)
  rw [Tickets.lead_ahead (Nat.lt_trans inside few),
    Tickets.lead_ahead (Nat.lt_trans before few)] at distance
  unfold wordCount at *
  omega

/-- A thread that finds its ticket served goes on to lock. -/
theorem pass (bounded : h.Bounded) {ticket : Ticket} (parked : s.phase i = .parked ticket)
    (served : s.tickets.isServed ticket = true) :
    (s.enter i .exchanging).Matches { h with through := h.through.filter (·.1 ≠ i) } := by
  have through : s.LetThrough i := ⟨ticket, by rw [parked]; rfl, served⟩
  have absent : i ∉ h.waiting := fun mem => by
    obtain ⟨same, here, unserved⟩ := agree.waits_of_mem bounded mem
    rw [parked] at here
    cases here
    exact absurd (served.symm.trans unserved) nofun
  constructor
  · exact agree.next
  · intro k lt
    have apart : h.waiting[k] ≠ i := fun same => absent (same ▸ List.getElem_mem lt)
    change ((s.enter i .exchanging).phase h.waiting[k]).ticket? = _
    rw [phase_enter_of_ne _ _ apart]
    exact agree.waiting k lt
  · intro x mem
    obtain ⟨known, apart⟩ := List.mem_filter.mp mem
    rw [phase_enter_of_ne _ _ (of_decide_eq_true apart)]
    exact agree.through x known
  · intro j ticket here
    by_cases mine : j = i
    · rw [mine, phase_enter_self] at here
      cases here
    · rw [phase_enter_of_ne _ _ mine] at here
      refine (agree.known j ticket here).imp_right fun ⟨later, mem⟩ => ⟨later, ?_⟩
      exact List.mem_filter.mpr ⟨mem, decide_eq_true mine⟩

end Matches

theorem emerges_eq_false (same : (s'.phase i).ticket? = (s.phase i).ticket?) :
    s.emerges s' i = false := by
  rw [emerges, same]
  cases (s.phase i).ticket? <;> rfl

end Threads

end Highmem.Sync
