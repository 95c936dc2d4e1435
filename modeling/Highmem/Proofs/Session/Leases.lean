import Highmem.Proofs.Session.Agreement
import Highmem.Proofs.Session.Journal

/-!
# Leases

A lease of an address begins with the grant that takes its slot, and it ends when the
address has been given back as often as its frame was granted since then. The journal
alone tells which leases are open.

While a lease is open, its slot is held for its frame by as many callers as the lease has
outstanding: `Records.leased` says so for one critical section and `leased_afterAll` for a
run. `Honours` collects what callers get from it. Which passes, refusals and faults happen
meanwhile does not matter.
-/

namespace Highmem

open Paging Sync

/-- An open lease of an address. -/
structure Lease where
  frame : Frame
  /-- How often the frame was granted since the slot was taken, that grant included. -/
  acquired : Nat
  /-- How often the address was given back since then. -/
  released : Nat
  deriving DecidableEq

namespace Lease

/-- How often the address is still to be given back. -/
def outstanding (l : Lease) : Nat := l.acquired - l.released

/-- The hold that a lease gives on its slot. -/
def hold (l : Lease) : Frame × Nat := (l.frame, l.outstanding)

/-- What a note does to the lease of `va`. -/
def enter (va : VirtAddr) : Option Lease → Note → Option Lease
  | none, .granted f place => if place = va then some ⟨f, 1, 0⟩ else none
  | none, .released _ _ => none
  | some l, .granted f _ =>
    if f = l.frame then some { l with acquired := l.acquired + 1 } else some l
  | some l, .released place _ =>
    if place = va then
      if l.released + 1 = l.acquired then none else some { l with released := l.released + 1 }
    else some l

/-- The lease of `va` after some notes. -/
def follow (va : VirtAddr) (lease : Option Lease) (js : List Note) : Option Lease :=
  js.foldl (enter va) lease

/-- The lease of `va` that a journal leaves open. -/
def openAt (va : VirtAddr) (js : List Note) : Option Lease := follow va none js

theorem follow_append (va : VirtAddr) (lease : Option Lease) (js js' : List Note) :
    follow va lease (js ++ js') = follow va (follow va lease js) js' := List.foldl_append

/-- A grant of its frame adds one to what a lease has outstanding. -/
theorem hold_granted {l : Lease} (va place : VirtAddr) (pos : 0 < l.outstanding) :
    (follow va (some l) [.granted l.frame place]).map hold =
      some (l.frame, l.outstanding + 1) := by
  have granted : follow va (some l) [.granted l.frame place] =
      some { l with acquired := l.acquired + 1 } := if_pos rfl
  rw [granted, Option.map_some, hold]
  simp only [outstanding] at pos ⊢
  rw [Nat.sub_add_comm (Nat.le_of_lt (Nat.lt_of_sub_pos pos))]

/-- A release takes one away, and the last one closes the lease. -/
theorem hold_released {l : Lease} (va : VirtAddr) (f? : Option Frame) {k : Nat}
    (count : l.outstanding = k + 1) :
    (follow va (some l) [.released va f?]).map hold =
      if k = 0 then none else some (l.frame, k) := by
  have released : follow va (some l) [.released va f?] =
      if l.released + 1 = l.acquired then none
      else some { l with released := l.released + 1 } := if_pos rfl
  simp only [outstanding] at count
  rw [released]
  by_cases last : k = 0
  · rw [if_pos last, if_pos (by omega), Option.map_none]
  · rw [if_neg last, if_neg (by omega), Option.map_some, hold]
    simp only [outstanding]
    rw [show l.acquired - (l.released + 1) = k by omega]

/-- A grant opens a lease of its address or carries on that of its frame. -/
theorem exists_granted {va : VirtAddr} {f : Frame} {lease : Option Lease}
    (same : ∀ l, lease = some l → l.frame = f) :
    ∃ l, follow va lease [.granted f va] = some l ∧ l.frame = f := by
  cases lease with
  | none => exact ⟨⟨f, 1, 0⟩, if_pos rfl, rfl⟩
  | some l =>
      have here := same l rfl
      exact ⟨{ l with acquired := l.acquired + 1 }, if_pos here.symm, here⟩

/-- A note is worth one grant at most. -/
theorem acquired_enter_le {va : VirtAddr} {lease : Option Lease} {note : Note} {l : Lease}
    {k : Nat} (before : ∀ l, lease = some l → l.acquired ≤ k)
    (entered : enter va lease note = some l) : l.acquired ≤ k + 1 := by
  cases lease with
  | none =>
      cases note with
      | granted f place =>
          simp only [enter, Option.ite_none_right_eq_some, Option.some.injEq] at entered
          rw [← entered.2]
          exact Nat.succ_pos k
      | released place f? => cases entered
  | some old =>
      have old_le := before old rfl
      cases note with
      | granted f place =>
          simp only [enter] at entered
          split at entered
          · cases entered
            exact Nat.succ_le_succ old_le
          · cases entered
            exact Nat.le_succ_of_le old_le
      | released place f? =>
          simp only [enter] at entered
          split at entered
          · split at entered
            · cases entered
            · cases entered
              exact Nat.le_succ_of_le old_le
          · cases entered
            exact Nat.le_succ_of_le old_le

/-- A lease cannot count more grants than the journal has notes. -/
theorem acquired_le {va : VirtAddr} {js : List Note} {l : Lease} (h : openAt va js = some l) :
    l.acquired ≤ js.length := by
  induction js using List.reverseRecOn generalizing l with
  | nil => cases h
  | append_singleton earlier note ih =>
      rw [openAt, follow_append] at h
      rw [List.length_append]
      exact acquired_enter_le (fun _ => ih) h

end Lease

namespace Pool

variable {n c : Nat} {p q : Pool n c} {nr : Fin n} {f : Frame} {js : List Note}
  {lease : Option Lease}

/-- A grant at another slot does not count for the lease of a slot, since the frame of
the lease is bound to its own slot only. -/
theorem Consistent.follow_granted (consistent : p.Consistent) {other : Fin n}
    (bound : (p.slot other).frame? = some f) (apart : nr ≠ other)
    (leased : (p.slot nr).hold? = lease.map Lease.hold) :
    Lease.follow (p.address nr) lease [.granted f (p.address other)] = lease := by
  cases lease with
  | none => exact if_neg fun same => apart (consistent.eq_of_address_eq same).symm
  | some l =>
      refine if_neg fun same => apart (consistent.eq_of_bound (f := f) ?_ bound)
      rw [same]
      exact Slot.frame?_of_hold? leased

/-- A release at another slot does not count for the lease of a slot. -/
theorem Consistent.follow_released (consistent : p.Consistent) {other : Fin n} {f? : Option Frame}
    (apart : nr ≠ other) :
    Lease.follow (p.address nr) lease [.released (p.address other) f?] = lease := by
  cases lease with
  | none => rfl
  | some l => exact if_neg fun same => apart (consistent.eq_of_address_eq same).symm

/-- A critical section keeps a slot held as its lease says, unless there are more holders
than a word counts. -/
theorem Records.leased (records : p.Records q js) (before : p.Consistent) (after : q.Consistent)
    (base : q.base = p.base) (leased : (p.slot nr).hold? = lease.map Lease.hold)
    (few : ∀ l, Lease.follow (p.address nr) lease js = some l → l.outstanding < wordCount) :
    (q.slot nr).hold? = (Lease.follow (p.address nr) lease js).map Lease.hold := by
  have place : ∀ nr, q.address nr = p.address nr := address_eq base
  cases records with
  | nothing same => exact (same nr).trans leased
  | @taken other f idle hold others =>
      by_cases here : nr = other
      · subst here
        have fresh : lease = none := Option.map_eq_none_iff.mp (leased.symm.trans idle)
        have opened : Lease.follow (p.address nr) none [.granted f (p.address nr)] =
            some ⟨f, 1, 0⟩ := if_pos rfl
        rw [hold, fresh, opened]
        rfl
      · have kept := (others nr here).trans leased
        have same := after.follow_granted (Slot.frame?_of_hold? hold) here kept
        rw [place, place] at same
        rw [kept, same]
  | @joined other f k k' hold hold' more others =>
      by_cases here : nr = other
      · subst here
        obtain ⟨l, rfl, same⟩ := Option.map_eq_some_iff.mp (leased.symm.trans hold)
        obtain ⟨rfl, rfl⟩ := Prod.mk.inj same
        have grown := Lease.hold_granted (p.address nr) (p.address nr) (Slot.pos_of_hold? hold)
        obtain ⟨l', open', count⟩ := Option.map_eq_some_iff.mp grown
        have room := few l' open'
        rw [(Prod.mk.inj count).2] at room
        rw [hold', more room, grown]
      · have kept := (others nr here).trans leased
        have same := after.follow_granted (Slot.frame?_of_hold? hold') here kept
        rw [place, place] at same
        rw [kept, same]
  | @left other f k hold hold' others =>
      by_cases here : nr = other
      · subst here
        obtain ⟨l, rfl, same⟩ := Option.map_eq_some_iff.mp (leased.symm.trans hold)
        obtain ⟨rfl, count⟩ := Prod.mk.inj same
        rw [hold', Lease.hold_released (p.address nr) (some l.frame) count]
      · rw [others nr here, leased, before.follow_released here]

/-- Nothing but a release of its address takes a slot from its frame. -/
theorem Records.keeps {k : Nat} (records : p.Records q js)
    (hold : (p.slot nr).hold? = some (f, k))
    (stays : ∀ f?, .released (p.address nr) f? ∉ js) : ∃ k', (q.slot nr).hold? = some (f, k') := by
  cases records with
  | nothing same => exact ⟨k, (same nr).trans hold⟩
  | @taken other _ idle _ others =>
      have apart : nr ≠ other := fun e => by
        rw [← e, hold] at idle
        cases idle
      exact ⟨k, (others nr apart).trans hold⟩
  | @joined other _ _ k' hold' more _ others =>
      by_cases here : nr = other
      · subst here
        obtain ⟨rfl, -⟩ := Prod.mk.inj (Option.some.inj (hold.symm.trans hold'))
        exact ⟨k', more⟩
      · exact ⟨k, (others nr here).trans hold⟩
  | @left other _ _ _ _ others =>
      have apart : nr ≠ other := fun e => stays _ (by rw [e]; exact List.mem_singleton_self _)
      exact ⟨k, (others nr apart).trans hold⟩

/-- The address of a held slot is granted to those only that ask for its frame. -/
theorem Records.eq_of_granted {g : Frame} {k : Nat}
    (records : p.Records q [.granted g (p.address nr)]) (consistent : p.Consistent)
    (hold : (p.slot nr).hold? = some (f, k)) : g = f := by
  generalize place : p.address nr = va at records
  cases records with
  | @taken other _ idle =>
      rw [← consistent.eq_of_address_eq place, hold] at idle
      cases idle
  | @joined other _ _ _ hold' =>
      rw [← consistent.eq_of_address_eq place, hold] at hold'
      exact (Prod.mk.inj (Option.some.inj hold')).1.symm

/-- No critical section opens a lease of an address that no slot has. -/
theorem Records.closed {va : VirtAddr} (records : p.Records q js)
    (apart : ∀ nr, p.address nr ≠ va) : Lease.openAt va js = none := by
  cases records with
  | nothing => rfl
  | taken => exact if_neg (apart _)
  | joined => exact if_neg (apart _)
  | left => rfl

/-- A request for a bound frame is granted the address of its slot. -/
theorem Attempts.result_of_bound {o : Outcome (Pool n c) Grant} (ends : p.Attempts f o)
    (consistent : p.Consistent) (bound : (p.slot nr).frame? = some f) :
    o.result = .ok (.granted (p.address nr)) := by
  cases ends with
  | shared bound' => rw [consistent.eq_of_bound bound bound']
  | bound unbound => exact absurd bound (unbound nr)
  | parked unbound => exact absurd bound (unbound nr)
  | tooWide unbound => exact absurd bound (unbound nr)
  | aborted unbound => exact absurd bound (unbound nr)

end Pool

namespace Session

variable {n c : Nat} {s : Session n c} {nr : Fin n} {lease : Option Lease}

/-- Every slot is held as its lease says, as long as no lease has more outstanding than a
word counts. -/
theorem leased_afterAll (consistent : s.pool.Consistent)
    (leased : (s.pool.slot nr).hold? = lease.map Lease.hold) (moves : List Move)
    (few : ∀ earlier later, moves = earlier ++ later → ∀ l,
      Lease.follow (s.pool.address nr) lease (s.journal earlier) = some l →
        l.outstanding < wordCount) :
    ((s.afterAll moves).pool.slot nr).hold? =
      (Lease.follow (s.pool.address nr) lease (s.journal moves)).map Lease.hold := by
  induction moves generalizing s lease with
  | nil => exact leased
  | cons m later ih =>
      have transition := run_step consistent m
      have after := transition.consistent consistent
      have place := Pool.address_eq transition.base_eq nr
      have first := (records_step consistent m).leased consistent after transition.base_eq leased
        fun l h => few [m] later rfl l (by rw [journal, journal, List.append_nil]; exact h)
      rw [← place] at first ⊢
      rw [journal, Lease.follow_append]
      refine ih after first fun earlier later' split l h => ?_
      refine few (m :: earlier) later' (by rw [split]; rfl) l ?_
      rw [journal, Lease.follow_append, ← place]
      exact h

/-- No lease of an address that no slot has is ever open. -/
theorem closed_afterAll (consistent : s.pool.Consistent) {va : VirtAddr}
    (apart : ∀ nr, s.pool.address nr ≠ va) (moves : List Move) :
    Lease.openAt va (s.journal moves) = none := by
  induction moves generalizing s with
  | nil => rfl
  | cons m later ih =>
      have transition := run_step consistent m
      have first := (records_step consistent m).closed apart
      rw [Lease.openAt] at first
      rw [journal, Lease.openAt, Lease.follow_append, first]
      apply ih (transition.consistent consistent)
      intro nr
      rw [Pool.address_eq transition.base_eq]
      exact apart nr

/-- What the callers get from an open lease of the slot at `va`. -/
structure Honours (s : Session n c) (nr : Fin n) (va : VirtAddr) (l : Lease) : Prop where
  outstanding : l.released < l.acquired
  held : ∃ holders : Holders, s.pool.slot nr = .held l.frame holders ∧
    holders.toNat + l.released = l.acquired
  mapped : s.pool.table.lookup va = .ok (some l.frame)
  pointer : s.pool.addressOf? l.frame = some va
  again : ∀ m, s.asks? m = some l.frame → s.reply m = .ok (.mapped (.slot va))
  only : ∀ m f, s.asks? m = some f → s.reply m = .ok (.mapped (.slot va)) → f = l.frame
  lasts : ∀ m, ¬ (s.gives? m = some va ∧ s.reply m = .ok .done) →
    ∃ holders, (s.after m).pool.slot nr = .held l.frame holders

theorem honours_lease {l : Lease} (consistent : s.pool.Consistent)
    (leased : (s.pool.slot nr).hold? = some l.hold) : s.Honours nr (s.pool.address nr) l := by
  have bound := Slot.frame?_of_hold? leased
  have pos := Slot.pos_of_hold? leased
  obtain ⟨holders, held, count⟩ := Slot.hold?_eq_some_iff.mp leased
  simp only [Lease.outstanding] at pos count
  constructor
  case outstanding => omega
  case held => exact ⟨holders, held, by omega⟩
  case mapped => rw [consistent.lookup_address, bound]
  case pointer => exact consistent.get?_of_bound bound
  case again =>
    intro m asks
    obtain ⟨o, ends, answers, -⟩ := reply_of_asks consistent asks
    rw [ends.result_of_bound consistent bound] at answers
    generalize s.reply m = reply at answers ⊢
    cases answers with
    | granted => rfl
  case only =>
    intro m f asks mapped
    have records := records_step consistent m
    rw [notes_granted asks mapped] at records
    exact records.eq_of_granted consistent leased
  case lasts =>
    intro m stays
    obtain ⟨k, hold⟩ := (records_step consistent m).keeps leased fun f? mem =>
      stays (gives?_of_mem_notes mem)
    obtain ⟨holders, held, -⟩ := Slot.hold?_eq_some_iff.mp hold
    exact ⟨holders, held⟩

/-- In a run of fewer moves than a word counts no lease has too much outstanding. -/
theorem outstanding_lt {moves : List Move} (short : moves.length < wordCount) {va : VirtAddr}
    {earlier later : List Move} (split : moves = earlier ++ later) {l : Lease}
    (open? : Lease.openAt va (s.journal earlier) = some l) : l.outstanding < wordCount := by
  have grants := Lease.acquired_le open?
  have notes := s.length_journal_le earlier
  rw [split, List.length_append] at short
  unfold Lease.outstanding
  omega

section Create

variable {size : Pool.Size n} {base : VirtAddr} {pool : Pool n n}

/-- In a run of a new pool every slot is held as the journal says. -/
theorem hold?_of_create (created : Pool.create size base = .ok pool) (direct : DirectMap)
    (moves : List Move)
    (few : ∀ va earlier later, moves = earlier ++ later → ∀ l,
      Lease.openAt va ((start direct pool).journal earlier) = some l → l.outstanding < 2 ^ 64)
    (nr : Fin n) :
    (((start direct pool).afterAll moves).pool.slot nr).hold? =
      (Lease.openAt (pool.address nr) ((start direct pool).journal moves)).map Lease.hold := by
  have idle : (pool.slot nr).hold? = (none : Option Lease).map Lease.hold := by
    rw [Pool.slot_of_create created]
    rfl
  exact leased_afterAll (s := start direct pool) (Pool.consistent_of_create created) idle moves
    (few _)

/-- In a run of a new pool only addresses of slots have leases. -/
theorem exists_address_of_open (created : Pool.create size base = .ok pool) {direct : DirectMap}
    {moves : List Move} {va : VirtAddr} {l : Lease}
    (open? : Lease.openAt va ((start direct pool).journal moves) = some l) :
    ∃ nr, pool.address nr = va := by
  by_contra nowhere
  have apart : ∀ nr, pool.address nr ≠ va := fun nr here => nowhere ⟨nr, here⟩
  have closed : Lease.openAt va ((start direct pool).journal moves) = none :=
    closed_afterAll (s := start direct pool) (Pool.consistent_of_create created) apart moves
  rw [closed] at open?
  cases open?

end Create

/-- In a run of a new pool in which no lease has more outstanding than a word counts: an
open lease of an address is honoured, and the slot of an address without one has no
holder; a request that is granted an address has a lease of it for its frame; and open
leases for different frames are leases of different addresses. -/
theorem leases_honoured {size : Pool.Size n} {base : VirtAddr} {pool : Pool n n}
    (created : Pool.create size base = .ok pool) (direct : DirectMap) (moves : List Move)
    (few : ∀ va earlier later, moves = earlier ++ later → ∀ l,
      Lease.openAt va ((start direct pool).journal earlier) = some l → l.outstanding < 2 ^ 64) :
    let s := (start direct pool).afterAll moves
    let lease va := Lease.openAt va ((start direct pool).journal moves)
    (∀ va l, lease va = some l → ∃ nr : Fin n, s.pool.slotAddress nr = .ok va ∧ s.Honours nr va l) ∧
    (∀ (nr : Fin n) va, s.pool.slotAddress nr = .ok va → lease va = none →
      (s.pool.slot nr).isHeld = false) ∧
    (∀ m f va, s.asks? m = some f → s.reply m = .ok (.mapped (.slot va)) →
      ∃ l, Lease.openAt va ((start direct pool).journal (moves ++ [m])) = some l ∧
        l.frame = f) ∧
    ∀ va va' l l', lease va = some l → lease va' = some l' → (l.frame = l'.frame ↔ va = va') := by
  intro s lease
  have fresh := Pool.consistent_of_create created
  have consistent : s.pool.Consistent := consistent_afterAll (s := start direct pool) fresh moves
  have base_eq : s.pool.base = pool.base := base_afterAll (s := start direct pool) fresh moves
  have leased : ∀ nr, (s.pool.slot nr).hold? = (lease (s.pool.address nr)).map Lease.hold := by
    intro nr
    rw [Pool.address_eq base_eq]
    exact hold?_of_create created direct moves few nr
  have place : ∀ va l, lease va = some l → ∃ nr, s.pool.address nr = va := by
    intro va l open?
    obtain ⟨nr, here⟩ := exists_address_of_open created open?
    exact ⟨nr, (Pool.address_eq base_eq nr).trans here⟩
  have honours : ∀ nr l, lease (s.pool.address nr) = some l →
      s.Honours nr (s.pool.address nr) l := by
    intro nr l open?
    apply honours_lease consistent
    rw [leased, open?]
    rfl
  refine ⟨?_, ?_, ?_, ?_⟩
  · intro va l open?
    obtain ⟨nr, rfl⟩ := place va l open?
    exact ⟨nr, consistent.slotAddress_eq nr, honours nr l open?⟩
  · intro nr va here closed
    rw [consistent.slotAddress_eq] at here
    cases here
    apply Slot.hold?_eq_none_iff.mp
    rw [leased, closed]
    rfl
  · intro m f va asks mapped
    have noted : (start direct pool).journal (moves ++ [m]) =
        (start direct pool).journal moves ++ [.granted f va] := by
      rw [journal_append]
      change _ ++ (s.notes m ++ []) = _
      rw [notes_granted asks mapped, List.append_nil]
    rw [noted, Lease.openAt, Lease.follow_append]
    apply Lease.exists_granted
    intro l open?
    obtain ⟨nr, rfl⟩ := place va l open?
    exact ((honours nr l open?).only m f asks mapped).symm
  · intro va va' l l' open? open'
    obtain ⟨nr, rfl⟩ := place va l open?
    obtain ⟨nr', rfl⟩ := place va' l' open'
    have here := honours nr l open?
    have there := honours nr' l' open'
    constructor
    · intro same
      have pointer := there.pointer
      rw [← same, here.pointer] at pointer
      exact Option.some.inj pointer
    · intro same
      rw [same, open'] at open?
      cases open?
      rfl

theorem leases_honoured_shared :
    let moves : List Move := [.submit ⟨.ofNumber 1, .slots, none⟩,
      .submit ⟨.ofNumber 1, .slots, none⟩, .tryRelease Layout.windowBase,
      .submit ⟨.ofNumber 2, .slots, none⟩]
    ∃ pool : Pool 2 2, Pool.create ⟨by decide, by decide⟩ Layout.windowBase = .ok pool ∧
      (∀ va earlier later, moves = earlier ++ later → ∀ l,
        Lease.openAt va ((start .standard pool).journal earlier) = some l →
          l.outstanding < 2 ^ 64) ∧
      ∃ nr : Fin 2, ((start .standard pool).afterAll moves).Honours nr Layout.windowBase
        ⟨.ofNumber 1, 2, 1⟩ := by
  intro moves
  obtain ⟨pool, created⟩ : ∃ pool : Pool 2 2,
      Pool.create ⟨by decide, by decide⟩ Layout.windowBase = .ok pool := ⟨_, rfl⟩
  have few : ∀ va earlier later, moves = earlier ++ later → ∀ l,
      Lease.openAt va ((start .standard pool).journal earlier) = some l →
        l.outstanding < 2 ^ 64 := by
    intro va earlier later split l open?
    have short : moves.length < wordCount := by decide
    exact outstanding_lt short split open?
  have open? : Lease.openAt Layout.windowBase ((start .standard pool).journal moves) =
      some ⟨.ofNumber 1, 2, 1⟩ := by
    cases created
    decide
  obtain ⟨honoured, -⟩ := leases_honoured created .standard moves few
  obtain ⟨nr, -, honours⟩ := honoured _ _ open?
  exact ⟨pool, created, few, nr, honours⟩

end Session

end Highmem
