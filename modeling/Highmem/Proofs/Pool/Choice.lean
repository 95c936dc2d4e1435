import Highmem.Proofs.Pool.Flushing
import Mathlib.Order.Bounds.Basic

/-!
# The slot that a scan takes

A scan takes the lowest free slot from the cursor on; `Scanned` says so. If there is none, or if the cursor
is at slot zero, it runs one invalidation pass and takes the lowest slot that nobody held
before, which it fails to do only where every slot is held, or where a counter has no room
for the pass; that is `Wrapped`. Both say what becomes of the other slots and of the cursor.
-/

namespace Highmem

/-- In a sorted list the first element with a property is the least one. -/
theorem find?_eq_some_iff_isLeast {α : Type} [LinearOrder α] {l : List α}
    (sorted : l.Pairwise (· < ·)) {P : α → Bool} {a : α} :
    l.find? P = some a ↔ IsLeast {x | x ∈ l ∧ P x = true} a := by
  induction l with
  | nil =>
      refine iff_of_false nofun fun least => ?_
      exact absurd least.1.1 List.not_mem_nil
  | cons b rest ih =>
      obtain ⟨below, sorted⟩ := List.pairwise_cons.mp sorted
      by_cases here : P b = true
      · have least : IsLeast {x | x ∈ b :: rest ∧ P x = true} b := by
          refine ⟨⟨List.mem_cons_self, here⟩, ?_⟩
          rintro x ⟨mem, -⟩
          rcases List.mem_cons.mp mem with rfl | mem
          · exact le_rfl
          · exact (below x mem).le
        rw [List.find?_cons_of_pos here, Option.some.injEq]
        constructor
        · rintro rfl
          exact least
        · exact least.unique
      · have same : {x | x ∈ b :: rest ∧ P x = true} = {x | x ∈ rest ∧ P x = true} := by
          ext x
          refine and_congr_left fun holds => ?_
          rw [List.mem_cons, or_iff_right]
          rintro rfl
          exact here holds
        rw [List.find?_cons_of_neg here, ih sorted, same]

theorem mem_drop_finRange {n k : Nat} {nr : Fin n} :
    nr ∈ (List.finRange n).drop k ↔ k ≤ nr := by
  rw [List.mem_drop_iff_getElem]
  simp only [List.getElem_finRange, List.length_finRange]
  constructor
  · rintro ⟨i, inside, rfl⟩
    exact Nat.le_add_right k i
  · intro le
    refine ⟨nr - k, by omega, Fin.ext ?_⟩
    exact Nat.add_sub_cancel' le

namespace Pool

open Paging Sync

variable {n c : Nat} {p q : Pool n c} {nr : Fin n} {f : Frame} {es : List Event}

/-- The free slots that a scan comes to without an invalidation pass. -/
def freeAhead (p : Pool n c) : Set (Fin n) :=
  {nr | p.cursor.val ≠ 0 ∧ p.cursor ≤ nr ∧ p.slot nr = .free}

def unheld (p : Pool n c) : Set (Fin n) := {nr | (p.slot nr).isHeld = false}

theorem mem_freeAhead_iff (later : p.cursor.val ≠ 0) :
    nr ∈ p.freeAhead ↔ nr ∈ (List.finRange n).drop p.cursor ∧ p.freeAt nr = true := by
  rw [mem_drop_finRange, freeAt, Slot.isFree_iff]
  exact and_iff_right later

theorem ahead?_eq_some_iff : p.ahead? = some nr ↔ IsLeast p.freeAhead nr := by
  unfold ahead?
  by_cases first : p.cursor.val = 0
  · rw [if_pos first]
    exact iff_of_false nofun fun least => least.1.1 first
  · have same : p.freeAhead =
        {nr | nr ∈ (List.finRange n).drop p.cursor ∧ p.freeAt nr = true} :=
      Set.ext fun _ => mem_freeAhead_iff first
    rw [if_neg first, same]
    exact find?_eq_some_iff_isLeast (List.pairwise_lt_finRange n).drop

theorem ahead?_eq_none_iff : p.ahead? = none ↔ p.freeAhead = ∅ := by
  unfold ahead?
  rw [Set.eq_empty_iff_forall_notMem]
  by_cases first : p.cursor.val = 0
  · rw [if_pos first]
    exact iff_of_true rfl fun nr mem => mem.1 first
  · rw [if_neg first, List.find?_eq_none]
    simp only [mem_freeAhead_iff first, not_and]

theorem lowest?_eq_some_iff : p.lowest? = some nr ↔ IsLeast p.unheld nr := by
  have same : p.unheld = {nr | nr ∈ List.finRange n ∧ (!(p.slot nr).isHeld) = true} := by
    ext nr
    change (p.slot nr).isHeld = false ↔ nr ∈ List.finRange n ∧ (!(p.slot nr).isHeld) = true
    rw [Bool.not_eq_true', and_iff_right (List.mem_finRange nr)]
  rw [same]
  exact find?_eq_some_iff_isLeast (List.pairwise_lt_finRange n)

/-- A search leaves the cursor behind the slot that it comes to. -/
theorem Search.cursor_eq (search : p.Search (some nr) q es) : q.cursor = Cyclic.next nr := by
  cases search with
  | ahead => rfl
  | around => rfl

/-- A pass that ends well is counted, and has asked for a single invalidation. -/
theorem Passes.counts {freed : Nat} (pass : p.Passes ⟨.ok freed, q, es⟩) :
    q.passes = p.passes + 1 ∧ invalidations es = 1 := by
  cases pass with
  | complete _ passes =>
      obtain ⟨-, once⟩ := invalidations_flushed p [.swept p.staleCount] fun e mem => by
        rw [List.mem_singleton.mp mem]
        rfl
      exact ⟨passes, once⟩

/-- What a scan does that takes a slot: it binds the slot to the frame, with one holder, and
the cursor goes behind it. -/
structure Takes (p : Pool n c) (f : Frame) (nr : Fin n) (slots : Fin n → Slot)
    (o : Outcome (Pool n c) (Option VirtAddr)) : Prop where
  address : ∃ va, p.slotAddress nr = .ok va ∧ o.result = .ok (some va) ∧
    o.state.addressOf? f = some va ∧ o.state.table.lookup va = .ok (some f)
  slot_eq : o.state.slot nr = .held f .one
  others : ∀ other, other ≠ nr → o.state.slot other = slots other
  cursor : o.state.cursor.val = (nr + 1) % n

/-- What a scan for a frame without a slot does, told from the slots at its beginning: it takes
the lowest free slot ahead, and it answers nothing only where every slot is held. -/
structure Scanned (p : Pool n c) (f : Frame) (o : Outcome (Pool n c) (Option VirtAddr)) :
    Prop where
  ahead : ∀ nr, IsLeast p.freeAhead nr → p.Takes f nr p.slot o ∧
    invalidations o.events = 0 ∧ o.state.passes = p.passes
  held_of_none : o.result = .ok none → ∀ nr, (p.slot nr).isHeld = true
  none_cursor : o.result = .ok none → o.state.cursor.val = 0

/-- What it does besides, where a pass can run: with no free slot ahead it runs one, and takes
the lowest slot that nobody held. -/
structure Wrapped (p : Pool n c) (f : Frame) (o : Outcome (Pool n c) (Option VirtAddr)) :
    Prop where
  around : p.freeAhead = ∅ → invalidations o.events = 1 ∧ o.state.passes = p.passes + 1 ∧
    ∀ nr, IsLeast p.unheld nr → p.Takes f nr (fun other => (p.slot other).swept) o
  none_iff : o.result = .ok none ↔ ∀ nr, (p.slot nr).isHeld = true

/-- The slot that a search comes to is taken. -/
theorem Search.takes (search : p.Search (some nr) q es) (consistent : p.Consistent)
    (unbound : ∀ other, (p.slot other).frame? ≠ some f) (fits : f.number < 1 <<< 40) :
    ∃ r later, (grab nr f).run q = ⟨.ok (some (p.address nr)), r, later⟩ ∧
      invalidations later = 0 ∧ r.passes = q.passes ∧
      p.Takes f nr q.slot ⟨.ok (some (p.address nr)), r, es ++ later⟩ := by
  have here := search.consistent consistent
  have fresh := here.get?_eq_none_iff.mpr (search.unbound unbound)
  have address : q.address nr = p.address nr := address_eq search.base_eq nr
  obtain ⟨r, bind, becomes⟩ := here.run_bindSlot search.free fresh fits
  have taken : r.slot nr = .held f .one := by rw [becomes.slot_eq, if_pos rfl]
  have bound : (r.slot nr).frame? = some f := by
    rw [taken]
    rfl
  have place : r.address nr = p.address nr :=
    (address_eq becomes.elsewhere.base_eq nr).trans address
  rw [address] at bind
  refine ⟨r, _, by rw [grab, Op.run_map, bind]; rfl, rfl, becomes.elsewhere.passes_eq, ?_⟩
  constructor
  case address =>
    refine ⟨p.address nr, consistent.slotAddress_eq nr, rfl, ?_, ?_⟩
    · rw [← place]
      exact becomes.consistent.get?_of_bound bound
    · rw [← place, becomes.consistent.lookup_address, bound]
  case slot_eq => exact taken
  case others =>
    intro other apart
    rw [becomes.slot_eq, if_neg apart]
  case cursor =>
    rw [becomes.elsewhere.cursor_eq, search.cursor_eq]
    rfl

/-- Every scan for a frame without a slot, whose number fits an entry, ends so. -/
theorem Consistent.scanned (consistent : p.Consistent)
    (unbound : ∀ other, (p.slot other).frame? ≠ some f) (fits : f.number < 1 <<< 40) :
    p.Scanned f ((scan f).run p) := by
  have nowhere : p.ahead? = none → ∀ nr, ¬ IsLeast p.freeAhead nr := by
    intro nothing nr least
    rw [ahead?_eq_some_iff.mpr least] at nothing
    cases nothing
  have scans := consistent.run_scan f
  generalize (scan f).run p = o at scans ⊢
  cases scans with
  | aborted nothing =>
      constructor
      case ahead => exact fun nr least => absurd least (nowhere nothing nr)
      case held_of_none => exact nofun
      case none_cursor => exact nofun
  | full search =>
      have held := search.isHeld_of_none
      cases search with
      | full nothing =>
        constructor
        case ahead => exact fun nr least => absurd least (nowhere nothing nr)
        case held_of_none => exact fun _ => held
        case none_cursor => exact fun _ => rfl
  | found search =>
      obtain ⟨r, later, run, quiet, passes, takes⟩ := search.takes consistent unbound fits
      rw [run]
      constructor
      case held_of_none => exact nofun
      case none_cursor => exact nofun
      case ahead =>
        intro other least
        cases search with
        | around nothing => exact absurd least (nowhere nothing other)
        | ahead found =>
            obtain rfl := (ahead?_eq_some_iff.mp found).unique least
            exact ⟨takes, quiet, passes⟩

/-- Where the window ends and the counters have room, every such scan ends so as well. -/
theorem Consistent.wrapped (consistent : p.Consistent) (reach : p.Reaches)
    (room : ¬ p.Exhausted) (unbound : ∀ other, (p.slot other).frame? ≠ some f)
    (fits : f.number < 1 <<< 40) : p.Wrapped f ((scan f).run p) := by
  have scans := consistent.run_scan f
  generalize (scan f).run p = o at scans ⊢
  cases scans with
  | aborted _ pass => exact absurd (pass.exhausted reach) room
  | full search =>
      have held := search.isHeld_of_none
      cases search with
      | @full r _ nothing pass =>
        obtain ⟨passes, once⟩ := pass.counts
        constructor
        case around =>
          refine fun _ => ⟨once, (letIn_counters r _).1.trans passes, fun nr least => ?_⟩
          have idle : (p.slot nr).isHeld = false := least.1
          rw [held nr] at idle
          cases idle
        case none_iff => exact iff_of_true rfl held
  | @found nr q es search =>
      obtain ⟨r, later, run, quiet, passes, takes⟩ := search.takes consistent unbound fits
      have idle : (p.slot nr).isHeld = false := by
        rw [← search.isHeld_eq, search.free]
        rfl
      rw [run]
      constructor
      case none_iff =>
        refine iff_of_false nofun fun held => ?_
        rw [held nr] at idle
        cases idle
      case around =>
        intro none
        have nothing := ahead?_eq_none_iff.mpr none
        cases search with
        | ahead found =>
            rw [found] at nothing
            cases nothing
        | @around _ q _ _ pass found =>
            obtain ⟨counted, once⟩ := pass.counts
            have slots : ((q.letIn p.staleCount).withCursor (Cyclic.next nr)).slot =
                fun other => (p.slot other).swept := by
              funext other
              exact (slot_letIn q _ other).trans (pass.swept.slot_eq other)
            refine ⟨?_, (passes.trans (letIn_counters q _).1).trans counted, fun other least => ?_⟩
            · rw [invalidations_append, once, quiet]
            · obtain rfl := (lowest?_eq_some_iff.mp found).unique least
              rw [← slots]
              exact takes

/-- A search that needs a pass has room for it in all counters. -/
theorem Search.not_exhausted {found : Option (Fin n)} (search : p.Search found q es)
    (nothing : p.ahead? = none) : ¬ p.Exhausted := by
  cases search with
  | ahead found =>
      rw [found] at nothing
      cases nothing
  | around _ pass => exact pass.not_exhausted
  | full _ pass => exact pass.not_exhausted

/-- Where a counter has no room, a scan that needs a pass faults. -/
theorem Consistent.scan_error (consistent : p.Consistent) (exhausted : p.Exhausted)
    (none : p.freeAhead = ∅) (f : Frame) : ∃ fault, ((scan f).run p).result = .error fault := by
  have nothing := ahead?_eq_none_iff.mpr none
  have scans := consistent.run_scan f
  generalize (scan f).run p = o at scans ⊢
  cases scans with
  | found search => exact absurd exhausted (search.not_exhausted nothing)
  | full search => exact absurd exhausted (search.not_exhausted nothing)
  | aborted => exact ⟨_, rfl⟩

/-- A request that needs a pass and does not fault has room for it in all counters. -/
theorem Attempts.not_exhausted {o : Outcome (Pool n c) Grant} (ends : p.Attempts f o)
    (unbound : ∀ nr, (p.slot nr).frame? ≠ some f) (nothing : p.ahead? = none) {grant : Grant}
    (ok : o.result = .ok grant) : ¬ p.Exhausted := by
  cases ends with
  | shared bound => exact absurd bound (unbound _)
  | bound _ search => exact search.not_exhausted nothing
  | parked _ search => exact search.not_exhausted nothing
  | tooWide => cases ok
  | aborted => cases ok

/-- A caller goes to sleep only for a frame without a slot, and where every slot is held. -/
theorem Attempts.of_parked {o : Outcome (Pool n c) Grant} (ends : p.Attempts f o)
    {ticket : Ticket} (parked : o.result = .ok (.parked ticket)) :
    (∀ nr, (p.slot nr).frame? ≠ some f) ∧ ∀ nr, (p.slot nr).isHeld = true := by
  cases ends with
  | parked unbound search => exact ⟨unbound, search.isHeld_of_none⟩
  | shared => cases parked
  | bound => cases parked
  | tooWide => cases parked
  | aborted => cases parked

/-- There it does go to sleep, while the counters suffice. -/
theorem Attempts.parked_of_held {o : Outcome (Pool n c) Grant} (ends : p.Attempts f o)
    (reach : p.Reaches) (room : ¬ p.Exhausted) (unbound : ∀ nr, (p.slot nr).frame? ≠ some f)
    (held : ∀ nr, (p.slot nr).isHeld = true) : ∃ ticket, o.result = .ok (.parked ticket) := by
  have nowhere : ∀ {nr q es}, ¬ p.Search (some nr) q es := fun {nr _ _} search => by
    have idle := search.isHeld_eq nr
    rw [search.free, held nr] at idle
    cases idle
  cases ends with
  | parked => exact ⟨_, rfl⟩
  | shared bound => exact absurd bound (unbound _)
  | bound _ search => exact absurd search nowhere
  | tooWide _ search => exact absurd search nowhere
  | aborted _ _ pass => exact absurd (pass.exhausted reach) room

end Pool

end Highmem
