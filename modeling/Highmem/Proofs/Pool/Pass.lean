import Highmem.Proofs.Pool.Flushing
import Highmem.Proofs.Preservation

/-!
# What a pass changes

A pass clears the entries of the stale slots and forgets the reverse pointers of their
frames, one slot after the other. While it is under way, the slots behind it are free or
held and those before it are as they were. `Unmapped` says the same of the raw entries:
those of the stale slots among the visited ones are zero, and no other entry has been
written to. `Purged` describes the pool after a whole pass.
-/

namespace Highmem.Pool

open Paging Sync

variable {n c : Nat} {p q r : Pool n c} {nr : Fin n} {f : Frame} {l : List (Fin n)}

/-- The entries of the stale slots among some slots are zero, and all other entries are as
they were. -/
structure Unmapped (l : List (Fin n)) (p q : Pool n c) : Prop where
  cleared : ∀ nr ∈ l, (p.slot nr).isStale = true → q.table.entry (p.index nr) = .zero
  kept : ∀ i, (∀ nr ∈ l, (p.slot nr).isStale = true → p.index nr ≠ i) →
    q.table.entry i = p.table.entry i

theorem index_inj {nr other : Fin n} (same : p.index nr = p.index other) : nr = other :=
  Fin.ext (Fin.mk.inj same)

/-- One slot further, a stale slot. -/
theorem Unmapped.cons_stale {s : Slot} {reverse : ReverseMap c} (fresh : nr ∉ l)
    (stale : (p.slot nr).isStale = true) (later : Unmapped l (p.rebind nr s .zero reverse) q) :
    Unmapped (nr :: l) p q := by
  have apart : ∀ other ∈ l, other ≠ nr := fun other mem same => fresh (same ▸ mem)
  constructor
  · intro other mem isStale
    rcases List.mem_cons.mp mem with rfl | mem
    · refine (later.kept _ fun before mem _ same => ?_).trans (LeafTable.entry_write_self _ _ _)
      exact apart before mem (index_inj same)
    · refine later.cleared other mem ?_
      rw [slot_rebind, if_neg (apart other mem)]
      exact isStale
  · intro i untouched
    refine (later.kept i fun other mem isStale => ?_).trans
      (LeafTable.entry_write_of_ne _ _ (untouched nr List.mem_cons_self stale))
    rw [slot_rebind, if_neg (apart other mem)] at isStale
    exact untouched other (List.mem_cons_of_mem nr mem) isStale

/-- One slot further, any other slot. -/
theorem Unmapped.cons_fresh (fresh : (p.slot nr).isStale = false) (later : Unmapped l p q) :
    Unmapped (nr :: l) p q := by
  constructor
  · intro other mem stale
    rcases List.mem_cons.mp mem with rfl | mem
    · rw [fresh] at stale
      cases stale
    · exact later.cleared other mem stale
  · intro i untouched
    exact later.kept i fun other mem => untouched other (List.mem_cons_of_mem nr mem)

/-- The slots are visited in turn. -/
theorem Consistent.unmapped_reclaimAll (consistent : p.Consistent) (l : List (Fin n))
    (different : l.Nodup) : Unmapped l p ((reclaimAll l).run p).state := by
  induction l generalizing p with
  | nil => exact ⟨fun nr mem => absurd mem List.not_mem_nil, fun i _ => rfl⟩
  | cons nr rest ih =>
      obtain ⟨fresh, different⟩ := List.nodup_cons.mp different
      obtain ⟨q, first, becomes⟩ := consistent.run_reclaim nr
      obtain ⟨r, later, -⟩ := becomes.consistent.run_reclaimAll rest different
      have visited := ih becomes.consistent different
      rw [later] at visited
      rw [reclaimAll, Op.run_bind_ok first, Op.run_bind_ok later]
      change Unmapped (nr :: rest) p r
      cases stale : (p.slot nr).isStale with
      | true =>
          obtain ⟨f, frame⟩ := Slot.exists_of_isStale stale
          rw [consistent.run_reclaim_stale frame] at first
          obtain ⟨-, rfl, -⟩ := Outcome.mk.inj first
          exact .cons_stale fresh stale visited
      | false =>
          rw [run_reclaim_fresh stale] at first
          obtain ⟨-, rfl, -⟩ := Outcome.mk.inj first
          exact .cons_fresh stale visited

theorem preserves_entries_invalidate {entries : Vector Entry tableEntries}
    (start stop : VirtAddr) :
    (onTable (LeafTable.invalidate start stop) : Op (Pool n c) Unit).Preserves
      (·.table.entries = entries) := by
  have inside : (LeafTable.invalidate start stop).Preserves (·.entries = entries) :=
    .bind (.emit _) fun _ => .within fun _ here => here
  exact .within fun p here => inside p.table here

/-- What follows the last slot leaves the entries alone. -/
theorem Consistent.unmapped_sweep (consistent : p.Consistent) :
    Unmapped (List.finRange n) p (sweep.run p).state := by
  have visited := consistent.unmapped_reclaimAll (List.finRange n) (List.nodup_finRange n)
  obtain ⟨q, reclaimed, -⟩ := consistent.run_reclaimAll (List.finRange n) (List.nodup_finRange n)
  rw [reclaimed] at visited
  rw [sweep, Op.run_bind_ok reclaimed]
  have written : ∀ {r : Pool n c}, r.table.entries = q.table.entries →
      Unmapped (List.finRange n) p r := by
    intro r same
    have entry : ∀ i, r.table.entry i = q.table.entry i := fun i => congrArg (Vector.get · i) same
    constructor
    · intro nr mem stale
      exact (entry _).trans (visited.cleared nr mem stale)
    · intro i untouched
      exact (entry i).trans (visited.kept i untouched)
  apply written
  dsimp only
  refine Op.Preserves.get_bind (P := (·.table.entries = q.table.entries)) (fun r _ => ?_) q rfl
  refine .bind (.lift_overflow _) fun stop => .bind (preserves_entries_invalidate _ _) fun _ => ?_
  refine .bind (.lift_overflow _) fun passes => .bind (.modify fun _ here => here) fun _ => ?_
  exact .bind (.emit _) fun _ => .pure _

/-- What a pass that ends well changes in a pool, and what it does not. -/
structure Purged (p q : Pool n c) : Prop where
  base_eq : q.base = p.base
  cursor_eq : q.cursor = p.cursor
  tickets_eq : q.tickets = p.tickets
  passes_eq : q.passes = p.passes + 1
  record_eq : q.table.record = p.table.record.next p.base (p.base.page n)
  table_base_eq : q.table.base = p.table.base
  freed : ∀ nr, (p.slot nr).isStale = true → q.slot nr = .free
  slot_kept : ∀ nr, (p.slot nr).isStale = false → q.slot nr = p.slot nr
  cleared : ∀ nr, (p.slot nr).isStale = true → q.table.entry (p.index nr) = .zero
  entry_kept : ∀ i, (∀ nr, (p.slot nr).isStale = true → p.index nr ≠ i) →
    q.table.entry i = p.table.entry i
  forgotten : ∀ nr f, p.slot nr = .stale f → q.addressOf? f = none
  pointer_kept : ∀ f, (∀ nr, p.slot nr ≠ .stale f) → q.addressOf? f = p.addressOf? f
  held_found : ∀ nr f holders, p.slot nr = .held f holders →
    p.addressOf? f = some (p.address nr) ∧ q.addressOf? f = some (p.address nr)

namespace Swept

variable (swept : Swept p q)

include swept

theorem slot_eq_free (stale : (p.slot nr).isStale = true) : q.slot nr = .free := by
  obtain ⟨f, stale⟩ := Slot.exists_of_isStale stale
  rw [swept.slot_eq, stale]
  rfl

theorem slot_eq_self (fresh : (p.slot nr).isStale = false) : q.slot nr = p.slot nr := by
  rw [swept.slot_eq, Slot.swept_of_not_stale fresh]

/-- The frame of a stale slot is bound to no slot any more. -/
theorem addressOf?_stale (consistent : p.Consistent) (stale : p.slot nr = .stale f) :
    q.addressOf? f = none := by
  refine swept.consistent.get?_eq_none_iff.mpr fun other bound => ?_
  have before : (p.slot other).frame? = some f :=
    Slot.frame?_of_swept (swept.slot_eq other ▸ bound)
  have same : nr = other := consistent.eq_of_bound (by rw [stale]; rfl) before
  rw [← same, swept.slot_eq_free (by rw [stale]; rfl)] at bound
  cases bound

/-- Any other frame is bound as before. -/
theorem addressOf?_fresh (consistent : p.Consistent) (fresh : ∀ nr, p.slot nr ≠ .stale f) :
    q.addressOf? f = p.addressOf? f := by
  refine Option.ext fun va => ?_
  rw [addressOf?, addressOf?, swept.consistent.get?_iff, consistent.get?_iff]
  refine exists_congr fun nr => ?_
  rw [address_eq swept.base_eq, swept.slot_eq]
  refine and_congr_left' ?_
  cases slot : p.slot nr with
  | free => exact Iff.rfl
  | held g holders => exact Iff.rfl
  | stale g =>
      refine iff_of_false nofun fun bound => fresh nr ?_
      rw [slot, Option.some.inj bound]

end Swept

/-- The counters suffice for another pass. -/
theorem Reaches.not_exhausted (reach : p.Reaches) (passes : p.passes + 1 < wordCount)
    (ranges : p.table.record.ranges + 1 < wordCount)
    (pages : p.table.record.pages + n < wordCount) : ¬ p.Exhausted := by
  unfold Exhausted
  rw [pagesOf_window reach]
  omega

/-- A pass ends well while its counters suffice. It clears the entries of the stale slots,
then invalidates the window once, and answers how many slots were stale. -/
theorem Consistent.run_sweep_ok (consistent : p.Consistent) (reach : p.Reaches)
    (room : ¬ p.Exhausted) :
    ∃ q, sweep.run p =
        ⟨.ok p.staleCount, q, p.clearings ++ [p.flushed, .swept p.staleCount]⟩ ∧
      Purged p q := by
  have pass := consistent.run_sweep
  have written := consistent.unmapped_sweep
  cases result : sweep.run p with
  | mk ending q es =>
    rw [result] at pass written
    cases pass with
    | uncounted _ exhausted => exact absurd exhausted room
    | unreachable _ _ beyond => exact absurd reach beyond
    | complete swept passes record =>
        refine ⟨q, rfl, ?_⟩
        constructor
        case base_eq => exact swept.base_eq
        case cursor_eq => exact swept.cursor_eq
        case tickets_eq => exact swept.tickets_eq
        case passes_eq => exact passes
        case record_eq => exact record
        case table_base_eq => rw [swept.consistent.base_eq, consistent.base_eq, swept.base_eq]
        case freed => exact fun nr => swept.slot_eq_free
        case slot_kept => exact fun nr => swept.slot_eq_self
        case cleared => exact fun nr => written.cleared nr (List.mem_finRange nr)
        case entry_kept => exact fun i untouched => written.kept i fun nr _ => untouched nr
        case forgotten => exact fun nr f => swept.addressOf?_stale consistent
        case pointer_kept => exact fun f => swept.addressOf?_fresh consistent
        case held_found =>
          intro nr f holders held
          have bound : (p.slot nr).frame? = some f := by
            rw [held]
            rfl
          have kept := swept.addressOf?_fresh (f := f) consistent fun other stale => by
            have same := consistent.eq_of_bound bound (by rw [stale]; rfl)
            rw [← same, held] at stale
            cases stale
          exact ⟨consistent.get?_of_bound bound, kept.trans (consistent.get?_of_bound bound)⟩

/-- The entries that a pass clears are those of the stale slots, in order. -/
theorem clearings_eq (p : Pool n c) :
    p.clearings = ((List.finRange n).filter fun nr => (p.slot nr).isStale).map
      fun nr => .cleared (p.address nr) := by
  unfold clearings
  induction List.finRange n with
  | nil => rfl
  | cons nr rest ih =>
      rw [List.flatMap_cons, ih, clearing, List.filter_cons]
      by_cases stale : (p.slot nr).isStale = true
      · rw [if_pos stale, if_pos stale]
        rfl
      · rw [if_neg stale, if_neg stale]
        rfl

end Highmem.Pool
