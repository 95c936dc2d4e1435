import Highmem.Proofs.Pool.Overfull
import Highmem.Proofs.Session.Replies

/-!
# Faulting requests

A request that faults leaves no trace but stale slots that were turned free, exactly as long
as no request of the run finds the reverse map full, wherever the window and the table lie.
A reverse map is meant to have room for as many frames as there are slots, and is then never
full. In a smaller one the request that finds it full leaves a slot held by its frame that
no reverse pointer names, so that the frame can be bound to another slot later.
-/

namespace Highmem

open Paging

variable {n c : Nat}

namespace Pool

variable {p q : Pool n c} {f : Frame}

/-- The slots, the page table and the reverse pointers tell the same story. The page of a free
slot may lie outside the table. -/
structure Concordant (p : Pool n c) : Prop where
  free_unmapped : ∀ nr va f, p.slot nr = .free → p.pageAddress nr = .ok va →
    p.table.lookup va ≠ .ok (some f)
  bound_mapped : ∀ nr f, (p.slot nr).frame? = some f → ∃ va, p.pageAddress nr = .ok va ∧
    p.table.lookup va = .ok (some f) ∧ p.addressOf? f = some va
  bound_once : ∀ nr other f, (p.slot nr).frame? = some f → (p.slot other).frame? = some f →
    nr = other
  named_bound : ∀ f va, p.addressOf? f = some va →
    ∃ nr, (p.slot nr).frame? = some f ∧ p.pageAddress nr = .ok va

/-- A faulting request for a frame has cost nobody anything: the tables of the pool that it
leaves agree, the frame has no slot, and the same slots are held by as many holders. -/
structure Spared (f : Frame) (p q : Pool n c) : Prop where
  concordant : q.Concordant
  unbound : ∀ nr, (q.slot nr).frame? ≠ some f
  held_eq : ∀ nr, (p.slot nr).isHeld = true ∨ (q.slot nr).isHeld = true → q.slot nr = p.slot nr

theorem Intact.concordant (intact : p.Intact) : p.Concordant := by
  constructor
  case free_unmapped =>
    intro nr va f free address maps
    cases position : p.table.indexOf? va with
    | none =>
        rw [LeafTable.lookup_outside position] at maps
        cases maps
    | some i =>
        obtain ⟨placed, -⟩ := placed_of_indexOf? address position
        rw [LeafTable.lookup_eq position, intact.entry_eq nr i placed, free] at maps
        cases maps
  case bound_mapped =>
    intro nr f bound
    obtain ⟨i, placed⟩ := intact.placed nr f bound
    refine ⟨p.address nr, placed.pageAddress_eq, ?_, intact.get?_of_bound bound⟩
    rw [LeafTable.lookup_eq placed.indexOf?_eq, intact.entry_eq nr i placed, bound]
  case bound_once => exact fun nr other f => intact.eq_of_bound
  case named_bound =>
    intro f va named
    obtain ⟨nr, bound, rfl⟩ := (intact.get?_iff f va).mp named
    obtain ⟨i, placed⟩ := intact.placed nr f bound
    exact ⟨nr, bound, placed.pageAddress_eq⟩

theorem Tidied.spared (tidied : p.Tidied q) (unbound : ∀ nr, (p.slot nr).frame? ≠ some f) :
    Spared f p q := by
  refine ⟨tidied.intact.concordant, tidied.unbound unbound, fun nr held => ?_⟩
  rw [tidied.isHeld_eq, or_self] at held
  exact tidied.slot_of_held held

theorem Half.not_concordant (half : p.Half f) : ¬ p.Concordant := by
  intro concordant
  obtain ⟨⟨nr, bound⟩, absent⟩ := half
  obtain ⟨va, -, -, named⟩ := concordant.bound_mapped nr f bound
  cases absent.symm.trans named

end Pool

namespace Session

variable {s : Session n c} {m : Move} {f g : Frame} {fault : Fault}

/-- No request of a run finds the reverse map full. -/
def NeverFull (s : Session n c) : List Move → Prop
  | [] => True
  | m :: later => (∀ f, s.reply m ≠ .error (.reverseFull c f)) ∧ (s.after m).NeverFull later

/-- Every request of a run that faults has cost nobody anything. -/
def FaultsSpare (s : Session n c) : List Move → Prop
  | [] => True
  | m :: later =>
    (∀ f fault, s.asks? m = some f → s.reply m = .error fault →
      Pool.Spared f s.pool (s.after m).pool) ∧ (s.after m).FaultsSpare later

theorem requests_of_asks (intact : s.pool.Intact) (asks : s.asks? m = some f) :
    ∃ result, s.pool.Requests f result (s.after m).pool ∧ Answers result (s.reply m) := by
  obtain ⟨answers, after, -⟩ := answers_of_asks asks
  rw [after]
  exact ⟨_, intact.ends_attempt f, answers⟩

/-- A move that does not ask for a frame leaves the tables in agreement, and does not find
the reverse map full. -/
theorem intact_of_not_asks (intact : s.pool.Intact) (asks : s.asks? m = none) :
    (s.after m).pool.Intact ∧ s.reply m ≠ .error (.reverseFull c g) := by
  cases gives : s.gives? m with
  | some va =>
      obtain ⟨ending, p, es, ran, verdict⟩ := Pool.exists_verdict s.pool va
      obtain ⟨settles, after, -⟩ := settles_of_gives gives ran
      refine ⟨after ▸ verdict.intact intact, fun full => ?_⟩
      rw [full] at settles
      cases settles
  | none =>
      obtain ⟨after, -, faults⟩ := reply_of_neither asks gives
      refine ⟨after ▸ intact, fun full => ?_⟩
      obtain ⟨r, cause, -, -, same⟩ := faults _ full
      cases same

/-- The reverse map is found full only by a request for a frame, and only if it is smaller
than the pool. The request leaves a slot half bound. -/
theorem half_of_full (intact : s.pool.Intact) (full : s.reply m = .error (.reverseFull c g)) :
    s.asks? m = some g ∧ (s.after m).pool.Half g ∧ c < n := by
  cases asks : s.asks? m with
  | none => exact absurd full (intact_of_not_asks intact asks).2
  | some f =>
      obtain ⟨result, requests, answers⟩ := requests_of_asks intact asks
      rw [full] at answers
      cases answers
      cases requests with
      | failed _ _ other => exact absurd rfl (other g)
      | overfull half small => exact ⟨rfl, half, small⟩

theorem intact_after (intact : s.pool.Intact) (room : ∀ g, s.reply m ≠ .error (.reverseFull c g)) :
    (s.after m).pool.Intact := by
  cases asks : s.asks? m with
  | none => exact (intact_of_not_asks (g := ⟨0, by decide⟩) intact asks).1
  | some f =>
      obtain ⟨result, requests, answers⟩ := requests_of_asks intact asks
      cases requests with
      | answered intact => exact intact
      | failed _ tidied => exact tidied.intact
      | overfull =>
          generalize s.reply m = reply at answers room
          cases answers
          exact absurd rfl (room f)

/-- A request that faults while the reverse map has room has cost nobody anything. -/
theorem spared_of_room (intact : s.pool.Intact) (asks : s.asks? m = some f)
    (faults : s.reply m = .error fault) (room : ∀ g, s.reply m ≠ .error (.reverseFull c g)) :
    Pool.Spared f s.pool (s.after m).pool := by
  obtain ⟨result, requests, answers⟩ := requests_of_asks intact asks
  rw [faults] at answers
  cases answers
  cases requests with
  | failed unbound tidied => exact tidied.spared unbound
  | overfull => exact absurd faults (room f)

theorem faultsSpare_iff (intact : s.pool.Intact) (moves : List Move) :
    s.FaultsSpare moves ↔ s.NeverFull moves := by
  induction moves generalizing s with
  | nil => exact Iff.rfl
  | cons m later ih =>
      constructor
      · rintro ⟨spare, further⟩
        have room : ∀ g, s.reply m ≠ .error (.reverseFull c g) := by
          intro g full
          obtain ⟨asks, half, -⟩ := half_of_full intact full
          exact half.not_concordant (spare g _ asks full).concordant
        exact ⟨room, (ih (intact_after intact room)).mp further⟩
      · rintro ⟨room, further⟩
        refine ⟨fun f fault asks faults => spared_of_room intact asks faults room, ?_⟩
        exact (ih (intact_after intact room)).mpr further

theorem intact_afterAll (intact : s.pool.Intact) (moves : List Move) (room : s.NeverFull moves) :
    (s.afterAll moves).pool.Intact := by
  induction moves generalizing s with
  | nil => exact intact
  | cons m later ih => exact ih (intact_after intact room.1) room.2

/-- A reverse map that is as large as the pool is never full. -/
theorem neverFull_of_le (intact : s.pool.Intact) (large : n ≤ c) (moves : List Move) :
    s.NeverFull moves := by
  induction moves generalizing s with
  | nil => trivial
  | cons m later ih =>
      have room : ∀ g, s.reply m ≠ .error (.reverseFull c g) := fun g full =>
        Nat.not_le_of_lt (half_of_full intact full).2.2 large
      exact ⟨room, ih (intact_after intact room)⟩

/-- A pool that is built over any empty table, with an empty reverse map of any capacity:
in every run, each faulting request leaves tables that agree, its frame without a slot and
the holders as they were, exactly if no request of the run finds the reverse map full. The
tables then agree after every move, and a reverse map that has room for as many frames as
there are slots is never found full. -/
theorem spared_afterAll (size : Pool.Size n) {base tableBase : VirtAddr}
    (aligned : base.toNat % pageSize = 0) (tableAligned : tableBase.toNat % tableSpan = 0)
    (room : 0 < c) :
    ∃ table pool, LeafTable.create tableBase = .ok table ∧
      Pool.assemble size base table (.empty room) = .ok pool ∧
      ∀ (direct : DirectMap) (moves : List Move),
        let s := start direct pool
        (s.FaultsSpare moves ↔ s.NeverFull moves) ∧
          (s.NeverFull moves → (s.afterAll moves).pool.Concordant) ∧
          (n ≤ c → s.NeverFull moves) := by
  have created : LeafTable.create tableBase = .ok _ := dif_pos tableAligned
  obtain ⟨empty, -⟩ := LeafTable.empty_of_create created
  obtain ⟨pool, assembled, intact⟩ := Pool.exists_intact size room aligned empty
  refine ⟨_, pool, created, assembled, fun direct moves => ?_⟩
  have here : (start direct pool).pool.Intact := intact
  exact ⟨faultsSpare_iff here moves, fun never => (intact_afterAll here moves never).concordant,
    fun large => neverFull_of_le here large moves⟩

theorem spared_afterAll_uncovered :
    let r : Request := ⟨.ofNumber 1, .slots, none⟩
    Layout.windowBase.toNat % pageSize = 0 ∧ VirtAddr.zero.toNat % tableSpan = 0 ∧ 0 < 2 ∧
      ∃ table, ∃ pool : Pool 2 2, LeafTable.create .zero = .ok table ∧
        Pool.assemble ⟨by decide, by decide⟩ Layout.windowBase table (.empty (by decide)) =
          .ok pool ∧
        (start .standard pool).FaultsSpare [.submit r] ∧
        (start .standard pool).reply (.submit r) =
          .error (.outsideTable Layout.windowBase .zero) := by
  intro r
  have aligned : Layout.windowBase.toNat % pageSize = 0 := by decide
  have tableAligned : VirtAddr.zero.toNat % tableSpan = 0 := by decide
  obtain ⟨table, pool, created, assembled, spared⟩ :=
    spared_afterAll (n := 2) (c := 2) ⟨by decide, by decide⟩ aligned tableAligned (by decide)
  obtain ⟨spare, -, large⟩ := spared .standard [.submit r]
  refine ⟨aligned, tableAligned, by decide, table, pool, created, assembled,
    spare.mpr (large (by decide)), ?_⟩
  cases created
  cases assembled
  decide

/-- With a reverse map for one frame, the request for a second one faults when its slot is
held already, and if it is made again, the frame is bound to another slot as well. -/
theorem bound_twice_of_full :
    let r : Request := ⟨.ofNumber 2, .slots, none⟩
    ∃ table, ∃ pool : Pool 3 1, LeafTable.create Layout.windowBase = .ok table ∧
      Pool.assemble ⟨by decide, by decide⟩ Layout.windowBase table (.empty (by decide)) =
        .ok pool ∧
      let s := (start .standard pool).afterAll [.submit ⟨.ofNumber 1, .slots, none⟩]
      s.asks? (.submit r) = some r.frame ∧
        s.reply (.submit r) = .error (.reverseFull 1 r.frame) ∧
        s.pool.slot 1 = .free ∧ (s.after (.submit r)).pool.slot 1 = .held r.frame .one ∧
        (s.after (.submit r)).pool.addressOf? r.frame = none ∧
        ¬ Pool.Spared r.frame s.pool (s.after (.submit r)).pool ∧
        (s.afterAll [.submit r, .submit r]).pool.slot 1 = .held r.frame .one ∧
        (s.afterAll [.submit r, .submit r]).pool.slot 2 = .held r.frame .one := by
  intro r
  refine ⟨_, _, rfl, rfl, by decide, by decide, by decide, by decide, by decide, ?_, by decide,
    by decide⟩
  intro spared
  refine spared.unbound 1 ?_
  decide

end Session

end Highmem
