import Highmem.Proofs.ReverseMap.Refinement

/-!
# The scan comes to an end

The scan that closes a gap goes on until it meets an empty cell. Nothing counts its
looks, and in a full table the only empty cell is the hole, which moves ahead of the
scan. `Loop` is this scan without a bound, together with its looks and with the
bindings that it moves.

The cut of the ring settles when it ends. Up to the cut less than one round is left,
and a binding moves there only once, because the scan does not come back to the cell
into which it moved. From the cut on all paths are whole, so nothing moves any more,
and the hole, which stands still from then on, ends the scan within one more round.
-/

namespace Highmem.ReverseMap

open Cyclic

variable {c : Nat}

/-- The move of a binding from one cell to another. -/
structure Relocation (c : Nat) where
  binding : Binding
  source : Fin c
  target : Fin c
  deriving DecidableEq

/-- The binding comes strictly closer to the home of its frame. -/
def Relocation.Approaches (pos : 0 < c) (r : Relocation c) : Prop :=
  distance (home pos r.binding.frame) r.target < distance (home pos r.binding.frame) r.source

namespace Gap

/-- `Loop g looks moves last`: the scan that begins at `g` ends at `last`. The last one of
its `looks` is the one that finds an empty cell, and the bindings that the others have
moved are listed in `moves`, in the order in which they moved. -/
inductive Loop : Gap c → (looks : Nat) → List (Relocation c) → Gap c → Prop
  | stop {g : Gap c} (ended : g.step = none) : Loop g 1 [] g
  | pass {g g' last : Gap c} {looks : Nat} {moves : List (Relocation c)}
      (step : g.step = some g') (same : g'.cells = g.cells) (later : Loop g' looks moves last) :
      Loop g (looks + 1) moves last
  | move {g g' last : Gap c} {looks : Nat} {moves : List (Relocation c)} {r : Relocation c}
      (step : g.step = some g') (held : g.cells.get r.source = some r.binding)
      (vacant : g.cells.get r.target = none)
      (moved : g'.cells = Cells.move g.cells r.source r.target r.binding)
      (later : Loop g' looks moves last) : Loop g (looks + 1) (r :: moves) last

variable {g last : Gap c} {s : Fin c} {b : Binding} {looks : Nat} {moves : List (Relocation c)}

/-- A bound that leaves the scan all its looks changes nothing. -/
theorem Loop.close_eq (loop : Loop g looks moves last) {bound : Nat} (enough : looks ≤ bound + 1) :
    close bound g = last := by
  induction loop generalizing bound with
  | stop ended =>
      cases bound with
      | zero => rfl
      | succ bound => rw [close, ended]
  | @pass g g' last looks moves step same later ih =>
      cases bound with
      | zero => cases later <;> omega
      | succ bound =>
          rw [close, step]
          exact ih (by omega)
  | @move g g' last looks moves r step held vacant moved later ih =>
      cases bound with
      | zero => cases later <;> omega
      | succ bound =>
          rw [close, step]
          exact ih (by omega)

/-- What the moves of a scan from `scan` on have in common, with the ring cut open before
`s`: they follow each other in cyclic order, and each one begins where the binding has been
since before the scan. -/
structure Orderly (pos : 0 < c) (before : Cells c) (s scan : Fin c)
    (moves : List (Relocation c)) : Prop where
  approaches : ∀ r ∈ moves, r.Approaches pos
  held : ∀ r ∈ moves, before.get r.source = some r.binding
  ahead : ∀ r ∈ moves, distance s scan < distance s r.source
  sorted : moves.Pairwise fun r r' => distance s r.source < distance s r'.source

theorem orderly_nil (pos : 0 < c) (before : Cells c) (s scan : Fin c) :
    Orderly pos before s scan [] := by
  constructor
  case sorted => exact List.Pairwise.nil
  all_goals
    intro r mem
    cases mem

namespace Orderly

variable {pos : 0 < c} {before : Cells c} {scan : Fin c}

/-- The moves of a scan are also those of a scan that begins earlier. -/
theorem mono (orderly : Orderly pos before s scan moves) {earlier : Fin c}
    (le : distance s earlier ≤ distance s scan) : Orderly pos before s earlier moves :=
  { orderly with ahead := fun r mem => Nat.lt_of_le_of_lt le (orderly.ahead r mem) }

/-- No binding moves twice, because a frame has only one cell. -/
theorem nodup (orderly : Orderly pos before s scan moves) (distinct : before.Distinct) :
    (moves.map fun r => r.binding.frame).Nodup := by
  refine List.pairwise_map.mpr (orderly.sorted.imp_of_mem ?_)
  intro r r' mem mem' further same
  have here := distinct (orderly.held r mem) (orderly.held r' mem') same
  rw [here] at further
  exact Nat.lt_irrefl _ further

end Orderly

/-- Where all paths are whole, the scan moves nothing and ends at the hole at the latest. -/
theorem loop_of_ordered (ordered : Cells.Ordered g.pos g.cells s)
    (vacant : g.cells.get g.hole = none) :
    ∃ looks last, Loop g looks [] last ∧ looks ≤ distance (next g.scan) g.hole + 1 := by
  generalize left : distance (next g.scan) g.hole = k
  induction k generalizing g with
  | zero =>
      have here : g.hole = next g.scan :=
        eq_of_distance_eq (left.trans (distance_self (next g.scan)).symm)
      rw [here] at vacant
      exact ⟨1, g, .stop (step_of_none vacant), by omega⟩
  | succ k ih =>
      cases h : g.cells.get (next g.scan) with
      | none => exact ⟨1, g, .stop (step_of_none h), by omega⟩
      | some b =>
          have step := step_of_some h
          rw [if_pos (between_of_ordered ordered vacant h)] at step
          have apart : g.hole ≠ next g.scan := fun same => by
            rw [same, distance_self] at left
            cases left
          have closer := distance_next_left apart
          obtain ⟨looks, last, later, few⟩ :=
            ih (g := { g with scan := next g.scan }) ordered vacant (by dsimp only; omega)
          exact ⟨looks + 1, last, .pass step rfl later, by omega⟩

namespace Open

/-- The binding that moves into the hole comes closer to its home. -/
theorem approaches (opened : g.Open s) (inside : next g.scan ≠ s)
    (h : g.cells.get (next g.scan) = some b)
    (leaves : ¬ between g.hole (home g.pos b.frame) (next g.scan) = true) :
    Relocation.Approaches g.pos ⟨b, next g.scan, g.hole⟩ := by
  have further := distance_next inside
  have ahead := opened.ahead
  have home_le := opened.home_le_hole inside h leaves
  unfold Relocation.Approaches
  dsimp only
  rw [distance_shift s _ g.hole, if_pos home_le, distance_shift s _ (next g.scan),
    if_pos (opened.behind h)]
  omega

/-- The moves after one move: further on the cells are as they were. -/
theorem orderly_cons (opened : g.Open s) (inside : next g.scan ≠ s)
    (h : g.cells.get (next g.scan) = some b)
    (leaves : ¬ between g.hole (home g.pos b.frame) (next g.scan) = true)
    (later : Orderly g.pos (g.moved b) s (next g.scan) moves) :
    Orderly g.pos g.cells s g.scan (⟨b, next g.scan, g.hole⟩ :: moves) := by
  have further := distance_next inside
  have ahead := opened.ahead
  constructor
  case approaches =>
    intro r mem
    rcases List.mem_cons.mp mem with rfl | mem
    · exact opened.approaches inside h leaves
    · exact later.approaches r mem
  case held =>
    intro r mem
    rcases List.mem_cons.mp mem with rfl | mem
    · exact h
    · have beyond := later.ahead r mem
      have hole : r.source ≠ g.hole := fun same => by
        rw [same] at beyond
        omega
      have other : r.source ≠ next g.scan := fun same => by
        rw [same] at beyond
        omega
      rw [← moved_get_of_ne hole other b]
      exact later.held r mem
  case ahead =>
    intro r mem
    rcases List.mem_cons.mp mem with rfl | mem
    · dsimp only
      omega
    · have beyond := later.ahead r mem
      omega
  case sorted => exact List.pairwise_cons.mpr ⟨later.ahead, later.sorted⟩

/-- Every scan ends, at the latest one round after the cut. The number of cells between the
scan and the cut, which falls with each look, bounds what comes before. -/
theorem exists_loop (opened : g.Open s) :
    ∃ looks moves last, Loop g looks moves last ∧ looks + distance s g.scan < 2 * c ∧
      Orderly g.pos g.cells s g.scan moves := by
  have limit := distance_lt s g.scan
  generalize left : c - (distance s g.scan + 1) = k
  induction k generalizing g with
  | zero =>
      have cut : next g.scan = s := by
        by_contra inside
        have further := distance_next inside
        have := distance_lt s (next g.scan)
        omega
      obtain ⟨looks, last, loop, few⟩ :=
        loop_of_ordered (opened.ordered (Or.inl cut)) opened.vacant
      have round := distance_lt (next g.scan) g.hole
      exact ⟨looks, [], last, loop, by omega, orderly_nil _ _ _ _⟩
  | succ k ih =>
      have inside : next g.scan ≠ s := fun cut => by
        have := distance_of_next_eq cut
        omega
      have further := distance_next inside
      cases h : g.cells.get (next g.scan) with
      | none => exact ⟨1, [], g, .stop (step_of_none h), by omega, orderly_nil _ _ _ _⟩
      | some b =>
          have step := step_of_some h
          by_cases stays : between g.hole (home g.pos b.frame) (next g.scan) = true
          · rw [if_pos stays] at step
            obtain ⟨looks, moves, last, loop, few, orderly⟩ :=
              ih (opened.stay inside h stays) (distance_lt s _) (by dsimp only; omega)
            dsimp only at few orderly
            exact ⟨looks + 1, moves, last, .pass step rfl loop, by omega,
              orderly.mono (by omega)⟩
          · rw [if_neg stays] at step
            obtain ⟨looks, moves, last, loop, few, orderly⟩ :=
              ih (opened.move inside h stays) (distance_lt s _) (by dsimp only; omega)
            dsimp only at few orderly
            exact ⟨looks + 1, _, last, .move step h opened.vacant rfl loop, by omega,
              opened.orderly_cons inside h stays orderly⟩

end Open

end Gap

/-- In every table that comes about by sets and clears from the empty one, however full it
is, the removal of a frame ends: the frame is absent and nothing happens, or the scan from
its cell stops after less than twice as many looks as there are cells, and leaves the table
in its final state. Every binding that the scan moves comes strictly closer to its home, and
none moves twice. -/
theorem erase_terminates (pos : 0 < c) (accesses : List Access) (f : Frame) :
    let m := (Access.performAll (empty pos) accesses).2
    (m.position? f = none → m.erase f = m) ∧
      ∀ i, m.position? f = some i → ∃ looks moves last,
        (Gap.mk (m.cells.set i none i.isLt) i i).Loop looks moves last ∧ looks < 2 * c ∧
          m.erase f = ⟨last.cells, m.size - 1, pos⟩ ∧
          (∀ r ∈ moves, r.Approaches pos) ∧ (moves.map fun r => r.binding.frame).Nodup := by
  intro m
  have sound : m.Sound := ((represents_empty pos).performAll accesses).2.sound
  refine ⟨fun absent => by simp only [erase, absent], fun i found => ?_⟩
  obtain ⟨s, ordered⟩ := sound.ordered
  have opened := sound.open_gap ordered i
  obtain ⟨looks, moves, last, loop, few, orderly⟩ := opened.exists_loop
  have bound : looks < 2 * c := by omega
  refine ⟨looks, moves, last, loop, bound, ?_, orderly.approaches, orderly.nodup opened.distinct⟩
  simp only [erase, found]
  rw [loop.close_eq (by omega)]

/-- Three frames fill a table of three cells. -/
def threeOfThree : List Access :=
  [.assign (.ofNumber 1) (some ⟨0x1000, by decide⟩),
    .assign (.ofNumber 2) (some ⟨0x2000, by decide⟩),
    .assign (.ofNumber 3) (some ⟨0x3000, by decide⟩)]

/-- In a full table the scan after a removal passes the cut and ends at the hole. -/
theorem erase_terminates_full :
    0 < 3 ∧
      let m := (Access.performAll (empty (show 0 < 3 by decide)) threeOfThree).2
      m.size = 3 ∧ m.position? (.ofNumber 1) = some 0 ∧
        ∃ looks moves last, (Gap.mk (m.cells.set 0 none (by decide)) 0 0).Loop looks moves last ∧
          looks < 6 ∧ m.erase (.ofNumber 1) = ⟨last.cells, 2, by decide⟩ ∧
          (moves.map fun r => r.binding.frame).Nodup := by
  refine ⟨by decide, by decide, by decide, ?_⟩
  obtain ⟨looks, moves, last, loop, few, same, -, once⟩ :=
    (erase_terminates (show 0 < 3 by decide) threeOfThree (.ofNumber 1)).2 0 (by decide)
  exact ⟨looks, moves, last, loop, few, same, once⟩

end Highmem.ReverseMap
