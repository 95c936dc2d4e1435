import Highmem.Proofs.ReverseMap.Insert

/-!
# Removing a binding

While the gap is being closed, the ring stays cut open where the table was sound.
Up to the cell looked at last all paths are whole again; a path that leads further
may be broken, but only at the hole (`Gap.Open`). Each look keeps this true, and
once the scan reaches the cut nothing lies further on, so all paths are whole.
Whatever looks are left then change nothing, because a binding that could move
into the hole would have had its path broken there.
-/

namespace Highmem.ReverseMap

open Cyclic

variable {c : Nat}

namespace Gap

variable {g : Gap c} {s : Fin c} {b : Binding}

/-- A gap that is closed up to `scan`, with the ring cut open before `s`. -/
structure Open (g : Gap c) (s : Fin c) : Prop where
  distinct : Cells.Distinct g.cells
  vacant : g.cells.get g.hole = none
  ahead : distance s g.hole ≤ distance s g.scan
  behind : ∀ ⦃i b⦄, g.cells.get i = some b → distance s (home g.pos b.frame) ≤ distance s i
  broken : ∀ ⦃i b x⦄, g.cells.get i = some b →
    distance s (home g.pos b.frame) ≤ distance s x → distance s x < distance s i →
      g.cells.get x = none → x = g.hole ∧ distance s g.scan < distance s i

/-- What closing a gap does to the cells. -/
structure Closes (pos : 0 < c) (before after : Cells c) : Prop where
  distinct : after.Distinct
  ordered : ∃ s, after.Ordered pos s
  holds_iff : ∀ b, after.Holds b ↔ before.Holds b
  occupied_eq : after.occupied = before.occupied

/-- The cells after the binding of the next cell has moved into the hole. -/
def moved (g : Gap c) (b : Binding) : Cells c :=
  Cells.move g.cells (next g.scan) g.hole b

theorem step_of_none (h : g.cells.get (next g.scan) = none) : g.step = none := by
  simp only [step, h]

theorem step_of_some (h : g.cells.get (next g.scan) = some b) :
    g.step = some (if between g.hole (home g.pos b.frame) (next g.scan) then
      { g with scan := next g.scan } else ⟨g.moved b, next g.scan, next g.scan⟩) := by
  simp only [step, h]
  split <;> rfl

theorem moved_get_hole (g : Gap c) (b : Binding) : (g.moved b).get g.hole = some b :=
  Cells.get_set_self _ _ _

theorem moved_get_next (hne : next g.scan ≠ g.hole) (b : Binding) :
    (g.moved b).get (next g.scan) = none := by
  rw [moved, Cells.move, Cells.get_set_of_ne _ _ hne, Cells.get_set_self]

theorem moved_get_of_ne {i : Fin c} (hole : i ≠ g.hole) (hnext : i ≠ next g.scan) (b : Binding) :
    (g.moved b).get i = g.cells.get i := by
  rw [moved, Cells.move, Cells.get_set_of_ne _ _ hole, Cells.get_set_of_ne _ _ hnext]

namespace Open

variable (opened : g.Open s)

include opened

theorem next_ne_hole (h : g.cells.get (next g.scan) = some b) : next g.scan ≠ g.hole := by
  intro e
  rw [e, opened.vacant] at h
  cases h

/-- A binding of the moved cells has come from the next cell or has stayed. -/
theorem origin (h : g.cells.get (next g.scan) = some b) {i : Fin c} {x : Binding}
    (hi : (g.moved b).get i = some x) :
    (i = g.hole ∧ x = b) ∨ (i ≠ g.hole ∧ i ≠ next g.scan ∧ g.cells.get i = some x) := by
  by_cases hole : i = g.hole
  · rw [hole, moved_get_hole, Option.some.injEq] at hi
    exact Or.inl ⟨hole, hi.symm⟩
  · by_cases hnext : i = next g.scan
    · rw [hnext, moved_get_next (opened.next_ne_hole h)] at hi
      cases hi
    · rw [moved_get_of_ne hole hnext] at hi
      exact Or.inr ⟨hole, hnext, hi⟩

theorem holds_moved_iff (h : g.cells.get (next g.scan) = some b) (x : Binding) :
    (g.moved b).Holds x ↔ Cells.Holds g.cells x := by
  constructor
  · rintro ⟨i, hi⟩
    rcases opened.origin h hi with ⟨-, rfl⟩ | ⟨-, -, hi'⟩
    · exact ⟨_, h⟩
    · exact ⟨i, hi'⟩
  · rintro ⟨i, hi⟩
    by_cases hnext : i = next g.scan
    · rw [hnext, h, Option.some.injEq] at hi
      exact ⟨g.hole, by rw [moved_get_hole, hi]⟩
    · have hole : i ≠ g.hole := fun e => by
        rw [e, opened.vacant] at hi
        cases hi
      exact ⟨i, by rw [moved_get_of_ne hole hnext, hi]⟩

theorem occupied_moved (h : g.cells.get (next g.scan) = some b) :
    (g.moved b).occupied = Cells.occupied g.cells := by
  have vacated : Vector.get (g.cells.set (next g.scan) none (next g.scan).isLt) g.hole = none := by
    rw [Cells.get_set_of_ne _ _ (opened.next_ne_hole h).symm]
    exact opened.vacant
  rw [moved, Cells.move, Cells.occupied_fill vacated, ← Cells.occupied_vacate h]

theorem distinct_moved (h : g.cells.get (next g.scan) = some b) : (g.moved b).Distinct := by
  intro i j x y hi hj same
  rcases opened.origin h hi with ⟨ei, rfl⟩ | ⟨-, hnext, hi'⟩
  · rcases opened.origin h hj with ⟨ej, rfl⟩ | ⟨-, hnext', hj'⟩
    · exact ei.trans ej.symm
    · exact absurd (opened.distinct hj' h same.symm) hnext'
  · rcases opened.origin h hj with ⟨ej, rfl⟩ | ⟨-, -, hj'⟩
    · exact absurd (opened.distinct hi' h same) hnext
    · exact opened.distinct hi' hj' same

/-- The scan passes a binding whose path does not lead through the hole. -/
theorem stay (inside : next g.scan ≠ s) (h : g.cells.get (next g.scan) = some b)
    (stays : between g.hole (home g.pos b.frame) (next g.scan) = true) :
    Open { g with scan := next g.scan } s := by
  have further := distance_next inside
  have ahead := opened.ahead
  rw [between_iff s, if_pos (by omega)] at stays
  refine ⟨opened.distinct, opened.vacant, by dsimp only; omega, opened.behind, ?_⟩
  intro i b' x hi lower upper hx
  obtain ⟨rfl, past⟩ := opened.broken hi lower upper hx
  refine ⟨rfl, ?_⟩
  dsimp only
  have hne : distance s i ≠ distance s (next g.scan) := fun e => by
    rw [eq_of_distance_eq e, h, Option.some.injEq] at hi
    rw [← hi] at lower
    exact absurd stays.1 (by omega)
  omega

/-- A binding that does not stay has the hole on its path. -/
theorem home_le_hole (inside : next g.scan ≠ s) (h : g.cells.get (next g.scan) = some b)
    (leaves : ¬ between g.hole (home g.pos b.frame) (next g.scan) = true) :
    distance s (home g.pos b.frame) ≤ distance s g.hole := by
  have further := distance_next inside
  have ahead := opened.ahead
  have hle := opened.behind h
  rw [between_iff s, if_pos (by omega)] at leaves
  omega

/-- A binding whose path leads through the hole moves there, and leaves a hole
behind. -/
theorem move (inside : next g.scan ≠ s) (h : g.cells.get (next g.scan) = some b)
    (leaves : ¬ between g.hole (home g.pos b.frame) (next g.scan) = true) :
    Open ⟨g.moved b, next g.scan, next g.scan⟩ s := by
  have further := distance_next inside
  have ahead := opened.ahead
  have home_le := opened.home_le_hole inside h leaves
  have hne := opened.next_ne_hole h
  refine ⟨opened.distinct_moved h, moved_get_next hne b, Nat.le_refl _, ?_, ?_⟩
  · intro i x hi
    rcases opened.origin h hi with ⟨rfl, rfl⟩ | ⟨-, -, hi'⟩
    · exact home_le
    · exact opened.behind hi'
  · intro i x k hi lower upper hk
    dsimp only at hi hk ⊢
    -- an empty cell is the new hole or was empty before
    have empty : k = next g.scan ∨ (k ≠ g.hole ∧ g.cells.get k = none) := by
      by_cases hnext : k = next g.scan
      · exact Or.inl hnext
      · have hole : k ≠ g.hole := fun e => by
          rw [e, moved_get_hole] at hk
          cases hk
        rw [moved_get_of_ne hole hnext] at hk
        exact Or.inr ⟨hole, hk⟩
    rcases empty with rfl | ⟨hole, hk'⟩
    · exact ⟨rfl, upper⟩
    · rcases opened.origin h hi with ⟨rfl, rfl⟩ | ⟨-, -, hi'⟩
      · exact absurd (opened.broken h lower (by omega) hk').1 hole
      · exact absurd (opened.broken hi' lower upper hk').1 hole

/-- Where the scan finds an empty cell, or has reached the cut, all paths are
whole. -/
theorem ordered (finished : next g.scan = s ∨ g.cells.get (next g.scan) = none) :
    Cells.Ordered g.pos g.cells s := by
  refine ⟨opened.behind, fun i b' x hi lower upper hx => ?_⟩
  obtain ⟨rfl, past⟩ := opened.broken hi lower upper hx
  have limit := distance_lt s i
  have ahead := opened.ahead
  by_cases cut : next g.scan = s
  · have last := distance_of_next_eq cut
    omega
  · have hnext := finished.resolve_left cut
    have further := distance_next cut
    -- the path also leads through the next cell, which cannot be a second hole
    have hne : distance s i ≠ distance s (next g.scan) := fun e => by
      rw [eq_of_distance_eq e, hnext] at hi
      cases hi
    have same := (opened.broken hi (x := next g.scan) (by omega) (by omega) hnext).1
    rw [same] at further
    omega

end Open

/-- Where all paths are whole, a binding stays. -/
theorem between_of_ordered (ordered : Cells.Ordered g.pos g.cells s)
    (vacant : g.cells.get g.hole = none) (h : g.cells.get (next g.scan) = some b) :
    between g.hole (home g.pos b.frame) (next g.scan) = true := by
  have hle := ordered.behind h
  have hne : distance s g.hole ≠ distance s (next g.scan) := fun e => by
    rw [eq_of_distance_eq e, h] at vacant
    cases vacant
  have avoids := fun lower upper => ordered.unbroken (x := g.hole) h lower upper vacant
  rw [between_iff s]
  split
  · refine ⟨?_, hle⟩
    by_contra within
    exact avoids (by omega) (by omega)
  · exact Or.inr hle

/-- Where all paths are whole, looking on moves nothing. -/
theorem cells_close_of_ordered (looks : Nat) (ordered : Cells.Ordered g.pos g.cells s)
    (vacant : g.cells.get g.hole = none) : (close looks g).cells = g.cells := by
  induction looks generalizing g with
  | zero => rfl
  | succ looks ih =>
      cases h : g.cells.get (next g.scan) with
      | none =>
          rw [close, step_of_none h]
      | some b =>
          rw [close, step_of_some h, if_pos (between_of_ordered ordered vacant h)]
          exact ih ordered vacant

/-- Closing a gap keeps the bindings and makes all paths whole. As many looks as
lie between the scan and the cut are enough. -/
theorem Open.closes (opened : g.Open s) (looks : Nat) (enough : c ≤ looks + distance s g.scan + 1) :
    Closes g.pos g.cells (close looks g).cells := by
  induction looks generalizing g with
  | zero =>
      have cut : next g.scan = s := by
        by_contra inside
        have further := distance_next inside
        have limit := distance_lt s (next g.scan)
        omega
      exact ⟨opened.distinct, ⟨s, opened.ordered (Or.inl cut)⟩, fun _ => Iff.rfl, rfl⟩
  | succ looks ih =>
      by_cases cut : next g.scan = s
      · rw [cells_close_of_ordered _ (opened.ordered (Or.inl cut)) opened.vacant]
        exact ⟨opened.distinct, ⟨s, opened.ordered (Or.inl cut)⟩, fun _ => Iff.rfl, rfl⟩
      · have further := distance_next cut
        cases h : g.cells.get (next g.scan) with
        | none =>
            rw [close, step_of_none h]
            exact ⟨opened.distinct, ⟨s, opened.ordered (Or.inr h)⟩, fun _ => Iff.rfl, rfl⟩
        | some b =>
            rw [close, step_of_some h]
            by_cases stays : between g.hole (home g.pos b.frame) (next g.scan) = true
            · rw [if_pos stays]
              exact ih (opened.stay cut h stays) (by dsimp only; omega)
            · rw [if_neg stays]
              have rest := ih (opened.move cut h stays) (by dsimp only; omega)
              refine ⟨rest.distinct, rest.ordered, fun x => ?_, ?_⟩
              · exact (rest.holds_iff x).trans (opened.holds_moved_iff h x)
              · exact rest.occupied_eq.trans (opened.occupied_moved h)

end Gap

variable {m : ReverseMap c} {f : Frame}

/-- The effect of removing the binding of a frame. -/
structure Erased (m : ReverseMap c) (f : Frame) (m' : ReverseMap c) : Prop where
  sound : m'.Sound
  get?_self : m'.get? f = none
  get?_of_ne : ∀ {g}, g ≠ f → m'.get? g = m.get? g
  size_eq : m'.size = if (m.get? f).isSome then m.size - 1 else m.size

/-- Emptying a cell of a sound table opens a gap there. -/
theorem Sound.open_gap (sound : m.Sound) {s : Fin c} (ordered : Cells.Ordered m.pos m.cells s)
    (i : Fin c) : Gap.Open ⟨m.cells.set i none i.isLt, i, i⟩ s := by
  have origin : ∀ {j x}, (m.cells.set i none i.isLt).get j = some x → m.cells.get j = some x := by
    intro j x hj
    by_cases ji : j = i
    · rw [ji, Cells.get_set_self] at hj
      cases hj
    · rwa [Cells.get_set_of_ne _ _ ji] at hj
  refine ⟨fun j k x y hj hk same => ?_, Cells.get_set_self _ _ _, Nat.le_refl _,
    fun j x hj => ordered.behind (origin hj), fun j x k hj lower upper hk => ?_⟩
  · exact sound.distinct (origin hj) (origin hk) same
  · have here : k = i := by
      by_contra ki
      rw [Cells.get_set_of_ne _ _ ki] at hk
      exact ordered.unbroken (origin hj) lower upper hk
    exact ⟨here, here ▸ upper⟩

/-- Removing an absent frame changes nothing. -/
theorem Sound.erase_absent (sound : m.Sound) (absent : m.get? f = none) : m.erase f = m := by
  have nowhere : m.position? f = none := by
    cases h : m.position? f with
    | none => rfl
    | some i =>
        have ending := probe_ends m f
        unfold position? at h
        generalize m.probe f = outcome at ending h
        cases ending with
        | @hit j b here same =>
            have held := (sound.get?_eq_none_iff.mp absent) b.address
            exact absurd ⟨j, by rw [← same]; exact here⟩ held
        | vacant => cases h
        | exhausted => cases h
  simp only [erase, nowhere]

/-- Removing a binding keeps a table sound and all other bindings in reach. -/
theorem Sound.erased (sound : m.Sound) (f : Frame) : Erased m f (m.erase f) := by
  cases present : m.get? f with
  | none =>
      rw [sound.erase_absent present]
      exact ⟨sound, present, fun _ => rfl, by rw [present]; rfl⟩
  | some va =>
      obtain ⟨i, hi⟩ := sound.get?_eq_some_iff.mp present
      obtain ⟨s, ordered⟩ := sound.ordered
      have found : m.position? f = some i := by
        rw [position?, sound.probe_eq_hit (b := ⟨f, va⟩) hi]
      have closes := (sound.open_gap ordered i).closes (2 * c) (by omega)
      have shape : m.erase f =
          ⟨(Gap.close (2 * c) ⟨m.cells.set i none i.isLt, i, i⟩).cells, m.size - 1, m.pos⟩ := by
        simp only [erase, found]
      rw [shape]
      generalize (Gap.close (2 * c) ⟨m.cells.set i none i.isLt, i, i⟩).cells = cells at closes
      have count := Cells.occupied_vacate hi
      have size := sound.size_eq
      have after : Sound ⟨cells, m.size - 1, m.pos⟩ := by
        refine ⟨closes.distinct, closes.ordered, ?_⟩
        rw [closes.occupied_eq]
        dsimp only
        omega
      -- the binding itself is gone, and the others are held as before
      have holds : ∀ x, Cells.Holds cells x ↔ ∃ j, j ≠ i ∧ m.cells.get j = some x := fun x => by
        rw [closes.holds_iff, Cells.holds_set_iff]
        exact or_iff_right (Option.some_ne_none x ∘ Eq.symm)
      refine ⟨after, after.get?_eq_none_iff.mpr fun va' held => ?_, fun {g} other => ?_, ?_⟩
      · obtain ⟨j, ji, hj⟩ := (holds _).mp held
        exact ji (sound.distinct hj hi rfl)
      · refine sound.get?_congr after fun va' => ?_
        rw [holds]
        constructor
        · rintro ⟨j, -, hj⟩
          exact ⟨j, hj⟩
        · rintro ⟨j, hj⟩
          refine ⟨j, fun e => other ?_, hj⟩
          rw [e, hi, Option.some.injEq, Binding.mk.injEq] at hj
          exact hj.1.symm
      · rw [present]
        rfl

end Highmem.ReverseMap
