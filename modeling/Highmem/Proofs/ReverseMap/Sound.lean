import Highmem.Proofs.Ring
import Highmem.Proofs.Tally
import Highmem.ReverseMap.Erase

/-!
# Sound tables of reverse pointers

A search from a frame's home cell finds the frame only if no cell on the way is
empty. `Ordered cells s` says so for all bindings at once, with the ring cut open
before `s`: every binding lies at its home or behind it, and no cell between the
two is empty. In particular no path crosses the cut. A table with an empty cell
can be cut behind that cell; a full one was filled by some last binding, and can
be cut behind it.

`get?_eq_some_iff` is what the rest of the library uses: in a sound table the
search finds exactly the bindings that the cells hold.
-/

namespace Highmem.ReverseMap

open Cyclic

variable {c : Nat}

abbrev Cells (c : Nat) := Vector (Option Binding) c

namespace Cells

def Holds (cells : Cells c) (b : Binding) : Prop := ∃ i, cells.get i = some b

/-- No frame has two cells. -/
def Distinct (cells : Cells c) : Prop :=
  ∀ ⦃i j b b'⦄, cells.get i = some b → cells.get j = some b' → b.frame = b'.frame → i = j

def occupied (cells : Cells c) : Nat := tally fun i => (cells.get i).isSome

/-- With the ring cut open before `s`, every path leads forward from a home to its
binding without passing an empty cell. -/
structure Ordered (pos : 0 < c) (cells : Cells c) (s : Fin c) : Prop where
  behind : ∀ ⦃i b⦄, cells.get i = some b → distance s (home pos b.frame) ≤ distance s i
  unbroken : ∀ ⦃i b x⦄, cells.get i = some b →
    distance s (home pos b.frame) ≤ distance s x → distance s x < distance s i →
      cells.get x ≠ none

theorem get_set_self (cells : Cells c) (i : Fin c) (b : Option Binding) :
    (cells.set i b i.isLt).get i = b := Vector.getElem_set_self i.isLt

theorem get_set_of_ne (cells : Cells c) {i j : Fin c} (b : Option Binding) (h : j ≠ i) :
    (cells.set i b i.isLt).get j = cells.get j :=
  Vector.getElem_set_ne i.isLt j.isLt fun same => h (Fin.ext same.symm)

/-- The cells after a binding has moved from one cell to another. -/
def move (cells : Cells c) (source target : Fin c) (b : Binding) : Cells c :=
  (cells.set source none source.isLt).set target (some b) target.isLt

/-- Filling an empty cell adds a binding. -/
theorem occupied_fill {cells : Cells c} {i : Fin c} (vacant : cells.get i = none) (b : Binding) :
    occupied (cells.set i (some b) i.isLt) = cells.occupied + 1 := by
  refine tally_succ i ?_ ?_ fun j hj => ?_
  · rw [vacant, Option.isSome_none]
  · rw [get_set_self, Option.isSome_some]
  · rw [get_set_of_ne cells _ hj]

/-- Emptying a filled cell removes a binding. -/
theorem occupied_vacate {cells : Cells c} {i : Fin c} {b : Binding}
    (filled : cells.get i = some b) :
    cells.occupied = occupied (cells.set i none i.isLt) + 1 := by
  refine tally_succ i ?_ ?_ fun j hj => ?_
  · rw [get_set_self, Option.isSome_none]
  · rw [filled, Option.isSome_some]
  · rw [get_set_of_ne cells _ hj]

/-- Any empty cell can be the last before the cut, because no path contains it. -/
theorem Ordered.cut_behind {pos : 0 < c} {cells : Cells c} {s v : Fin c}
    (ordered : Ordered pos cells s) (vacant : cells.get v = none) :
    Ordered pos cells (next v) := by
  -- relative to `s` the path of a binding lies before `v` or behind it
  have apart : ∀ {i b}, cells.get i = some b →
      distance s i < distance s v ∨ distance s v < distance s (home pos b.frame) := by
    intro i b hi
    have hne : distance s i ≠ distance s v := fun e => by
      rw [eq_of_distance_eq e, vacant] at hi
      cases hi
    by_cases before : distance s v < distance s (home pos b.frame)
    · exact Or.inr before
    · left
      by_contra beyond
      exact ordered.unbroken hi (by omega) (by omega) vacant
  have limit : ∀ x : Fin c, distance s x < c := distance_lt s
  constructor
  · intro i b hi
    have hle := ordered.behind hi
    have hv := limit v
    have hx := limit i
    rcases apart hi with before | beyond
    · rw [distance_behind_of_le s (by omega), distance_behind_of_le s (by omega)]
      omega
    · rw [distance_behind_of_lt s beyond, distance_behind_of_lt s (by omega)]
      omega
  · intro i b x hi lower upper
    have hle := ordered.behind hi
    have hv := limit v
    have hx := limit x
    by_cases side : distance s v < distance s x
    · rw [distance_behind_of_lt s side] at lower upper
      rcases apart hi with before | beyond
      · rw [distance_behind_of_le s (by omega)] at lower
        omega
      · rw [distance_behind_of_lt s beyond] at lower
        rw [distance_behind_of_lt s (by omega)] at upper
        exact ordered.unbroken hi (by omega) (by omega)
    · rw [distance_behind_of_le s (x := x) (by omega)] at lower upper
      rcases apart hi with before | beyond
      · rw [distance_behind_of_le s (by omega)] at lower
        rw [distance_behind_of_le s (by omega)] at upper
        exact ordered.unbroken hi (by omega) (by omega)
      · rw [distance_behind_of_lt s (by omega)] at upper
        have hi' := limit i
        omega

end Cells

/-- A table in which every search is right. -/
structure Sound (m : ReverseMap c) : Prop where
  distinct : Cells.Distinct m.cells
  ordered : ∃ s, Cells.Ordered m.pos m.cells s
  size_eq : m.size = Cells.occupied m.cells

/-- How a search of `left` cells from `i` on can end. -/
inductive Ends (m : ReverseMap c) (f : Frame) (i : Fin c) (left : Nat) : Probe c → Prop where
  | hit {j : Fin c} {b : Binding} (here : m.cell j = some b) (same : b.frame = f) :
      Ends m f i left (.hit j)
  | vacant {j : Fin c} (here : m.cell j = none) (near : distance i j < left)
      (others : ∀ x, distance i x < distance i j → ∃ b, m.cell x = some b ∧ b.frame ≠ f) :
      Ends m f i left (.vacant j)
  | exhausted (others : ∀ x, distance i x < left → ∃ b, m.cell x = some b ∧ b.frame ≠ f) :
      Ends m f i left .exhausted

theorem probeFrom_ends (m : ReverseMap c) (f : Frame) (i : Fin c) (left : Nat) :
    Ends m f i left (m.probeFrom f i left) := by
  induction left generalizing i with
  | zero => exact .exhausted fun x hx => absurd hx (Nat.not_lt_zero _)
  | succ left ih =>
      cases here : m.cell i with
      | none =>
          rw [probeFrom_of_cell_eq_none here (Nat.succ_pos left)]
          refine .vacant here (by rw [distance_self]; omega) fun x hx => ?_
          rw [distance_self] at hx
          exact absurd hx (Nat.not_lt_zero _)
      | some b =>
          by_cases same : b.frame = f
          · have found : m.probeFrom f i (left + 1) = .hit i := by
              rw [probeFrom, here]
              exact if_pos same
            rw [found]
            exact .hit here same
          · have further : m.probeFrom f i (left + 1) = m.probeFrom f (next i) left := by
              rw [probeFrom, here]
              exact if_neg same
            rw [further]
            -- the cells met from the next one on, and the one just looked at
            have extend : ∀ k, (∀ x, distance (next i) x < k →
                ∃ b, m.cell x = some b ∧ b.frame ≠ f) →
                ∀ x, distance i x < k + 1 → ∃ b, m.cell x = some b ∧ b.frame ≠ f := by
              intro k others x hx
              by_cases first : x = i
              · exact ⟨b, first ▸ here, same⟩
              · have closer := distance_next_left first
                exact others x (by omega)
            have rest := ih (next i)
            generalize m.probeFrom f (next i) left = outcome at rest ⊢
            cases rest with
            | hit here' same' => exact .hit here' same'
            | @vacant j here' near others =>
                have hj : j ≠ i := fun e => by
                  rw [e, here] at here'
                  cases here'
                have closer := distance_next_left hj
                refine .vacant here' (by omega) fun x hx => ?_
                exact extend (distance (next i) j) others x (by omega)
            | exhausted others => exact .exhausted (extend left others)

theorem probe_ends (m : ReverseMap c) (f : Frame) :
    Ends m f (home m.pos f) c (m.probe f) := probeFrom_ends m f _ c

namespace Sound

variable {m : ReverseMap c}

/-- The search for a frame that the table holds ends at the frame's cell. -/
theorem probe_eq_hit (sound : m.Sound) {i : Fin c} {b : Binding} (hi : m.cell i = some b) :
    m.probe b.frame = .hit i := by
  obtain ⟨s, ordered⟩ := sound.ordered
  have found := probe_ends m b.frame
  generalize m.probe b.frame = outcome at found ⊢
  cases found with
  | hit here same => rw [sound.distinct here hi same]
  | @vacant j here _ others =>
      -- `i` is not met before `j`, so `j` is on the path to `i`
      exfalso
      have later : distance (home m.pos b.frame) j ≤ distance (home m.pos b.frame) i := by
        by_contra before
        obtain ⟨b', hb', other⟩ := others i (by omega)
        exact other (by rw [Option.some.inj (hb'.symm.trans hi)])
      have hne : distance (home m.pos b.frame) j ≠ distance (home m.pos b.frame) i := fun e => by
        rw [eq_of_distance_eq e, hi] at here
        cases here
      have hle := ordered.behind hi
      have hj := distance_shift s (home m.pos b.frame) j
      have hi' := distance_shift s (home m.pos b.frame) i
      have hlt := distance_lt s j
      rw [if_pos hle] at hi'
      split at hj
      · exact ordered.unbroken hi (x := j) (by omega) (by omega) here
      · have := distance_lt s i
        omega
  | exhausted others =>
      obtain ⟨b', hb', other⟩ := others i (distance_lt _ _)
      exact absurd (by rw [Option.some.inj (hb'.symm.trans hi)]) other

/-- Reading a sound table finds exactly what the cells hold. -/
theorem get?_eq_some_iff (sound : m.Sound) {f : Frame} {va : VirtAddr} :
    m.get? f = some va ↔ Cells.Holds m.cells ⟨f, va⟩ := by
  constructor
  · intro h
    unfold get? position? at h
    have found := probe_ends m f
    generalize m.probe f = outcome at found h
    cases found with
    | @hit j b here same =>
        refine ⟨j, ?_⟩
        have address : b.address = va := by simpa [here] using h
        change m.cell j = _
        rw [here, ← same, ← address]
    | vacant => cases h
    | exhausted => cases h
  · rintro ⟨i, hi⟩
    unfold get? position?
    rw [sound.probe_eq_hit (b := ⟨f, va⟩) hi]
    change (m.cell i).map Binding.address = some va
    rw [show m.cell i = some ⟨f, va⟩ from hi]
    rfl

/-- The frames without an address are those that no cell holds. -/
theorem get?_eq_none_iff (sound : m.Sound) {f : Frame} :
    m.get? f = none ↔ ∀ va, ¬ Cells.Holds m.cells ⟨f, va⟩ := by
  rw [Option.eq_none_iff_forall_ne_some]
  exact forall_congr' fun va => not_congr sound.get?_eq_some_iff

end Sound

theorem sound_empty (pos : 0 < c) : (empty pos).Sound := by
  have vacant : ∀ i, (empty pos).cells.get i = none := cell_empty pos
  refine ⟨fun i j b b' hi => ?_, ⟨first pos, ⟨fun i b hi => ?_, fun i b x hi => ?_⟩⟩, ?_⟩
  · cases (vacant i).symm.trans hi
  · cases (vacant i).symm.trans hi
  · cases (vacant i).symm.trans hi
  · exact (tally_eq_zero_iff.mpr fun i => by rw [vacant i, Option.isSome_none]).symm

end Highmem.ReverseMap
