import Highmem.Proofs.ReverseMap.Sound

/-!
# Binding a frame

A binding replaces the one of the same frame, or else fills the first empty cell of
the frame's path. Behind that cell the ring can be cut open: no other path
contains it, and the new path ends there. So a sound table stays sound, also when
its last empty cell is filled.
-/

namespace Highmem.ReverseMap

open Cyclic

variable {c : Nat} {m m' : ReverseMap c} {f : Frame}

/-- What a table answers for a frame depends only on the bindings that it holds. -/
theorem Sound.get?_congr (sound : m.Sound) (sound' : m'.Sound)
    (holds : ∀ va, Cells.Holds m'.cells ⟨f, va⟩ ↔ Cells.Holds m.cells ⟨f, va⟩) :
    m'.get? f = m.get? f := by
  ext va
  rw [sound.get?_eq_some_iff, sound'.get?_eq_some_iff]
  exact holds va

namespace Cells

variable {cells : Cells c} {i : Fin c} {b b' : Binding}

theorem holds_set_iff (new : Option Binding) :
    Holds (cells.set i new i.isLt) b ↔ new = some b ∨ ∃ j, j ≠ i ∧ cells.get j = some b := by
  constructor
  · rintro ⟨j, hj⟩
    by_cases same : j = i
    · rw [same, get_set_self] at hj
      exact Or.inl hj
    · rw [get_set_of_ne cells _ same] at hj
      exact Or.inr ⟨j, same, hj⟩
  · rintro (hb | ⟨j, other, hj⟩)
    · exact ⟨i, by rw [get_set_self, hb]⟩
    · exact ⟨j, by rw [get_set_of_ne cells _ other, hj]⟩

/-- A binding for a frame that no other cell holds leaves the frames distinct. -/
theorem Distinct.set (distinct : cells.Distinct)
    (fresh : ∀ j b'', j ≠ i → cells.get j = some b'' → b''.frame ≠ b.frame) :
    Distinct (cells.set i (some b) i.isLt) := by
  intro j k x y hj hk same
  by_cases ji : j = i <;> by_cases ki : k = i
  · exact ji.trans ki.symm
  · rw [ji, get_set_self, Option.some.injEq] at hj
    rw [get_set_of_ne cells _ ki] at hk
    exact absurd (same.symm.trans (by rw [hj])) (fresh k y ki hk)
  · rw [get_set_of_ne cells _ ji] at hj
    rw [ki, get_set_self, Option.some.injEq] at hk
    exact absurd (same.trans (by rw [hk])) (fresh j x ji hj)
  · rw [get_set_of_ne cells _ ji] at hj
    rw [get_set_of_ne cells _ ki] at hk
    exact distinct hj hk same

/-- A cell may get another binding of its frame. -/
theorem Ordered.replace {pos : 0 < c} {s : Fin c} (ordered : Ordered pos cells s)
    (hi : cells.get i = some b) (same : b'.frame = b.frame) :
    Ordered pos (cells.set i (some b') i.isLt) s := by
  -- each cell has a binding as before, and of the same frame
  have origin : ∀ {j x}, (cells.set i (some b') i.isLt).get j = some x →
      ∃ y, cells.get j = some y ∧ x.frame = y.frame := by
    intro j x hj
    by_cases ji : j = i
    · rw [ji, get_set_self, Option.some.injEq] at hj
      exact ⟨b, ji ▸ hi, by rw [← hj, same]⟩
    · rw [get_set_of_ne cells _ ji] at hj
      exact ⟨x, hj, rfl⟩
  constructor
  · intro j x hj
    obtain ⟨y, hy, frame⟩ := origin hj
    rw [frame]
    exact ordered.behind hy
  · intro j x k hj lower upper
    obtain ⟨y, hy, frame⟩ := origin hj
    rw [frame] at lower
    by_cases ki : k = i
    · rw [ki, get_set_self]
      exact Option.some_ne_none _
    · rw [get_set_of_ne cells _ ki]
      exact ordered.unbroken hy lower upper

/-- An empty cell may get a binding whose path ends there. The ring is then cut
behind that cell. -/
theorem Ordered.fill {pos : 0 < c} {s : Fin c} (ordered : Ordered pos cells s)
    (vacant : cells.get i = none)
    (path : ∀ x, distance (home pos b.frame) x < distance (home pos b.frame) i →
      cells.get x ≠ none) :
    Ordered pos (cells.set i (some b) i.isLt) (next i) := by
  have behindOld := ordered.cut_behind vacant
  have last : distance (next i) i + 1 = c := distance_of_next_eq rfl
  constructor
  · intro j x hj
    by_cases ji : j = i
    · have := distance_lt (next i) (home pos x.frame)
      rw [ji]
      omega
    · rw [get_set_of_ne cells _ ji] at hj
      exact behindOld.behind hj
  · intro j x k hj lower upper
    have hk := distance_lt (next i) j
    have ki : k ≠ i := fun e => by
      rw [e] at upper
      omega
    rw [get_set_of_ne cells _ ki]
    by_cases ji : j = i
    · rw [ji, get_set_self, Option.some.injEq] at hj
      subst hj
      refine path k ?_
      rw [distance_shift (next i) _ k, distance_shift (next i) _ i, if_pos lower,
        if_pos (by omega)]
      rw [ji] at upper
      omega
    · rw [get_set_of_ne cells _ ji] at hj
      exact behindOld.unbroken hj lower upper

end Cells

/-- The effect of binding a frame to an address. -/
structure Inserted (m : ReverseMap c) (f : Frame) (va : VirtAddr) (m' : ReverseMap c) : Prop where
  sound : m'.Sound
  get?_self : m'.get? f = some va
  get?_of_ne : ∀ {g}, g ≠ f → m'.get? g = m.get? g
  size_eq : m'.size = if (m.get? f).isSome then m.size else m.size + 1

/-- The binding of a frame that the table holds already. -/
theorem Sound.inserted_hit (sound : m.Sound) {i : Fin c} {b : Binding} (hi : m.cell i = some b)
    (va : VirtAddr) : Inserted m b.frame va (m.write i (some ⟨b.frame, va⟩)) := by
  have distinct : Cells.Distinct (m.write i (some ⟨b.frame, va⟩)).cells :=
    Cells.Distinct.set sound.distinct fun j b' ji hj same => ji (sound.distinct hj hi same)
  have after : (m.write i (some ⟨b.frame, va⟩)).Sound := by
    refine ⟨distinct, ?_, ?_⟩
    · obtain ⟨s, ordered⟩ := sound.ordered
      exact ⟨s, ordered.replace hi rfl⟩
    · rw [show (m.write i (some ⟨b.frame, va⟩)).size = m.size from rfl, sound.size_eq]
      refine tally_congr fun j => ?_
      by_cases ji : j = i
      · rw [ji, show m.cells.get i = some b from hi]
        exact (congrArg Option.isSome (Cells.get_set_self m.cells i (some ⟨b.frame, va⟩))).symm
      · exact congrArg Option.isSome (Cells.get_set_of_ne m.cells _ ji).symm
  refine ⟨after, ?_, fun {g} other => ?_, ?_⟩
  · exact after.get?_eq_some_iff.mpr ⟨i, Cells.get_set_self _ _ _⟩
  · refine sound.get?_congr after fun va' => ?_
    rw [show (m.write i (some ⟨b.frame, va⟩)).cells = m.cells.set i _ i.isLt from rfl,
      Cells.holds_set_iff]
    constructor
    · rintro (e | ⟨j, -, hj⟩)
      · exact absurd (congrArg Binding.frame (Option.some.inj e)).symm other
      · exact ⟨j, hj⟩
    · rintro ⟨j, hj⟩
      refine Or.inr ⟨j, fun e => other ?_, hj⟩
      rw [e] at hj
      exact congrArg Binding.frame (Option.some.inj (hj.symm.trans hi))
  · have present : m.get? b.frame = some b.address := sound.get?_eq_some_iff.mpr ⟨i, hi⟩
    rw [present]
    rfl

/-- The binding of a new frame, whose search ended at an empty cell. -/
theorem Sound.inserted_vacant (sound : m.Sound) {i : Fin c} (vacant : m.cell i = none)
    (others : ∀ x, distance (home m.pos f) x < distance (home m.pos f) i →
      ∃ b, m.cell x = some b ∧ b.frame ≠ f) (absent : m.get? f = none) (va : VirtAddr) :
    Inserted m f va { m.write i (some ⟨f, va⟩) with size := m.size + 1 } := by
  have missing := sound.get?_eq_none_iff.mp absent
  have after : Sound { m.write i (some ⟨f, va⟩) with size := m.size + 1 } := by
    refine ⟨?_, ?_, ?_⟩
    · refine Cells.Distinct.set sound.distinct fun j b' _ hj same => ?_
      exact missing b'.address ⟨j, by rw [← show b'.frame = f from same]; exact hj⟩
    · obtain ⟨s, ordered⟩ := sound.ordered
      refine ⟨next i, ordered.fill vacant fun x hx => ?_⟩
      obtain ⟨b, hb, -⟩ := others x hx
      rw [show m.cells.get x = some b from hb]
      exact Option.some_ne_none _
    · change m.size + 1 = Cells.occupied (m.cells.set i (some ⟨f, va⟩) i.isLt)
      rw [Cells.occupied_fill vacant, sound.size_eq]
  refine ⟨after, ?_, fun {g} other => ?_, ?_⟩
  · exact after.get?_eq_some_iff.mpr ⟨i, Cells.get_set_self _ _ _⟩
  · refine sound.get?_congr after fun va' => ?_
    change Cells.Holds (m.cells.set i (some ⟨f, va⟩) i.isLt) _ ↔ _
    rw [Cells.holds_set_iff]
    constructor
    · rintro (e | ⟨j, -, hj⟩)
      · exact absurd (congrArg Binding.frame (Option.some.inj e)).symm other
      · exact ⟨j, hj⟩
    · rintro ⟨j, hj⟩
      refine Or.inr ⟨j, fun e => ?_, hj⟩
      rw [e] at hj
      cases vacant.symm.trans hj
  · rw [absent]
    rfl

theorem run_insert_of_hit {i : Fin c} (va : VirtAddr) (h : m.probe f = .hit i) :
    (insert f va).run m = ⟨.ok (), m.write i (some ⟨f, va⟩), []⟩ := by
  simp only [insert, Op.run_bind, Op.run_get, h]
  rfl

theorem run_insert_of_vacant {i : Fin c} (va : VirtAddr) (h : m.probe f = .vacant i) :
    (insert f va).run m =
      ⟨.ok (), { m.write i (some ⟨f, va⟩) with size := m.size + 1 }, []⟩ := by
  simp only [insert, Op.run_bind, Op.run_get, h]
  rfl

theorem run_insert_of_exhausted (va : VirtAddr) (h : m.probe f = .exhausted) :
    (insert f va).run m = ⟨.error (.reverseFull c f), m, []⟩ := by
  simp only [insert, Op.run_bind, Op.run_get, h]
  rfl

/-- A frame that has an address gets the new one in its place, however full the
table is. -/
theorem Sound.run_insert_present (sound : m.Sound) (present : m.get? f ≠ none) (va : VirtAddr) :
    ∃ m', (insert f va).run m = ⟨.ok (), m', []⟩ ∧ Inserted m f va m' := by
  obtain ⟨old, hold⟩ := Option.ne_none_iff_exists'.mp present
  obtain ⟨i, hi⟩ := sound.get?_eq_some_iff.mp hold
  exact ⟨_, run_insert_of_hit va (sound.probe_eq_hit (b := ⟨f, old⟩) hi),
    sound.inserted_hit (b := ⟨f, old⟩) hi va⟩

/-- A new frame gets an address where a cell is empty. -/
theorem Sound.run_insert_absent (sound : m.Sound) (absent : m.get? f = none)
    (room : m.size < c) (va : VirtAddr) :
    ∃ m', (insert f va).run m = ⟨.ok (), m', []⟩ ∧ Inserted m f va m' := by
  have ending := probe_ends m f
  generalize h : m.probe f = outcome at ending
  cases ending with
  | @hit i b here same =>
      have held := (sound.get?_eq_none_iff.mp absent) b.address
      exact absurd ⟨i, by rw [← same]; exact here⟩ held
  | vacant here _ others =>
      exact ⟨_, run_insert_of_vacant va h, sound.inserted_vacant here others absent va⟩
  | exhausted others =>
      -- every cell is occupied, which the size denies
      have full : Cells.occupied m.cells = c := tally_eq_of_forall fun i => by
        obtain ⟨b, hb, -⟩ := others i (distance_lt _ _)
        rw [show m.cells.get i = some b from hb, Option.isSome_some]
      have := sound.size_eq
      omega

/-- A new frame is refused by a full table, which stays as it is. -/
theorem Sound.run_insert_full (sound : m.Sound) (absent : m.get? f = none)
    (full : m.size = c) (va : VirtAddr) :
    (insert f va).run m = ⟨.error (.reverseFull c f), m, []⟩ := by
  have ending := probe_ends m f
  generalize h : m.probe f = outcome at ending
  cases ending with
  | @hit i b here same =>
      have held := (sound.get?_eq_none_iff.mp absent) b.address
      exact absurd ⟨i, by rw [← same]; exact here⟩ held
  | @vacant i here _ _ =>
      have room : Cells.occupied m.cells < c := tally_lt (i := i) (by
        rw [show m.cells.get i = none from here, Option.isSome_none])
      have := sound.size_eq
      omega
  | exhausted => exact run_insert_of_exhausted va h

/-- A table holds no more bindings than it has cells. -/
theorem Sound.size_le (sound : m.Sound) : m.size ≤ c := by
  rw [sound.size_eq]
  exact tally_le _

end Highmem.ReverseMap
