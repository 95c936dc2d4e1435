import Highmem.Proofs.Paging.Entry
import Mathlib.Algebra.Ring.Nat

/-!
# Entries as records of fields

Each field begins where the fields before it end, and together they fill the word. An
entry is therefore the same as the numbers in its fields: writing one field is refused
or changes that field only, and writing all of them, into whatever entry, gives the
entry that they were read from.

The frame of a present entry is read back through two shifts that cancel: the frame
field lies where the page-aligned base of the frame has its upper bits.
-/

namespace Highmem.Paging

namespace Field

/-- The fields before a field. -/
def below (f : Field) : List Field := all.takeWhile (· ≠ f)

theorem offset_eq_sum (f : Field) : f.offset = (f.below.map width).sum := by
  cases f <;> decide

theorem exists_of_lt {k : Nat} (hk : k < 64) :
    ∃ f : Field, f.offset ≤ k ∧ k < f.offset + f.width := by
  have fill : ∀ j < 64, ∃ f ∈ all, f.offset ≤ j ∧ j < f.offset + f.width := by decide
  obtain ⟨f, -, inside⟩ := fill k hk
  exact ⟨f, inside⟩

end Field

namespace Entry

variable {e e' : Entry} {f g : Field} {value : Nat}

theorem getLsbD_get (e : Entry) (f : Field) (k : Nat) :
    (e.get f).getLsbD k = (decide (k < f.width) && e.word.getLsbD (f.offset + k)) :=
  BitVec.getLsbD_extractLsb' _ _ _ _

/-- An entry is determined by its fields. -/
theorem ext_get (h : ∀ f, e'.get f = e.get f) : e' = e := by
  apply Entry.ext
  apply BitVec.eq_of_getLsbD_eq
  intro k hk
  obtain ⟨f, lower, upper⟩ := Field.exists_of_lt hk
  have bit := congrArg (·.getLsbD (k - f.offset)) (h f)
  have inside : k - f.offset < f.width := by omega
  simpa only [getLsbD_get, inside, decide_true, Bool.true_and, Nat.add_sub_cancel' lower] using bit

/-- A number is refused exactly if it is too wide for the field. -/
theorem exists_set_error_iff : (∃ o, e.set f value = .error o) ↔ 2 ^ f.width ≤ value := by
  simp only [set_eq_error_iff, Nat.one_shiftLeft, exists_and_left, exists_eq, and_true]

theorem set_eq_ok_iff :
    e.set f value = .ok e' ↔ value < 2 ^ f.width ∧ e' = e.put f (BitVec.ofNat f.width value) := by
  rw [set, Nat.one_shiftLeft]
  by_cases fits : value < 2 ^ f.width
  · rw [if_pos fits, and_iff_right fits, Except.ok.injEq, eq_comm]
  · exact iff_of_false (by rw [if_neg fits]; exact fun h => by cases h) fun h => fits h.1

theorem toNat_get_set (h : e.set f value = .ok e') : (e'.get f).toNat = value := by
  obtain ⟨fits, rfl⟩ := set_eq_ok_iff.mp h
  rw [get_put_self, BitVec.toNat_ofNat, Nat.mod_eq_of_lt fits]

theorem get_set_of_ne (h : e.set f value = .ok e') (apart : g ≠ f) : e'.get g = e.get g := by
  obtain ⟨-, rfl⟩ := set_eq_ok_iff.mp h
  exact get_put_of_ne e _ apart.symm

/-- The mapped frame depends on two fields. -/
theorem frame?_congr (present : e'.get .present = e.get .present)
    (frame : e'.get .frame = e.get .frame) : e'.frame? = e.frame? := by
  have raised : e'.flag .present = e.flag .present := by rw [flag, flag, present]
  simp only [frame?, raised, frame]

theorem frame?_set (h : e.set f value = .ok e') (present : f ≠ .present) (frame : f ≠ .frame) :
    e'.frame? = e.frame? :=
  frame?_congr (get_set_of_ne h present.symm) (get_set_of_ne h frame.symm)

/-- The base of the mapped frame is the frame field, moved up by the page shift. -/
theorem frame?_eq_some_iff {frame : Frame} :
    e.frame? = some frame ↔
      e.get .present = 1 ∧ frame.base.toNat = (e.get .frame).toNat <<< pageShift := by
  have raised : e.flag .present = true ↔ e.get .present = 1 := by
    unfold flag
    generalize e.get .present = bit
    revert bit
    decide
  unfold frame?
  split
  · rename_i present
    rw [Option.some.injEq, Frame.ext_iff, and_iff_right (raised.mp present), Frame.toNat_base,
      Nat.shiftLeft_eq, eq_comm]
    exact (Nat.mul_left_inj (by decide)).symm
  · rename_i absent
    exact iff_of_false (fun h => by cases h) fun h => absent (raised.mpr h.1)

def setAll (e : Entry) (changes : List (Field × Nat)) : Except Overflow Entry :=
  changes.foldlM (fun x change => x.set change.1 change.2) e

/-- The numbers in all fields. -/
def contents (e : Entry) : List (Field × Nat) := Field.all.map fun f => (f, (e.get f).toNat)

theorem setAll_cons_of_ok {changes : List (Field × Nat)} (h : e.set f value = .ok e') :
    e.setAll ((f, value) :: changes) = e'.setAll changes := by
  simp only [setAll, List.foldlM_cons, h]
  rfl

theorem setAll_cons_of_error {changes : List (Field × Nat)} {o : Overflow}
    (h : e.set f value = .error o) : e.setAll ((f, value) :: changes) = .error o := by
  simp only [setAll, List.foldlM_cons, h]
  rfl

/-- Changes to other fields leave a field alone. -/
theorem get_setAll {changes : List (Field × Nat)} (h : e.setAll changes = .ok e')
    (others : ∀ change ∈ changes, g ≠ change.1) : e'.get g = e.get g := by
  induction changes generalizing e with
  | nil =>
      cases h
      rfl
  | cons change rest ih =>
      obtain ⟨f, value⟩ := change
      obtain ⟨here, later⟩ := List.forall_mem_cons.mp others
      cases step : e.set f value with
      | error o =>
          rw [setAll_cons_of_error step] at h
          cases h
      | ok x =>
          rw [setAll_cons_of_ok step] at h
          rw [ih h later, get_set_of_ne step here]

/-- Writing fields of one entry into another makes them equal in these fields. -/
theorem setAll_fields (e : Entry) (fields : List Field) (x : Entry) :
    ∃ x', x.setAll (fields.map fun f => (f, (e.get f).toNat)) = .ok x' ∧
      ∀ g, g ∈ fields ∨ x.get g = e.get g → x'.get g = e.get g := by
  induction fields generalizing x with
  | nil => exact ⟨x, rfl, fun g known => known.resolve_left List.not_mem_nil⟩
  | cons f rest ih =>
      have step : x.set f (e.get f).toNat = .ok (x.put f (e.get f)) := by
        rw [set_eq_ok_iff, BitVec.ofNat_toNat, BitVec.setWidth_eq]
        exact ⟨(e.get f).isLt, rfl⟩
      obtain ⟨x', run, equal⟩ := ih (x.put f (e.get f))
      refine ⟨x', (setAll_cons_of_ok step).trans run, fun g known => equal g ?_⟩
      by_cases same : g = f
      · right
        rw [same, get_put_self]
      · rw [get_put_of_ne x _ (Ne.symm same)]
        exact known.imp_left fun mem => (List.mem_cons.mp mem).resolve_left same

/-- Writing all fields of an entry into any other gives the entry. -/
theorem setAll_contents (x e : Entry) : x.setAll e.contents = .ok e := by
  obtain ⟨x', run, equal⟩ := setAll_fields e Field.all x
  rw [contents, run, ext_get fun g => equal g (Or.inl g.mem_all)]

/-- Every entry is a record of its fields: they lie one after another from the lowest bit
up, a number is refused exactly if it is too wide for its field, and it is read back while
the other fields keep theirs, and so does the mapped frame if neither it nor presence was
written. Writing all fields anew gives the same entry. The leaf of a frame exists if the
frame number has forty bits, and maps that very frame, whatever is written to other fields
than these two. -/
theorem record_of_fields :
    (∀ e : Entry,
      (∀ f k, (e.get f).getLsbD k =
        (decide (k < f.width) && e.word.getLsbD ((f.below.map Field.width).sum + k))) ∧
      (∀ f value,
        ((∃ o, e.set f value = .error o) ↔ 2 ^ f.width ≤ value) ∧
        ∀ e', e.set f value = .ok e' →
          (e'.get f).toNat = value ∧ (∀ g, g ≠ f → e'.get g = e.get g) ∧
            (f ≠ .present → f ≠ .frame → e'.frame? = e.frame?)) ∧
      (∀ x : Entry, x.setAll e.contents = .ok e) ∧
      (∀ e', (∀ f, e'.get f = e.get f) → e' = e) ∧
      ∀ frame, e.frame? = some frame ↔
        e.get .present = 1 ∧ frame.base.toNat = (e.get .frame).toNat <<< pageShift) ∧
    ∀ frame : Frame,
      ((∃ o, leaf frame = .error o) ↔ 2 ^ 40 ≤ frame.number) ∧
      ∀ l, leaf frame = .ok l → l.frame? = some frame ∧
        ∀ changes l', (∀ change ∈ changes, change.1 ≠ Field.present ∧ change.1 ≠ Field.frame) →
          l.setAll changes = .ok l' → l'.frame? = some frame := by
  refine ⟨fun e => ⟨fun f k => ?_, fun f value => ⟨exists_set_error_iff, fun e' h => ?_⟩,
    fun x => setAll_contents x e, fun e' h => ext_get h, fun frame => frame?_eq_some_iff⟩,
    fun frame => ⟨exists_set_error_iff, fun l made => ?_⟩⟩
  · rw [getLsbD_get, Field.offset_eq_sum]
  · exact ⟨toNat_get_set h, fun g => get_set_of_ne h, frame?_set h⟩
  · refine ⟨frame?_of_leaf made, fun changes l' others run => ?_⟩
    rw [← frame?_of_leaf made]
    exact frame?_congr (get_setAll run fun change mem => (others change mem).1.symm)
      (get_setAll run fun change mem => (others change mem).2.symm)

theorem record_of_fields_used :
    ∃ l l' : Entry, leaf (.ofNumber 0x123456) = .ok l ∧ l.word = 0x8000000123456103 ∧
      l.setAll [(.accessed, 1), (.dirty, 1), (.systemHigh, 2047)] = .ok l' ∧
      l'.word = 0xFFF0000123456163 ∧ l'.frame? = some (.ofNumber 0x123456) ∧
      l.set .systemHigh 2048 = .error (.field 11) := by
  have made : leaf (.ofNumber 0x123456) = .ok ⟨0x8000000123456103⟩ := rfl
  have used : setAll ⟨0x8000000123456103⟩ [(.accessed, 1), (.dirty, 1), (.systemHigh, 2047)] =
      .ok ⟨0xFFF0000123456163⟩ := rfl
  have maps := ((record_of_fields.2 _).2 _ made).2 _ _ (by decide) used
  exact ⟨_, _, made, rfl, used, rfl, maps, rfl⟩

end Entry

end Highmem.Paging
