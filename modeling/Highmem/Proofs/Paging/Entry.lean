import Highmem.Paging.Entry

/-!
# Fields of a page-table entry

The fields do not overlap, so writing one leaves the others alone. An entry that
was made for a frame maps that very frame, and there is one for each frame whose
number has at most forty bits.
-/

namespace Highmem.Paging

theorem Field.apart {f g : Field} (h : f ≠ g) :
    f.offset + f.width ≤ g.offset ∨ g.offset + g.width ≤ f.offset := by
  cases f <;> cases g <;> first | exact absurd rfl h | decide

namespace Entry

theorem getLsbD_put (e : Entry) (f : Field) (bits : BitVec f.width) (k : Nat) :
    (e.put f bits).word.getLsbD k =
      if f.offset ≤ k ∧ k < f.offset + f.width then bits.getLsbD (k - f.offset)
      else e.word.getLsbD k := by
  have bound := f.offset_add_width_le
  simp only [put, BitVec.getLsbD_or, BitVec.getLsbD_and, BitVec.getLsbD_not,
    BitVec.getLsbD_shiftLeft, BitVec.getLsbD_setWidth, BitVec.getLsbD_allOnes]
  by_cases lower : f.offset ≤ k
  · by_cases upper : k < f.offset + f.width
    · have hk : k < 64 := by omega
      have inside : k - f.offset < f.width := by omega
      have word : k - f.offset < 64 := by omega
      simp [lower, upper, hk, inside, word, Nat.not_lt.mpr lower]
    · have outside : ¬ k - f.offset < f.width := by omega
      have high : bits.getLsbD (k - f.offset) = false := BitVec.getLsbD_of_ge _ _ (by omega)
      by_cases hk : k < 64
      · simp [upper, hk, outside, high]
      · simp [upper, hk, outside, BitVec.getLsbD_of_ge e.word k (by omega)]
  · by_cases hk : k < 64
    · simp [lower, hk, Nat.not_le.mp lower]
    · omega

@[simp] theorem get_put_self (e : Entry) (f : Field) (bits : BitVec f.width) :
    (e.put f bits).get f = bits := by
  apply BitVec.eq_of_getLsbD_eq
  intro k hk
  rw [get, BitVec.getLsbD_extractLsb', getLsbD_put, if_pos (by omega), Nat.add_sub_cancel_left]
  simp [hk]

theorem get_put_of_ne (e : Entry) {f g : Field} (bits : BitVec f.width) (h : f ≠ g) :
    (e.put f bits).get g = e.get g := by
  apply BitVec.eq_of_getLsbD_eq
  intro k hk
  have apart := Field.apart h
  rw [get, get, BitVec.getLsbD_extractLsb', BitVec.getLsbD_extractLsb', getLsbD_put,
    if_neg (by omega)]

@[simp] theorem frame?_zero : zero.frame? = none := by decide

theorem isNone_iff {e : Entry} : e.isNone = true ↔ e.frame? = none := by
  unfold isNone frame?
  split <;> simp_all

/-- An entry has room for forty bits of a frame number. -/
theorem number_lt_of_frame? {e : Entry} {f : Frame} (maps : e.frame? = some f) :
    f.number < 1 <<< 40 := by
  unfold frame? at maps
  split at maps
  · cases maps
    exact (e.get .frame).isLt
  · cases maps

/-- The entry made for a frame maps that frame. -/
theorem frame?_of_leaf {frame : Frame} {e : Entry} (h : leaf frame = .ok e) :
    e.frame? = some frame := by
  unfold leaf set at h
  split at h
  · rename_i fits
    cases h
    have raised : (kernelData.put .frame (BitVec.ofNat _ frame.number)).flag .present = true := by
      rw [flag, get_put_of_ne _ _ (by decide)]
      decide
    rw [frame?, if_pos raised, Option.some.injEq, Frame.ext_iff]
    dsimp only
    rw [get_put_self, BitVec.toNat_ofNat]
    exact Nat.mod_eq_of_lt fits
  · cases h

/-- There is an entry for each frame number that fits forty bits. -/
theorem exists_leaf {frame : Frame} (fits : frame.number < 1 <<< 40) :
    ∃ e, leaf frame = .ok e :=
  ⟨_, if_pos fits⟩

theorem leaf_too_wide {frame : Frame} (wide : 1 <<< 40 ≤ frame.number) :
    leaf frame = .error (.field 40) :=
  leaf_eq_error_iff.mpr ⟨wide, rfl⟩

end Entry

end Highmem.Paging
