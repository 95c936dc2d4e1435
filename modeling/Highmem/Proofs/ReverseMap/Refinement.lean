import Highmem.Proofs.ReverseMap.Erase
import Mathlib.Data.Finmap

/-!
# Reverse pointers as a finite map

A table of capacity `c` is compared with the finite map from frames to addresses in
which at most `c` frames have an address. Hashing, probing and the closing of gaps
have no part in that map: a sequence of accesses gets the same answers from both,
from the empty table on, and the table is refused a new frame exactly where the
map has reached the capacity.
-/

namespace Highmem

/-- Addresses of frames, without any layout. -/
abbrev AddressMap := Finmap fun _ : Frame => VirtAddr

namespace ReverseMap

variable {c : Nat} {m : ReverseMap c} {t : AddressMap}

/-- One use of a table. -/
inductive Access where
  /-- Set the address of a frame, or clear it. -/
  | assign (f : Frame) (va : Option VirtAddr)
  /-- Ask for the address of a frame. -/
  | read (f : Frame)
  deriving DecidableEq

/-- The answer to an access, and the number of frames with an address after it. -/
abbrev Answer := Except Fault (Option VirtAddr) × Nat

namespace Access

def perform : Access → Op (ReverseMap c) (Option VirtAddr)
  | assign f va => do
    ReverseMap.assign f va
    return none
  | read f => do
    let m ← get
    return m.get? f

/-- An access of a finite map in which `capacity` frames may have an address. -/
def performOn (capacity : Nat) (t : AddressMap) :
    Access → Except Fault (Option VirtAddr) × AddressMap
  | assign f (some va) =>
    if f ∈ t ∨ t.keys.card < capacity then (.ok none, t.insert f va)
    else (.error (.reverseFull capacity f), t)
  | assign f none => (.ok none, t.erase f)
  | read f => (.ok (t.lookup f), t)

/-- Accesses of a table, in turn. An access that faults does not end the sequence. -/
def performAll (m : ReverseMap c) : List Access → List Answer × ReverseMap c
  | [] => ([], m)
  | a :: rest =>
    let o := a.perform.run m
    let later := performAll o.state rest
    ((o.result, o.state.size) :: later.1, later.2)

def performAllOn (capacity : Nat) (t : AddressMap) : List Access → List Answer × AddressMap
  | [] => ([], t)
  | a :: rest =>
    let o := a.performOn capacity t
    let later := performAllOn capacity o.2 rest
    ((o.1, o.2.keys.card) :: later.1, later.2)

end Access

/-- A sound table with the addresses of a finite map. -/
structure Represents (m : ReverseMap c) (t : AddressMap) : Prop where
  sound : m.Sound
  get?_eq : ∀ f, m.get? f = t.lookup f
  size_eq : m.size = t.keys.card

namespace Represents

variable (represents : m.Represents t)

include represents

theorem mem_iff {f : Frame} : f ∈ t ↔ m.get? f ≠ none := by
  rw [represents.get?_eq, ne_eq, Finmap.lookup_eq_none, not_not]

theorem insert {m' : ReverseMap c} {f : Frame} {va : VirtAddr} (inserted : Inserted m f va m') :
    m'.Represents (t.insert f va) := by
  refine ⟨inserted.sound, fun g => ?_, ?_⟩
  · by_cases same : g = f
    · rw [same, inserted.get?_self, Finmap.lookup_insert]
    · rw [inserted.get?_of_ne same, Finmap.lookup_insert_of_ne _ same, represents.get?_eq]
  · have keys : (t.insert f va).keys = Insert.insert f t.keys := by
      ext g
      rw [Finmap.mem_keys, Finmap.mem_insert, Finset.mem_insert, Finmap.mem_keys]
    rw [inserted.size_eq, keys, represents.size_eq]
    by_cases present : f ∈ t
    · rw [Finset.insert_eq_of_mem (Finmap.mem_keys.mpr present),
        if_pos (Option.isSome_iff_ne_none.mpr (represents.mem_iff.mp present))]
    · have absent : m.get? f = none := not_not.mp (mt represents.mem_iff.mpr present)
      rw [Finset.card_insert_of_notMem (mt Finmap.mem_keys.mp present), absent]
      rfl

theorem erase (f : Frame) : (m.erase f).Represents (t.erase f) := by
  have erased := represents.sound.erased f
  refine ⟨erased.sound, fun g => ?_, ?_⟩
  · by_cases same : g = f
    · rw [same, erased.get?_self, Finmap.lookup_erase]
    · rw [erased.get?_of_ne same, Finmap.lookup_erase_ne same, represents.get?_eq]
  · rw [erased.size_eq, Finmap.keys_erase, represents.size_eq]
    by_cases present : f ∈ t
    · rw [Finset.card_erase_of_mem (Finmap.mem_keys.mpr present),
        if_pos (Option.isSome_iff_ne_none.mpr (represents.mem_iff.mp present))]
    · have absent : m.get? f = none := not_not.mp (mt represents.mem_iff.mpr present)
      rw [Finset.erase_eq_of_notMem (mt Finmap.mem_keys.mp present), absent]
      rfl

/-- One access gets the same answer from both. -/
theorem perform (a : Access) :
    (a.perform.run m).result = (a.performOn c t).1 ∧
      (a.perform.run m).state.Represents (a.performOn c t).2 := by
  cases a with
  | read f => exact ⟨congrArg Except.ok (represents.get?_eq f), represents⟩
  | assign f va =>
      cases va with
      | none => exact ⟨rfl, represents.erase f⟩
      | some va =>
          have shape : (Access.assign f (some va)).perform.run m =
              ((ReverseMap.insert f va >>= fun _ => pure none : Op _ _).run m) := rfl
          rw [shape]
          by_cases room : f ∈ t ∨ t.keys.card < c
          · have accepted : ∃ m', (ReverseMap.insert f va).run m = ⟨.ok (), m', []⟩ ∧
                Inserted m f va m' := by
              by_cases present : f ∈ t
              · exact represents.sound.run_insert_present (represents.mem_iff.mp present) va
              · have absent := not_not.mp (mt represents.mem_iff.mpr present)
                refine represents.sound.run_insert_absent absent ?_ va
                rw [represents.size_eq]
                exact room.resolve_left present
            obtain ⟨m', run, inserted⟩ := accepted
            rw [Access.performOn, if_pos room, Op.run_bind_ok run]
            exact ⟨rfl, represents.insert inserted⟩
          · have absent : m.get? f = none :=
              not_not.mp (mt represents.mem_iff.mpr (mt Or.inl room))
            have full : m.size = c := by
              refine Nat.le_antisymm represents.sound.size_le ?_
              rw [represents.size_eq]
              exact Nat.le_of_not_lt (mt Or.inr room)
            rw [Access.performOn, if_neg room,
              Op.run_bind_error (represents.sound.run_insert_full absent full va)]
            exact ⟨rfl, represents⟩

/-- All accesses of a sequence get the same answers from both. -/
theorem performAll (accesses : List Access) :
    (Access.performAll m accesses).1 = (Access.performAllOn c t accesses).1 ∧
      (Access.performAll m accesses).2.Represents (Access.performAllOn c t accesses).2 := by
  induction accesses generalizing m t with
  | nil => exact ⟨rfl, represents⟩
  | cons a rest ih =>
      obtain ⟨answer, after⟩ := represents.perform a
      obtain ⟨answers, last⟩ := ih after
      refine ⟨?_, last⟩
      simp only [Access.performAll, Access.performAllOn, answer, answers, after.size_eq]

end Represents

theorem represents_empty (pos : 0 < c) : (empty pos).Represents ∅ := by
  refine ⟨sound_empty pos, fun f => ?_, ?_⟩
  · rw [get?_empty, Finmap.lookup_empty]
  · rw [Finmap.keys_empty, Finset.card_empty]
    rfl

/-- A set is refused exactly if it names a new frame while `c` frames have an
address, and it is accepted otherwise. -/
theorem Represents.assign_refused_iff (represents : m.Represents t) (f : Frame) (va : VirtAddr) :
    ((assign f (some va)).run m).result = .error (.reverseFull c f) ↔
      f ∉ t ∧ t.keys.card = c := by
  have answer := (represents.perform (.assign f (some va))).1
  have bound : t.keys.card ≤ c := represents.size_eq ▸ represents.sound.size_le
  have same : ((Access.assign f (some va)).perform.run m).result =
      ((assign f (some va)).run m).result.map fun _ => none := by
    change ((assign f (some va) >>= fun _ => pure none : Op _ _).run m).result = _
    rw [Op.run_bind]
    rcases (assign f (some va)).run m with ⟨_ | _, _, _⟩ <;> rfl
  rw [same, Access.performOn] at answer
  by_cases room : f ∈ t ∨ t.keys.card < c
  · rw [if_pos room] at answer
    constructor
    · intro refused
      rw [refused] at answer
      cases answer
    · rintro ⟨absent, full⟩
      have := room.resolve_left absent
      omega
  · rw [if_neg room] at answer
    obtain ⟨absent, full⟩ := not_or.mp room
    refine ⟨fun _ => ⟨absent, by omega⟩, fun _ => ?_⟩
    generalize ((assign f (some va)).run m).result = result at answer ⊢
    cases result with
    | ok => cases answer
    | error cause => exact congrArg Except.error (Except.error.inj answer)

/-- The only fault of a set is the refusal, which leaves the very table that it
found. A clear has none. -/
theorem assign_fault {f : Frame} {va : Option VirtAddr} {cause : Fault}
    (refused : ((assign f va).run m).result = .error cause) :
    cause = .reverseFull c f ∧ ((assign f va).run m).state = m := by
  cases va with
  | none => cases refused
  | some va =>
      change ((insert f va).run m).result = _ at refused
      change cause = _ ∧ ((insert f va).run m).state = m
      cases h : m.probe f with
      | hit i =>
          rw [run_insert_of_hit va h] at refused
          cases refused
      | vacant i =>
          rw [run_insert_of_vacant va h] at refused
          cases refused
      | exhausted =>
          rw [run_insert_of_exhausted va h] at refused ⊢
          exact ⟨(Except.error.inj refused).symm, rfl⟩

/-- From the empty table on, every sequence of sets, clears and reads gets the
answers of the finite map in which `c` frames may have an address: each result, and
the number of frames after each access. The table then has the addresses of that
map, a set of a new frame is refused exactly if `c` frames have one, and neither a
refused set nor the clearing of an absent frame changes the table. -/
theorem performAll_empty (pos : 0 < c) (accesses : List Access) :
    let table := Access.performAll (empty pos) accesses
    let map := Access.performAllOn c ∅ accesses
    table.1 = map.1 ∧ (∀ f, table.2.get? f = map.2.lookup f) ∧
      table.2.size = map.2.keys.card ∧
      (∀ f va, ((assign f (some va)).run table.2).result = .error (.reverseFull c f) ↔
        f ∉ map.2 ∧ map.2.keys.card = c) ∧
      (∀ f va cause, ((assign f va).run table.2).result = .error cause →
        cause = .reverseFull c f ∧ ((assign f va).run table.2).state = table.2) ∧
      ∀ f, f ∉ map.2 → ((assign f none).run table.2).state = table.2 := by
  intro table map
  obtain ⟨answers, last⟩ := (represents_empty pos).performAll accesses
  refine ⟨answers, last.get?_eq, last.size_eq, last.assign_refused_iff,
    fun f va cause => assign_fault, fun f absent => ?_⟩
  exact last.sound.erase_absent (not_not.mp (mt last.mem_iff.mpr absent))

theorem performAll_empty_full :
    0 < 2 ∧
      (Access.performAll (empty (show 0 < 2 by decide))
        [.assign (.ofNumber 1) (some ⟨0x1000, by decide⟩),
          .assign (.ofNumber 2) (some ⟨0x2000, by decide⟩),
          .assign (.ofNumber 3) (some ⟨0x3000, by decide⟩), .assign (.ofNumber 1) none,
          .read (.ofNumber 1), .read (.ofNumber 2)]).1 =
        [(.ok none, 1), (.ok none, 2), (.error (.reverseFull 2 (.ofNumber 3)), 2), (.ok none, 1),
          (.ok none, 1), (.ok (some ⟨0x2000, by decide⟩), 1)] :=
  ⟨by decide, (performAll_empty (by decide) _).1.trans rfl⟩

end ReverseMap

end Highmem
