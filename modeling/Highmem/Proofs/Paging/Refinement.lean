import Highmem.Proofs.Paging.LeafTable
import Highmem.Proofs.Tally
import Mathlib.Data.Finmap

/-!
# The leaf table as a finite map

A leaf table is compared with the finite map from page numbers to frames that has pages
of one window only. Positions of entries and the bits of an entry have no part in that
map: a sequence of accesses at whatever addresses gets the same answers from both, from
the empty table on, the faults included.
-/

namespace Highmem

def VirtAddr.pageNumber (a : VirtAddr) : Nat := a.toNat / pageSize

namespace Paging

/-- Frames of pages, without any layout. -/
abbrev PageMap := Finmap fun _ : Nat => Frame

/-- Whether an address lies in the window of a leaf table that begins at `base`. -/
def Covers (base va : VirtAddr) : Prop :=
  base.toNat ≤ va.toNat ∧ va.toNat < base.toNat + tableSpan

instance (base va : VirtAddr) : Decidable (Covers base va) :=
  inferInstanceAs (Decidable (_ ∧ _))

namespace LeafTable

variable {t : LeafTable} {m : PageMap} {va : VirtAddr} {i j : Fin tableEntries} {frame : Frame}

/-- Number of the page that an entry maps. -/
def pageOf (t : LeafTable) (i : Fin tableEntries) : Nat := t.base.pageNumber + i

theorem pageOf_injective (h : t.pageOf i = t.pageOf j) : i = j :=
  Fin.ext (Nat.add_left_cancel h)

theorem indexOf?_eq_some_iff_pageOf : t.indexOf? va = some i ↔ va.pageNumber = t.pageOf i := by
  have aligned := t.page_aligned
  rw [indexOf?_eq_some_iff]
  simp only [pageOf, VirtAddr.pageNumber, pageSize] at *
  omega

theorem covers_iff : Covers t.base va ↔ ∃ i, t.indexOf? va = some i := by
  have aligned := t.page_aligned
  simp only [indexOf?_eq_some_iff, Covers, tableSpan]
  constructor
  · rintro ⟨below, above⟩
    exact ⟨⟨(va.toNat - t.base.toNat) / pageSize,
      Nat.div_lt_of_lt_mul (by rw [Nat.mul_comm]; omega)⟩, below, rfl⟩
  · rintro ⟨i, below, position⟩
    have := i.isLt
    simp only [tableEntries, pageSize] at *
    omega

theorem indexOf?_eq_none_iff : t.indexOf? va = none ↔ ¬ Covers t.base va := by
  rw [covers_iff, Option.eq_none_iff_forall_ne_some, not_exists]

/-- Writing an entry leaves the other pages alone. -/
theorem lookup_write_of_ne (e : Entry) (apart : va.pageNumber ≠ t.pageOf i) :
    (t.write i e).lookup va = t.lookup va := by
  cases position : t.indexOf? va with
  | none =>
      rw [lookup_outside position]
      exact lookup_outside position
  | some j =>
      have other : i ≠ j := fun same => apart (same ▸ indexOf?_eq_some_iff_pageOf.mp position)
      have after : (t.write i e).lookup va = .ok ((t.write i e).entry j).frame? := lookup_eq position
      rw [after, lookup_eq position, entry_write_of_ne t e other]

/-- One use of a table. -/
inductive Access where
  /-- Map the page of an address. -/
  | commit (va : VirtAddr) (frame : Frame)
  /-- Clear the entry of an address. -/
  | clear (va : VirtAddr)
  /-- Ask for the frame of an address. -/
  | lookup (va : VirtAddr)
  deriving DecidableEq

/-- The answer to an access, and the number of mapped pages after it. -/
abbrev Answer := Except Fault (Option Frame) × Nat

namespace Access

def address : Access → VirtAddr
  | commit va _ => va
  | clear va => va
  | lookup va => va

def perform : Access → Op LeafTable (Option Frame)
  | commit va frame => do
    LeafTable.commit va frame
    return none
  | clear va => LeafTable.clear va
  | lookup va => do
    let t ← get
    t.lookup va

/-- An access of the finite map for the window that begins at `base`. -/
def performOn (base : VirtAddr) (m : PageMap) : Access → Except Fault (Option Frame) × PageMap
  | commit va frame =>
    if ¬ Covers base va then (.error (.outsideTable va base), m)
    else if va.pageNumber ∈ m then (.error (.alreadyMapped va), m)
    else if 2 ^ 40 ≤ frame.number then (.error (.overflow (.field 40)), m)
    else (.ok none, m.insert va.pageNumber frame)
  | clear va =>
    if ¬ Covers base va then (.error (.outsideTable va base), m)
    else (.ok (m.lookup va.pageNumber), m.erase va.pageNumber)
  | lookup va =>
    if ¬ Covers base va then (.error (.outsideTable va base), m)
    else (.ok (m.lookup va.pageNumber), m)

/-- Accesses of a table, in turn. An access that faults does not end the sequence. -/
def performAll (t : LeafTable) : List Access → List Answer × LeafTable
  | [] => ([], t)
  | a :: rest =>
    let o := a.perform.run t
    let later := performAll o.state rest
    ((o.result, o.state.presentCount) :: later.1, later.2)

def performAllOn (base : VirtAddr) (m : PageMap) : List Access → List Answer × PageMap
  | [] => ([], m)
  | a :: rest =>
    let o := a.performOn base m
    let later := performAllOn base o.2 rest
    ((o.1, o.2.keys.card) :: later.1, later.2)

end Access

theorem run_perform_lookup (t : LeafTable) (va : VirtAddr) :
    (Access.lookup va).perform.run t = ⟨t.lookup va, t, []⟩ := by
  simp [Access.perform]

theorem run_perform_commit_ok {t' : LeafTable} {es : List Event}
    (run : (commit va frame).run t = ⟨.ok (), t', es⟩) :
    (Access.commit va frame).perform.run t = ⟨.ok none, t', es⟩ := by
  simp [Access.perform, run, Except.map]

theorem run_perform_commit_error {t' : LeafTable} {es : List Event} {cause : Fault}
    (run : (commit va frame).run t = ⟨.error cause, t', es⟩) :
    (Access.commit va frame).perform.run t = ⟨.error cause, t', es⟩ := by
  simp [Access.perform, run, Except.map]

/-- A table that maps the pages of a finite map. -/
structure Represents (t : LeafTable) (m : PageMap) : Prop where
  frame?_eq : ∀ i, (t.entry i).frame? = m.lookup (t.pageOf i)
  covered : ∀ page ∈ m, ∃ i, t.pageOf i = page

namespace Represents

variable (represents : t.Represents m)

include represents

theorem lookup_eq (inside : Covers t.base va) : t.lookup va = .ok (m.lookup va.pageNumber) := by
  obtain ⟨i, position⟩ := covers_iff.mp inside
  rw [LeafTable.lookup_eq position, represents.frame?_eq, indexOf?_eq_some_iff_pageOf.mp position]

/-- As many entries are present as pages have a frame. -/
theorem presentCount_eq : t.presentCount = m.keys.card := by
  let page : Fin tableEntries → Option Nat := fun i => (t.entry i).frame?.map fun _ => t.pageOf i
  have once : ∀ i j a, page i = some a → page j = some a → i = j := by
    intro i j a here there
    obtain ⟨-, -, rfl⟩ := Option.map_eq_some_iff.mp here
    obtain ⟨-, -, same⟩ := Option.map_eq_some_iff.mp there
    exact pageOf_injective same.symm
  have pages : values page = m.keys := by
    ext a
    rw [mem_values, Finmap.mem_keys]
    constructor
    · rintro ⟨i, here⟩
      obtain ⟨f, maps, rfl⟩ := Option.map_eq_some_iff.mp here
      rw [represents.frame?_eq] at maps
      exact Finmap.mem_of_lookup_eq_some maps
    · intro mem
      obtain ⟨i, rfl⟩ := represents.covered a mem
      obtain ⟨f, maps⟩ := Finmap.mem_iff.mp mem
      exact ⟨i, Option.map_eq_some_iff.mpr ⟨f, (represents.frame?_eq i).trans maps, rfl⟩⟩
  rw [← pages, card_values once, presentCount, countP_toList]
  refine tally_congr fun i => ?_
  change (t.entry i).flag .present = _
  rw [Option.isSome_map, Entry.frame?]
  split <;> simp_all

theorem write (i : Fin tableEntries) {e : Entry} {m' : PageMap}
    (here : e.frame? = m'.lookup (t.pageOf i))
    (others : ∀ page, page ≠ t.pageOf i → m'.lookup page = m.lookup page) :
    (t.write i e).Represents m' := by
  refine ⟨fun j => ?_, fun page mem => ?_⟩
  · by_cases same : i = j
    · rw [← same, entry_write_self]
      exact here
    · rw [entry_write_of_ne t e same, represents.frame?_eq]
      exact (others _ fun eq => same (pageOf_injective eq).symm).symm
  · by_cases same : page = t.pageOf i
    · exact ⟨i, same.symm⟩
    · obtain ⟨f, maps⟩ := Finmap.mem_iff.mp mem
      rw [others page same] at maps
      exact represents.covered page (Finmap.mem_of_lookup_eq_some maps)

theorem mem_iff (i : Fin tableEntries) : t.pageOf i ∈ m ↔ (t.entry i).frame? ≠ none := by
  rw [represents.frame?_eq, ne_eq, Finmap.lookup_eq_none, not_not]

end Represents

/-- An access of a table gets the answer of the map, and they agree again after it. -/
structure Agrees (t : LeafTable) (m : PageMap) (a : Access) : Prop where
  result_eq : (a.perform.run t).result = (a.performOn t.base m).1
  represents : (a.perform.run t).state.Represents (a.performOn t.base m).2
  base_eq : (a.perform.run t).state.base = t.base

namespace Agrees

variable {a : Access} {m' : PageMap} {answer : Except Fault (Option Frame)} {es : List Event}

theorem of_runs {t' : LeafTable} (run : a.perform.run t = ⟨answer, t', es⟩)
    (runOn : a.performOn t.base m = (answer, m')) (after : t'.Represents m')
    (base : t'.base = t.base) : Agrees t m a := by
  refine ⟨?_, ?_, ?_⟩
  · rw [run, runOn]
  · rw [run, runOn]
    exact after
  · rw [run]
    exact base

end Agrees

namespace Represents

variable (represents : t.Represents m)

include represents

theorem lookup (va : VirtAddr) : Agrees t m (.lookup va) := by
  by_cases inside : Covers t.base va
  · have answer := run_perform_lookup t va
    rw [represents.lookup_eq inside] at answer
    exact .of_runs answer (if_neg (not_not.mpr inside)) represents rfl
  · have answer := run_perform_lookup t va
    rw [lookup_outside (indexOf?_eq_none_iff.mpr inside)] at answer
    exact .of_runs answer (if_pos inside) represents rfl

theorem clear (va : VirtAddr) : Agrees t m (.clear va) := by
  by_cases inside : Covers t.base va
  · obtain ⟨i, position⟩ := covers_iff.mp inside
    have page := indexOf?_eq_some_iff_pageOf.mp position
    have answer := run_clear position
    rw [represents.frame?_eq, ← page] at answer
    refine .of_runs answer (if_neg (not_not.mpr inside)) (represents.write i ?_ ?_) rfl
    · rw [Entry.frame?_zero, page, Finmap.lookup_erase]
    · intro other apart
      rw [page]
      exact Finmap.lookup_erase_ne apart
  · exact .of_runs (run_clear_outside (indexOf?_eq_none_iff.mpr inside)) (if_pos inside)
      represents rfl

theorem commit (va : VirtAddr) (frame : Frame) : Agrees t m (.commit va frame) := by
  by_cases inside : Covers t.base va
  · obtain ⟨i, position⟩ := covers_iff.mp inside
    have page := indexOf?_eq_some_iff_pageOf.mp position
    have known : va.pageNumber ∈ m ↔ (t.entry i).frame? ≠ none := page ▸ represents.mem_iff i
    have runOn : (Access.commit va frame).performOn t.base m = _ := if_neg (not_not.mpr inside)
    by_cases mapped : va.pageNumber ∈ m
    · rw [if_pos mapped] at runOn
      have run : (Access.commit va frame).perform.run t = _ :=
        run_perform_commit_error (run_commit_mapped position (known.mp mapped))
      exact .of_runs run runOn represents rfl
    · have vacant := not_not.mp (mt known.mpr mapped)
      rw [if_neg mapped] at runOn
      by_cases wide : 2 ^ 40 ≤ frame.number
      · rw [if_pos wide] at runOn
        have run := run_perform_commit_error (run_commit_too_wide position vacant wide)
        exact .of_runs run runOn represents rfl
      · rw [if_neg wide] at runOn
        obtain ⟨e, leaf⟩ := Entry.exists_leaf (Nat.lt_of_not_le wide)
        have run := run_perform_commit_ok (run_commit position vacant leaf)
        refine .of_runs run runOn (represents.write i ?_ ?_) rfl
        · rw [Entry.frame?_of_leaf leaf, page, Finmap.lookup_insert]
        · intro other apart
          rw [page]
          exact Finmap.lookup_insert_of_ne m apart
  · have run : (Access.commit va frame).perform.run t = _ :=
      run_perform_commit_error (run_commit_outside (indexOf?_eq_none_iff.mpr inside))
    exact .of_runs run (if_pos inside) represents rfl

/-- Each access gets the same answer from both. -/
theorem perform (a : Access) : Agrees t m a := by
  cases a with
  | lookup va => exact represents.lookup va
  | clear va => exact represents.clear va
  | commit va frame => exact represents.commit va frame

/-- All accesses of a sequence get the same answers from both. -/
theorem performAll (accesses : List Access) :
    (Access.performAll t accesses).1 = (Access.performAllOn t.base m accesses).1 ∧
      (Access.performAll t accesses).2.Represents (Access.performAllOn t.base m accesses).2 ∧
      (Access.performAll t accesses).2.base = t.base := by
  induction accesses generalizing t m with
  | nil => exact ⟨rfl, represents, rfl⟩
  | cons a rest ih =>
      obtain ⟨answer, after, base⟩ := represents.perform a
      obtain ⟨answers, last, lastBase⟩ := ih after
      rw [base] at answers last lastBase
      refine ⟨?_, last, lastBase⟩
      simp only [Access.performAll, Access.performAllOn, answer, answers, after.presentCount_eq]

end Represents

/-- An access leaves the table, or it succeeds and writes the entry of its page. -/
theorem perform_cases (t : LeafTable) (a : Access) :
    (a.perform.run t).state = t ∨
      ∃ answer i e es, a.address.pageNumber = t.pageOf i ∧
        a.perform.run t = ⟨.ok answer, t.write i e, es⟩ := by
  cases a with
  | lookup va => exact Or.inl (congrArg Outcome.state (run_perform_lookup t va))
  | clear va =>
      cases position : t.indexOf? va with
      | none => exact Or.inl (congrArg Outcome.state (run_clear_outside position))
      | some i =>
          exact Or.inr ⟨_, i, _, _, indexOf?_eq_some_iff_pageOf.mp position, run_clear position⟩
  | commit va frame =>
      rcases run_commit_cases t va frame with ⟨i, e, position, -, -, run⟩ | ⟨cause, run, -⟩
      · exact Or.inr ⟨_, i, _, _, indexOf?_eq_some_iff_pageOf.mp position,
          run_perform_commit_ok run⟩
      · exact Or.inl (congrArg Outcome.state (run_perform_commit_error run))

theorem state_of_fault {a : Access} {cause : Fault}
    (fault : (a.perform.run t).result = .error cause) : (a.perform.run t).state = t := by
  refine (perform_cases t a).resolve_right ?_
  rintro ⟨answer, i, e, es, -, run⟩
  rw [run] at fault
  cases fault

theorem lookup_perform_of_ne {a : Access} (apart : va.pageNumber ≠ a.address.pageNumber) :
    (a.perform.run t).state.lookup va = t.lookup va := by
  rcases perform_cases t a with same | ⟨answer, i, e, es, page, run⟩
  · rw [same]
  · rw [run]
    exact lookup_write_of_ne e (page ▸ apart)

/-- Which accesses of a map fault. -/
theorem Access.performOn_error_iff {base : VirtAddr} {a : Access} :
    (∃ cause, (a.performOn base m).1 = .error cause) ↔
      ¬ Covers base a.address ∨
        ∃ va frame, a = .commit va frame ∧ (va.pageNumber ∈ m ∨ 2 ^ 40 ≤ frame.number) := by
  cases a with
  | lookup va => simp only [performOn, address]; split <;> simp_all
  | clear va => simp only [performOn, address]; split <;> simp_all
  | commit va frame =>
      simp only [performOn, address, commit.injEq]
      split
      · simp_all
      · split
        · simp_all
        · split <;> simp_all

theorem represents_create {base : VirtAddr} (created : create base = .ok t) :
    t.Represents ∅ := by
  refine ⟨fun i => ?_, fun page mem => absurd mem Finmap.notMem_empty⟩
  rw [(empty_of_create created).1 i, Entry.frame?_zero, Finmap.lookup_empty]

/-- From the empty table of an aligned window on, every sequence of accesses gets the
answers of the finite map: each result, and the number of mapped pages after each access.
The table then answers from that map wherever it covers an address. Programming faults
exactly outside the window, for a page that is mapped and for a frame number beyond forty
bits, clearing and reading exactly outside the window; an access that faults leaves the
table, and one that does not leaves the other pages. -/
theorem performAll_create (base : VirtAddr) (aligned : base.toNat % tableSpan = 0) :
    ∃ t, create base = .ok t ∧ ∀ accesses,
      let table := (Access.performAll t accesses).2
      let map := (Access.performAllOn base ∅ accesses).2
      (Access.performAll t accesses).1 = (Access.performAllOn base ∅ accesses).1 ∧
        (∀ va, Covers base va → table.lookup va = .ok (map.lookup va.pageNumber)) ∧
        table.presentCount = map.keys.card ∧
        (∀ a : Access, (∃ cause, (a.perform.run table).result = .error cause) ↔
          ¬ Covers base a.address ∨
            ∃ va frame, a = .commit va frame ∧ (va.pageNumber ∈ map ∨ 2 ^ 40 ≤ frame.number)) ∧
        (∀ (a : Access) (cause : Fault), (a.perform.run table).result = .error cause →
          (a.perform.run table).state = table) ∧
        ∀ (a : Access) (va : VirtAddr), va.pageNumber ≠ a.address.pageNumber →
          (a.perform.run table).state.lookup va = table.lookup va := by
  obtain ⟨t, created⟩ : ∃ t, create base = .ok t := ⟨_, dif_pos aligned⟩
  refine ⟨t, created, fun accesses => ?_⟩
  obtain ⟨answers, last, lastBase⟩ := (represents_create created).performAll accesses
  rw [base_of_create created] at answers last lastBase
  refine ⟨answers, fun va inside => last.lookup_eq (lastBase ▸ inside), last.presentCount_eq,
    fun a => ?_, fun a cause => state_of_fault, fun a va => lookup_perform_of_ne⟩
  rw [(last.perform a).result_eq, lastBase]
  exact Access.performOn_error_iff

theorem performAll_create_topmost :
    0xFFFFFFFFFFE00000 % tableSpan = 0 ∧ ∃ t, create ⟨0xFFFFFFFFFFE00000, by decide⟩ = .ok t ∧
      (Access.performAll t
        [.commit ⟨0xFFFFFFFFFFFFFFFF, by decide⟩ (.ofNumber 7),
          .lookup ⟨0xFFFFFFFFFFFFF000, by decide⟩,
          .commit ⟨0xFFFFFFFFFFFFF123, by decide⟩ (.ofNumber 8),
          .commit ⟨0xFFFFFFFFFFE00000, by decide⟩ (.ofNumber 0x10000000000),
          .clear .zero, .clear ⟨0xFFFFFFFFFFFFF001, by decide⟩]).1 =
        [(.ok none, 1), (.ok (some (.ofNumber 7)), 1),
          (.error (.alreadyMapped ⟨0xFFFFFFFFFFFFF123, by decide⟩), 1),
          (.error (.overflow (.field 40)), 1),
          (.error (.outsideTable .zero ⟨0xFFFFFFFFFFE00000, by decide⟩), 1),
          (.ok (some (.ofNumber 7)), 0)] := by
  have aligned : 0xFFFFFFFFFFE00000 % tableSpan = 0 := by decide
  obtain ⟨t, created, answers⟩ := performAll_create ⟨0xFFFFFFFFFFE00000, by decide⟩ aligned
  exact ⟨aligned, t, created, (answers _).1.trans rfl⟩

end LeafTable

end Paging

end Highmem
