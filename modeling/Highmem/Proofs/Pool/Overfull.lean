import Highmem.Proofs.Contract
import Highmem.Proofs.Pool.Bind
import Highmem.Proofs.Pool.Intact
import Highmem.Proofs.Pool.Verdict

/-!
# What a request leaves behind

A request of an intact pool may fail for many causes: the entry of its slot may be missing,
the frame number too wide, an address out of reach, a counter exhausted, or the reverse map
full. All but the last leave an intact pool in which at most some stale slots have been
turned free. The last is found out when the entry has been programmed and the slot is held
already; it leaves the slot so, without a reverse pointer. It can happen only where the
reverse map has room for fewer frames than there are slots.
-/

namespace Highmem.Pool

open Paging

variable {n c : Nat} {p q r : Pool n c} {nr : Fin n} {f : Frame}

/-- Some stale slots of a pool have been turned free, and the tables still agree. -/
structure Tidied (p q : Pool n c) : Prop where
  intact : q.Intact
  slot_eq : ∀ nr, q.slot nr = p.slot nr ∨ q.slot nr = (p.slot nr).swept

namespace Tidied

theorem refl (intact : p.Intact) : p.Tidied p := ⟨intact, fun _ => Or.inl rfl⟩

theorem trans (first : p.Tidied q) (second : q.Tidied r) : p.Tidied r := by
  refine ⟨second.intact, fun nr => ?_⟩
  have twice : (p.slot nr).swept.swept = (p.slot nr).swept := by cases p.slot nr <;> rfl
  rcases first.slot_eq nr with same | swept
  · rw [← same]
    exact second.slot_eq nr
  · have later := second.slot_eq nr
    rw [swept, twice, or_self] at later
    exact Or.inr later

theorem of_sameBindings (tidied : p.Tidied q) (same : SameBindings q r) : p.Tidied r :=
  ⟨tidied.intact.of_sameBindings same, fun nr => same.slot_eq nr ▸ tidied.slot_eq nr⟩

variable (tidied : p.Tidied q)

include tidied

/-- A frame without a slot does not get one. -/
theorem unbound (unbound : ∀ nr, (p.slot nr).frame? ≠ some f) (nr : Fin n) :
    (q.slot nr).frame? ≠ some f := by
  rcases tidied.slot_eq nr with same | swept
  · rw [same]
    exact unbound nr
  · rw [swept]
    exact fun bound => unbound nr (Slot.frame?_of_swept bound)

theorem isHeld_eq (nr : Fin n) : (q.slot nr).isHeld = (p.slot nr).isHeld := by
  rcases tidied.slot_eq nr with same | swept
  · rw [same]
  · rw [swept, Slot.isHeld_swept]

/-- A held slot stays as it is. -/
theorem slot_of_held (held : (p.slot nr).isHeld = true) : q.slot nr = p.slot nr := by
  rcases tidied.slot_eq nr with same | swept
  · exact same
  · rw [swept]
    cases state : p.slot nr with
    | free => rfl
    | held => rfl
    | stale =>
        rw [state] at held
        cases held

end Tidied

/-- A slot is bound to the frame, which has no reverse pointer. -/
def Half (p : Pool n c) (f : Frame) : Prop :=
  (∃ nr, (p.slot nr).frame? = some f) ∧ p.reverse.get? f = none

/-- The ways in which binding a slot to a frame that has none can end. -/
inductive Binds (p : Pool n c) (f : Frame) : Except Fault (Option VirtAddr) → Pool n c → Prop
  | bound {va : VirtAddr} {q : Pool n c} (intact : q.Intact) : Binds p f (.ok (some va)) q
  | nothing {q : Pool n c} (tidied : p.Tidied q) : Binds p f (.ok none) q
  | failed {fault : Fault} {q : Pool n c} (tidied : p.Tidied q)
      (other : ∀ g, fault ≠ .reverseFull c g) : Binds p f (.error fault) q
  | overfull {q : Pool n c} (half : q.Half f) (small : c < n) :
      Binds p f (.error (.reverseFull c f)) q

/-- What follows a tidying up. -/
theorem Binds.after {result : Except Fault (Option VirtAddr)} (tidied : p.Tidied q)
    (binds : q.Binds f result r) : p.Binds f result r := by
  cases binds with
  | bound intact => exact .bound intact
  | nothing later => exact .nothing (tidied.trans later)
  | failed later other => exact .failed (tidied.trans later) other
  | overfull half small => exact .overfull half small

section Parts

variable {α : Type} {result : Except Fault α} {es : List Event}

theorem run_onTable {op : Op LeafTable α} {table : LeafTable}
    (run : op.run p.table = ⟨result, table, es⟩) :
    (onTable op).run p = ⟨result, { p with table }, es⟩ := by
  rw [onTable, Op.run_within, run]

theorem run_onReverse {op : Op (ReverseMap c) α} {reverse : ReverseMap c}
    (run : op.run p.reverse = ⟨result, reverse, es⟩) :
    (onReverse op).run p = ⟨result, { p with reverse }, es⟩ := by
  rw [onReverse, Op.run_within, run]

end Parts

theorem overflow_ne_full {o : Overflow} (g : Frame) : Fault.overflow o ≠ .reverseFull c g :=
  fun same => by cases same

namespace Intact

variable (intact : p.Intact)

include intact

/-- A frame is shared where it is bound, and nothing happens where it is not. -/
theorem ends_shareBound (f : Frame) :
    (shareBound f).Ends p fun result q =>
      (∃ va, result = .ok (some va) ∧ q.Intact) ∨
        result = .ok none ∧ q = p ∧ ∀ nr, (p.slot nr).frame? ≠ some f := by
  cases pointer : p.reverse.get? f with
  | none =>
      refine .of_run (run_shareBound_unbound pointer) (Or.inr ⟨rfl, rfl, ?_⟩)
      exact intact.get?_eq_none_iff.mp pointer
  | some va =>
      obtain ⟨nr, bound, rfl⟩ := (intact.get?_iff f va).mp pointer
      obtain ⟨s, -, same, run⟩ := intact.run_shareBound bound
      exact .of_run run (Or.inl ⟨p.address nr, rfl, intact.withSlot same⟩)

/-- A free slot is bound, or left as it is, or bound without a reverse pointer. -/
theorem ends_bindSlot (free : p.slot nr = .free)
    (unbound : ∀ other, (p.slot other).frame? ≠ some f) :
    (bindSlot nr f).Ends p fun result q => p.Binds f (result.map some) q := by
  have same : p.Tidied p := .refl intact
  refine .get_bind (.lift_overflow_bind (fun va address => ?_) fun o _ => ?_)
  · rcases LeafTable.run_commit_cases p.table va f with
      ⟨i, e, position, vacant, leaf, run⟩ | ⟨cause, run, known⟩
    · obtain ⟨placed, rfl⟩ := placed_of_indexOf? address position
      have absent := intact.get?_eq_none_iff.mpr unbound
      refine .bind_ok (run_onTable run) ?_
      rw [free]
      refine .modifyGet_bind ?_
      by_cases room : p.reverse.size < c
      · obtain ⟨reverse, insert, inserted⟩ :=
          intact.sound.run_insert_absent absent room (p.address nr)
        have bound : (p.replaced nr (.held f .one) i e reverse).Intact :=
          intact.bind free placed (Entry.frame?_of_leaf leaf) absent inserted
        exact .bind_ok (run_onReverse insert) (.emit_bind (.pure (.bound bound)))
      · -- the slot is held by now, and its frame does not get a pointer
        have full := Nat.le_antisymm intact.sound.size_le (Nat.le_of_not_lt room)
        have refused := intact.sound.run_insert_full absent full (p.address nr)
        refine .bind_error (run_onReverse refused) (.overfull ⟨⟨nr, ?_⟩, absent⟩ ?_)
        · exact congrArg Slot.frame? (slot_withSlot_self p nr (.held f .one))
        · exact full ▸ intact.size_lt free
    · refine .bind_error (run_onTable run) (.failed same fun g full => ?_)
      rw [full] at known
      simp at known
  · exact .failed same overflow_ne_full

/-- Turning a slot free does not fail. -/
theorem ends_reclaim (nr : Fin n) :
    (Pool.reclaim nr).Ends p fun result q => (∃ freed, result = .ok freed) ∧ p.Tidied q := by
  by_cases stale : (p.slot nr).isStale = true
  · obtain ⟨f, stale⟩ := Slot.exists_of_isStale stale
    have bound : (p.slot nr).frame? = some f := by
      rw [stale]
      rfl
    obtain ⟨i, placed⟩ := intact.placed nr f bound
    have run := intact.run_reclaim_stale placed stale
    refine .of_run run ⟨⟨true, rfl⟩, intact.reclaim bound placed Entry.frame?_zero, fun other => ?_⟩
    rw [slot_replaced]
    split
    · rename_i here
      rw [here, stale]
      exact Or.inr rfl
    · exact Or.inl rfl
  · have fresh := Bool.eq_false_iff.mpr stale
    exact .of_run (run_reclaim_fresh fresh) ⟨⟨false, rfl⟩, .refl intact⟩

theorem ends_reclaimAll (l : List (Fin n)) :
    (reclaimAll l).Ends p fun result q => (∃ freed, result = .ok freed) ∧ p.Tidied q := by
  induction l generalizing p with
  | nil => exact .pure ⟨⟨0, rfl⟩, .refl intact⟩
  | cons nr rest ih =>
      refine .bind (intact.ends_reclaim nr) (fun freed q first => ?_) fun f q first => ?_
      · refine .bind (ih first.2.intact) (fun more r later => ?_) fun f r later => ?_
        · exact .pure ⟨⟨_, rfl⟩, first.2.trans later.2⟩
        · obtain ⟨more, same⟩ := later.1
          cases same
      · obtain ⟨freed, same⟩ := first.1
        cases same

/-- A pass tidies the pool up, also where it fails. -/
theorem ends_sweep :
    (sweep : Op (Pool n c) Nat).Ends p fun result q =>
      p.Tidied q ∧ ∀ fault, result = .error fault → ∃ o, fault = .overflow o := by
  refine .bind (intact.ends_reclaimAll _) (fun freed q reclaimed => ?_) fun f q reclaimed => ?_
  · have tidied := reclaimed.2
    have unchanged : ∀ {r : Pool n c}, SameBindings q r → p.Tidied r := tidied.of_sameBindings
    refine .get_bind (.lift_overflow_bind (fun stop _ => ?_) fun o _ => ?_)
    · rcases LeafTable.run_invalidate_cases q.table q.base stop with
        ⟨-, run⟩ | ⟨-, o, record, run⟩
      · refine .bind_ok (run_onTable run) (.lift_overflow_bind (fun passes _ => ?_) fun o _ => ?_)
        · refine .modifyGet_bind (.emit_bind (.pure ⟨unchanged ⟨rfl, rfl, rfl, rfl, rfl⟩, ?_⟩))
          intro fault same
          cases same
        · exact ⟨unchanged ⟨rfl, rfl, rfl, rfl, rfl⟩,
            fun fault same => ⟨o, (Except.error.inj same).symm⟩⟩
      · exact .bind_error (run_onTable run) ⟨unchanged ⟨rfl, rfl, rfl, rfl, rfl⟩,
          fun fault same => ⟨o, (Except.error.inj same).symm⟩⟩
    · exact ⟨tidied, fun fault same => ⟨o, (Except.error.inj same).symm⟩⟩
  · obtain ⟨freed, same⟩ := reclaimed.1
    cases same

/-- Looking at one slot of a scan. -/
theorem ends_look (nr : Fin n) (unbound : ∀ other, (p.slot other).frame? ≠ some f)
    {rest : List (Fin n)} (further : (scanAlong f rest).Ends p (p.Binds f)) :
    (do
      let p ← get
      if (p.slot nr).isFree then
        let va ← bindSlot nr f
        return some va
      else scanAlong f rest : Op (Pool n c) (Option VirtAddr)).Ends p (p.Binds f) := by
  refine .get_bind ?_
  split
  · rename_i free
    refine .bind (intact.ends_bindSlot (Slot.isFree_iff.mp free) unbound) ?_ ?_
    · exact fun va q binds => .pure binds
    · exact fun fault q binds => binds
  · exact further

/-- A scan for a frame without a slot. -/
theorem ends_scanAlong (unbound : ∀ other, (p.slot other).frame? ≠ some f) (l : List (Fin n)) :
    (scanAlong f l).Ends p (p.Binds f) := by
  induction l generalizing p with
  | nil => exact .pure (.nothing (.refl intact))
  | cons nr rest ih =>
      have look : ∀ {q}, p.Tidied q → (do
          let p ← get
          if (p.slot nr).isFree then
            let va ← bindSlot nr f
            return some va
          else scanAlong f rest : Op (Pool n c) (Option VirtAddr)).Ends q (p.Binds f) := by
        intro q tidied
        have here := tidied.unbound unbound
        have ends := tidied.intact.ends_look nr here (ih tidied.intact here)
        exact ends.weaken fun _ _ => Binds.after tidied
      have moved : p.Tidied { p with cursor := Cyclic.next nr } :=
        (Tidied.refl intact).of_sameBindings ⟨rfl, rfl, rfl, rfl, rfl⟩
      refine .modifyGet_bind ?_
      dsimp only
      split
      · refine .bind moved.intact.ends_sweep (fun freed q swept => ?_) fun fault q swept => ?_
        · have tidied := moved.trans swept.1
          split
          · exact .modifyGet_bind (look (tidied.of_sameBindings ⟨rfl, rfl, rfl, rfl, rfl⟩))
          · exact look tidied
        · obtain ⟨o, rfl⟩ := swept.2 fault rfl
          exact .failed (moved.trans swept.1) overflow_ne_full
      · exact look moved

end Intact

/-- The ways in which a request for a frame can end. -/
inductive Requests (p : Pool n c) (f : Frame) : Except Fault Grant → Pool n c → Prop
  | answered {grant : Grant} {q : Pool n c} (intact : q.Intact) : Requests p f (.ok grant) q
  | failed {fault : Fault} {q : Pool n c} (unbound : ∀ nr, (p.slot nr).frame? ≠ some f)
      (tidied : p.Tidied q) (other : ∀ g, fault ≠ .reverseFull c g) :
      Requests p f (.error fault) q
  | overfull {q : Pool n c} (half : q.Half f) (small : c < n) :
      Requests p f (.error (.reverseFull c f)) q

/-- Every end of a request of an intact pool is one of those. -/
theorem Intact.ends_attempt (intact : p.Intact) (f : Frame) :
    (attempt f).Ends p (p.Requests f) := by
  refine .bind (intact.ends_shareBound f) (fun shared q first => ?_) fun fault q first => ?_
  · rcases first with ⟨va, same, shared⟩ | ⟨same, rfl, unbound⟩
    · cases same
      exact .pure (.answered shared)
    · cases same
      refine .bind (.get_bind (intact.ends_scanAlong unbound _)) (fun found r scanned => ?_)
        fun fault r scanned => ?_
      · cases scanned with
        | bound bound => exact .pure (.answered bound)
        | nothing tidied =>
            refine .emit_bind (.modifyGet_bind (.pure (.answered ?_)))
            exact tidied.intact.of_sameBindings ⟨rfl, rfl, rfl, rfl, rfl⟩
      · cases scanned with
        | failed tidied other => exact .failed unbound tidied other
        | overfull half small => exact .overfull half small
  · rcases first with ⟨va, same, -⟩ | ⟨same, -⟩ <;> cases same

/-- However giving back an address ends, the tables still agree. -/
theorem Verdict.intact {va : VirtAddr} {o : Outcome (Pool n c) (Except ReleaseError Unit)}
    (verdict : p.Verdict va o) (before : p.Intact) : o.state.Intact := by
  cases verdict with
  | outside => exact before
  | unaligned => exact before
  | notHeld => exact before
  | @released nr q es _ _ loses =>
      have table := loses.table_eq
      refine before.of_frames loses.base_eq (table ▸ rfl) (table ▸ rfl) loses.reverse_eq ?_
      intro other
      by_cases here : other = nr
      · rw [here, loses.frame?_eq]
      · rw [loses.others other here]

end Highmem.Pool
