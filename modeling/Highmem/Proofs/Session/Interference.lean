import Highmem.Proofs.Pool.Audit
import Highmem.Proofs.Pool.Sited
import Highmem.Proofs.ReverseMap.Refinement
import Highmem.Proofs.Session.Run

/-!
# Audits of a pool that others change

A run may be interfered with: between the moves of the callers, entries of the table and
reverse pointers may be changed behind the back of the pool. Moves and changes may stop
halfway, and the run goes on from there. Such a pool need not be consistent, and an audit
passes in exactly those of its states in which it is.
-/

namespace Highmem

open Paging

variable {n c : Nat}

/-- What can happen to a pool in use. -/
inductive Act where
  /-- A move of a caller. -/
  | move (m : Move)
  /-- An entry is programmed from outside. -/
  | commit (va : VirtAddr) (f : Frame)
  /-- An entry is cleared from outside. -/
  | clear (va : VirtAddr)
  /-- A reverse pointer is set or cleared from outside. -/
  | assign (f : Frame) (va : Option VirtAddr)
  deriving DecidableEq

namespace Session

/-- What happens in an act. Nobody waits for an answer. -/
def perform : Act → Op (Session n c) Unit
  | .move m => do
    let _ ← step m
    return ()
  | .commit va f => onPool (Pool.onTable (LeafTable.commit va f))
  | .clear va => do
    let _ ← onPool (Pool.onTable (LeafTable.clear va))
    return ()
  | .assign f va => onPool (Pool.onReverse (ReverseMap.assign f va))

/-- The session after some acts. An act that faults does not end the sequence. -/
def afterActs (s : Session n c) : List Act → Session n c
  | [] => s
  | a :: later => ((perform a).run s).state.afterActs later

variable {α : Type} {base tableBase : VirtAddr}

/-- The operation keeps the pool of a session where it is. -/
abbrev Stays (base tableBase : VirtAddr) (op : Op (Session n c) α) : Prop :=
  op.Preserves fun s => s.pool.Sited base tableBase

namespace Stays

theorem onPool {op : Op (Pool n c) α} (stays : Pool.Stays base tableBase op) :
    Stays base tableBase (Session.onPool op) :=
  .within fun s sited => stays s.pool sited

theorem deliver (r : Request) (m : Mapping) :
    Stays base tableBase (Session.deliver r m : Op (Session n c) Mapping) := by
  unfold Session.deliver
  split
  · exact .pure _
  · exact .bind (.modify fun _ sited => sited) fun _ => .pure _

theorem conclude (id : Nat) (r : Request) (grant : Pool.Grant) :
    Stays base tableBase (Session.conclude id r grant : Op (Session n c) Reply) := by
  cases grant with
  | granted va => exact .bind (deliver r _) fun _ => .pure _
  | parked ticket => exact .bind (.modify fun _ sited => sited) fun _ => .pure _

theorem submit (r : Request) :
    Stays base tableBase (Session.submit r : Op (Session n c) Reply) := by
  refine .get_bind fun s _ => ?_
  split
  · exact .bind (.lift_overflow _) fun va => .bind (deliver r _) fun _ => .pure _
  · refine .bind (onPool (.attempt r.frame)) fun grant => ?_
    cases grant with
    | granted va => exact conclude _ r _
    | parked ticket => exact .bind (.modify fun _ sited => sited) fun _ => conclude _ r _

theorem wake (call : SleepingCall) :
    Stays base tableBase (Session.wake call : Op (Session n c) Reply) := by
  refine .bind (.modify fun _ sited => sited) fun _ => .bind (onPool ?_) fun _ => conclude _ _ _
  exact .bind (.emit _) fun _ => Pool.Stays.attempt call.request.frame

theorem tryUnmap (va : VirtAddr) :
    Stays base tableBase (Session.tryUnmap va : Op (Session n c) (Except ReleaseError Unit)) := by
  refine .get_bind fun s _ => ?_
  split
  · exact .pure _
  · exact onPool (.tryRelease va)

theorem giveBack (m : Mapping) :
    Stays base tableBase (Session.giveBack m : Op (Session n c) Unit) := by
  cases m with
  | direct va => exact .pure _
  | slot va => exact onPool (.release va)

theorem step (m : Move) : Stays base tableBase (Session.step m : Op (Session n c) Reply) := by
  cases m with
  | submit r => exact submit r
  | resume id =>
      refine .get_bind fun s _ => ?_
      split
      · exact .pure _
      · exact wake _
  | tryRelease va =>
      refine .bind (onPool (.tryRelease va)) fun ending => ?_
      cases ending <;> exact .pure _
  | release va => exact .bind (onPool (.release va)) fun _ => .pure _
  | tryUnmap va =>
      refine .bind (tryUnmap va) fun ending => ?_
      cases ending <;> exact .pure _
  | unmap va =>
      refine .bind (tryUnmap va) fun ending => ?_
      cases ending with
      | ok => exact .pure _
      | error cause => exact .fail _
  | drop name =>
      refine .get_bind fun s sited => ?_
      split
      · exact .pure _
      · refine .bind (.set ?_) fun _ => .bind (giveBack _) fun _ => .pure _
        exact sited

theorem perform (a : Act) :
    Stays base tableBase (Session.perform a : Op (Session n c) Unit) := by
  cases a with
  | move m => exact .bind (step m) fun _ => .pure _
  | commit va f => exact onPool (.onTable (LeafTable.preserves_commit va f))
  | clear va =>
      exact .bind (onPool (.onTable (LeafTable.preserves_clear va))) fun _ => .pure _
  | assign f va => exact onPool (.onReverse (ReverseMap.preserves_assign f va))

end Stays

theorem sited_afterActs {s : Session n c} (sited : s.pool.Sited base tableBase)
    (acts : List Act) : (s.afterActs acts).pool.Sited base tableBase := by
  induction acts generalizing s with
  | nil => exact sited
  | cons a later ih => exact ih (Stays.perform a s sited)

/-- Take any table that covers the window, and any reverse map, empty at first and then used
in any way. However callers move and others interfere, the address of each slot can be
calculated, and an audit passes exactly if the entry of every free slot maps nothing, the
entry of every bound slot maps its frame and that frame's pointer is the slot's address, no
frame is bound to two slots, and the frames with a pointer are the bound ones. -/
theorem audit_afterActs (size : Pool.Size n) {base : VirtAddr} {table : LeafTable}
    (aligned : base.toNat % pageSize = 0) (below : table.base.toNat ≤ base.toNat)
    (above : base.toNat + n * pageSize ≤ table.base.toNat + tableSpan) (room : 0 < c)
    (accesses : List ReverseMap.Access) :
    ∃ pool, Pool.assemble size base table
        (ReverseMap.Access.performAll (.empty room) accesses).2 = .ok pool ∧
      ∀ (direct : DirectMap) (acts : List Act),
        let p : Pool n c := ((start direct pool).afterActs acts).pool
        (∀ nr : Fin n, ∃ va, p.slotAddress nr = .ok va ∧
          va.toNat = base.toNat + nr * pageSize) ∧
        (p.audit = .ok () ↔ p.Coherent) := by
  have used := ((ReverseMap.represents_empty room).performAll accesses).2.sound
  obtain ⟨pool, built, before⟩ := Pool.exists_sited size table aligned used
  refine ⟨pool, built, ?_⟩
  intro direct acts p
  have sited : p.Sited base table.base := sited_afterActs (s := start direct pool) before acts
  have covered : p.Covered := by
    constructor
    · rw [sited.table_base_eq, sited.base_eq]
      exact below
    · rw [sited.table_base_eq, sited.base_eq]
      exact above
  refine ⟨fun nr => ⟨_, covered.slotAddress_eq nr, ?_⟩, covered.audit_eq_ok_iff sited.sound⟩
  rw [covered.toNat_address, sited.base_eq]

/-- A pointer that somebody sets behind the pool's back is found out, although no slot has
changed. -/
theorem audit_afterActs_stray :
    let table : LeafTable := ⟨Layout.windowBase, Vector.replicate tableEntries .zero, .empty,
      by decide⟩
    let stray : Frame := .ofNumber 9
    let acts : List Act := [.move (.submit ⟨.ofNumber 7, .slots, none⟩),
      .assign stray (some Layout.windowBase)]
    Layout.windowBase.toNat % pageSize = 0 ∧ table.base.toNat ≤ Layout.windowBase.toNat ∧
      Layout.windowBase.toNat + 2 * pageSize ≤ table.base.toNat + tableSpan ∧ 0 < 4 ∧
      ∃ pool : Pool 2 4, Pool.assemble ⟨by decide, by decide⟩ Layout.windowBase table
          (ReverseMap.Access.performAll (.empty (by decide)) []).2 = .ok pool ∧
        ((start .standard pool).afterActs acts).pool.audit ≠ .ok () := by
  intro table stray acts
  have aligned : Layout.windowBase.toNat % pageSize = 0 := by decide
  have below : table.base.toNat ≤ Layout.windowBase.toNat := Nat.le_refl _
  have above : Layout.windowBase.toNat + 2 * pageSize ≤ table.base.toNat + tableSpan := by decide
  obtain ⟨pool, built, audits⟩ :=
    audit_afterActs ⟨by decide, by decide⟩ aligned below above (show 0 < 4 by decide) []
  obtain ⟨-, audited⟩ := audits .standard acts
  refine ⟨aligned, below, above, by decide, pool, built, fun passed => ?_⟩
  have pointers := (audited.mp passed).pointer_iff stray
  cases built
  obtain ⟨nr, bound⟩ := pointers.mp ⟨Layout.windowBase, by decide⟩
  revert nr
  decide

end Session

end Highmem
