import Highmem.Proofs.Paging.Shadow
import Highmem.Proofs.Pool.Attempt
import Highmem.Proofs.Pool.Release

/-!
# A pool and its shadow

Between two critical sections the shadow of a pool has the entries that the slots ask
for, and an address is tainted with no frame but that of its slot. A pass keeps this:
when it invalidates the window, the entries of the slots that it frees are cleared
already. So a slot that is free when a search ends has an untainted address, whether
the search came to it with or without a pass.

A pass that does not invalidate would leave tainted addresses of free slots behind.
The window has to end within the reach of addresses to exclude that; a counter at its
end does not matter, because the invalidation comes before the counting.
-/

namespace Highmem.Pool

open Paging Sync

variable {n c : Nat} {p q r : Pool n c} {nr : Fin n} {f : Frame} {σ : Shadow}
variable {es : List Event}

/-- The shadow has the entries of the slots, and taints no address but with the frame
of its slot. -/
structure Tracked (p : Pool n c) (σ : Shadow) : Prop where
  entry_eq : ∀ nr, σ.entry (p.address nr) = (p.slot nr).frame?
  frame_eq : ∀ nr f, σ.tainted (p.address nr) f → (p.slot nr).frame? = some f

theorem Tracked.of_frames (tracked : p.Tracked σ) (base : q.base = p.base)
    (frames : ∀ nr, (q.slot nr).frame? = (p.slot nr).frame?) : q.Tracked σ := by
  have address : ∀ nr, q.address nr = p.address nr := address_eq base
  constructor
  · intro nr
    rw [address, frames]
    exact tracked.entry_eq nr
  · intro nr f
    rw [address, frames]
    exact tracked.frame_eq nr f

theorem clean_clearings (p : Pool n c) (σ : Shadow) (l : List (Fin n)) :
    σ.Clean (l.flatMap p.clearing) := by
  induction l generalizing σ with
  | nil => trivial
  | cons m l ih =>
      rw [List.flatMap_cons, Shadow.clean_append]
      refine ⟨?_, ih _⟩
      unfold clearing
      split <;> trivial

theorem Consistent.entry_clearings (consistent : p.Consistent) (σ : Shadow) (l : List (Fin n))
    (nr : Fin n) :
    (σ.follow (l.flatMap p.clearing)).entry (p.address nr) =
      if nr ∈ l ∧ (p.slot nr).isStale then none else σ.entry (p.address nr) := by
  induction l generalizing σ with
  | nil => exact (if_neg fun h => List.not_mem_nil h.1).symm
  | cons m l ih =>
      rw [List.flatMap_cons, Shadow.follow_append, ih]
      by_cases stale : (p.slot nr).isStale = true
      · by_cases later : nr ∈ l
        · rw [if_pos ⟨later, stale⟩, if_pos ⟨List.mem_cons_of_mem m later, stale⟩]
        · rw [if_neg fun h => later h.1]
          by_cases here : nr = m
          · rw [if_pos ⟨here ▸ List.mem_cons_self, stale⟩, ← here, clearing, if_pos stale]
            exact Shadow.entry_cleared_self σ _
          · rw [if_neg fun h => (List.mem_cons.mp h.1).elim here later, clearing]
            split
            · exact Shadow.entry_cleared_of_ne σ (mt consistent.eq_of_address_eq here)
            · rfl
      · rw [if_neg fun h => stale h.2, if_neg fun h => stale h.2, clearing]
        split
        · rename_i cleared
          have apart : nr ≠ m := fun here => stale (here ▸ cleared)
          exact Shadow.entry_cleared_of_ne σ (mt consistent.eq_of_address_eq apart)
        · rfl

/-- After the entries of a pass were cleared, the shadow has the entries of the slots that
the pass leaves. -/
theorem Tracked.entry_clearings (tracked : p.Tracked σ) (consistent : p.Consistent) (nr : Fin n) :
    (σ.follow p.clearings).entry (p.address nr) = (p.slot nr).swept.frame? := by
  rw [clearings, consistent.entry_clearings, tracked.entry_eq]
  cases state : p.slot nr with
  | free => exact if_neg fun h => Bool.noConfusion h.2
  | stale f => exact if_pos ⟨List.mem_finRange nr, rfl⟩
  | held f holders => exact if_neg fun h => Bool.noConfusion h.2

/-- A slot lies in the window that a pass invalidates. -/
theorem Consistent.address_inside (consistent : p.Consistent)
    (reach : p.Reaches) (nr : Fin n) :
    p.base ≤ p.address nr ∧ p.address nr < p.base.page n := by
  have place := consistent.toNat_address nr
  have stop : (p.base.page n).toNat = p.base.toNat + n * pageSize := Nat.mod_eq_of_lt reach
  have hnr := nr.isLt
  constructor
  · change p.base.toNat ≤ _
    omega
  · change _ < (p.base.page n).toNat
    rw [place, stop, pageSize]
    omega

/-- Clean events after which the shadow tracks a pool. -/
structure Keeps (σ : Shadow) (es : List Event) (q : Pool n c) : Prop where
  tracked : q.Tracked (σ.follow es)
  clean : σ.Clean es

theorem Keeps.append {es' : List Event} (first : Keeps σ es q) (later : Keeps (σ.follow es) es' r) :
    Keeps σ (es ++ es') r := by
  constructor
  · rw [Shadow.follow_append]
    exact later.tracked
  · exact (Shadow.clean_append _ _ _).mpr ⟨first.clean, later.clean⟩

/-- Events that do not concern paging, while no slot is bound or freed. -/
theorem Tracked.keeps_of_frames {e : Event} (tracked : p.Tracked σ) (quiet : e.isPaging = false)
    (base : q.base = p.base) (frames : ∀ nr, (q.slot nr).frame? = (p.slot nr).frame?) :
    Keeps σ [e] q := by
  constructor
  · change q.Tracked (σ.enter e)
    rw [Shadow.enter_of_not_paging quiet]
    exact tracked.of_frames base frames
  · apply Shadow.clean_singleton_of_ne
    rintro va f rfl
    cases quiet

theorem Tracked.keeps_nil (tracked : p.Tracked σ) (base : q.base = p.base)
    (frames : ∀ nr, (q.slot nr).frame? = (p.slot nr).frame?) : Keeps σ [] q :=
  ⟨tracked.of_frames base frames, trivial⟩

/-- A pass that gets as far as the invalidation leaves the pool tracked. -/
theorem Tracked.keeps_flushed (tracked : p.Tracked σ) (consistent : p.Consistent)
    (reach : p.Reaches) (swept : Swept p q) :
    Keeps σ (p.clearings ++ [p.flushed]) q := by
  have address : ∀ nr, q.address nr = p.address nr := address_eq swept.base_eq
  have entries := tracked.entry_clearings consistent
  refine ⟨⟨fun nr => ?_, fun nr f taint => ?_⟩, ?_⟩
  · rw [Shadow.follow_append, address, swept.slot_eq]
    exact entries nr
  · rw [Shadow.follow_append, address] at taint
    obtain ⟨-, kept⟩ := taint
    obtain ⟨above, below⟩ := consistent.address_inside reach nr
    rw [swept.slot_eq, ← entries nr]
    by_contra other
    exact kept ⟨above, below, other⟩
  · refine (Shadow.clean_append _ _ _).mpr ⟨clean_clearings p σ _, ?_⟩
    exact Shadow.clean_singleton_of_ne fun va f same => by cases same

theorem Passes.keeps {o : Outcome (Pool n c) Nat} (pass : p.Passes o) (consistent : p.Consistent)
    (reach : p.Reaches) (tracked : p.Tracked σ) :
    Keeps σ o.events o.state := by
  cases pass with
  | complete swept =>
      have flushed := tracked.keeps_flushed consistent reach swept
      have reported := flushed.append
        (flushed.tracked.keeps_of_frames (e := .swept p.staleCount) rfl rfl fun _ => rfl)
      rw [List.append_assoc] at reported
      exact reported
  | uncounted swept => exact tracked.keeps_flushed consistent reach swept
  | unreachable _ _ beyond => exact absurd reach beyond

theorem Tracked.entered (tracked : p.Tracked σ) : p.entered.Tracked σ :=
  tracked.of_frames rfl fun _ => rfl

theorem Search.keeps {found : Option (Fin n)} (search : p.Search found q es)
    (consistent : p.Consistent) (reach : p.Reaches)
    (tracked : p.Tracked σ) : Keeps σ es q := by
  obtain ⟨nr, rfl, rfl⟩ | ⟨r, nr, pass, rfl⟩ := search.passes
  · exact tracked.keeps_nil rfl fun _ => rfl
  · have kept := pass.keeps (consistent.withCursor _) reach tracked.entered
    refine ⟨kept.tracked.of_frames (base_letIn r _) ?_, kept.clean⟩
    intro other
    exact congrArg Slot.frame? (slot_letIn r _ other)

/-- Binding a slot programs an untainted address. -/
theorem Tracked.keeps_bound (tracked : q.Tracked σ) (consistent : q.Consistent)
    (free : q.slot nr = .free)
    (becomes : q.Becomes (fun other => if other = nr then .held f .one else q.slot other) r) :
    Keeps σ [.mapped (q.address nr) f, .bound f nr (q.address nr)] r := by
  have untainted : ∀ g, ¬ σ.tainted (q.address nr) g := by
    intro g taint
    have bound := tracked.frame_eq nr g taint
    rw [free] at bound
    cases bound
  have address : ∀ other, r.address other = q.address other := address_eq becomes.elsewhere.base_eq
  refine ⟨⟨fun other => ?_, fun other g taint => ?_⟩, ⟨untainted, trivial⟩⟩
  · change (σ.enter (.mapped (q.address nr) f)).entry (r.address other) = _
    rw [address, becomes.slot_eq]
    by_cases here : other = nr
    · rw [if_pos here, here]
      exact Shadow.entry_mapped_self σ _ f
    · rw [if_neg here, Shadow.entry_mapped_of_ne σ f (mt consistent.eq_of_address_eq here)]
      exact tracked.entry_eq other
  · change σ.tainted (r.address other) g ∨ r.address other = q.address nr ∧ g = f at taint
    rw [address] at taint
    rw [becomes.slot_eq]
    rcases taint with old | ⟨same, rfl⟩
    · have apart : other ≠ nr := by
        rintro rfl
        exact untainted g old
      rw [if_neg apart]
      exact tracked.frame_eq other g old
    · rw [if_pos (consistent.eq_of_address_eq same)]
      rfl

theorem Attempts.keeps {o : Outcome (Pool n c) Grant} (ends : p.Attempts f o)
    (consistent : p.Consistent) (reach : p.Reaches)
    (tracked : p.Tracked σ) : Keeps σ o.events o.state := by
  cases ends with
  | shared _ shared =>
      exact tracked.keeps_of_frames rfl rfl (frame?_withSlot (Slot.frame?_of_share? shared))
  | bound _ search _ becomes =>
      have found := search.keeps consistent reach tracked
      have bind := found.tracked.keeps_bound (search.consistent consistent) search.free becomes
      rw [address_eq search.base_eq] at bind
      exact found.append bind
  | parked _ search =>
      have found := search.keeps consistent reach tracked
      exact found.append (found.tracked.keeps_of_frames rfl rfl fun _ => rfl)
  | tooWide _ search => exact search.keeps consistent reach tracked
  | aborted _ _ pass => exact pass.keeps (consistent.withCursor _) reach tracked.entered

theorem Releases.keeps {va : VirtAddr} {o : Outcome (Pool n c) (Except ReleaseError Unit)}
    (ends : p.Releases va o) (tracked : p.Tracked σ) : Keeps σ o.events o.state := by
  cases ends with
  | unknown => exact tracked.keeps_nil rfl fun _ => rfl
  | unheld => exact tracked.keeps_nil rfl fun _ => rfl
  | fewer _ held => exact tracked.keeps_nil rfl (frame?_withSlot (by rw [held]; rfl))
  | last _ held => exact tracked.keeps_of_frames rfl rfl (frame?_withSlot (by rw [held]; rfl))

end Highmem.Pool
