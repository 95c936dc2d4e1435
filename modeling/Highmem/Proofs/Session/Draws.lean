import Highmem.Proofs.Pool.Flushing
import Highmem.Proofs.Session.Wakeups

/-!
# Tickets and passes

A call goes to sleep only after it has looked at every slot, and so only after a pass.
Therefore a run draws no more tickets than it asks for invalidations. While these are
few, the ticket counter has not wrapped and no ticket is taken for a waiting one.
-/

namespace Highmem

open Sync

variable {n c : Nat}

theorem Sync.Tickets.next_notifyOne (t : Tickets) : t.notifyOne.2.next = t.next := by
  unfold notifyOne
  split <;> rfl

namespace Pool

variable {p q : Pool n c} {f : Frame} {es : List Event}

theorem Search.next_eq {found : Option (Fin n)} (search : p.Search found q es) :
    q.tickets.next = p.tickets.next := by
  rcases search.tickets_eq with same | served
  · rw [same]
  · rw [served, Tickets.next_notifyOne]

/-- A search that finds nothing has asked for an invalidation. -/
theorem Search.invalidations_pos (search : p.Search none q es) : 0 < invalidations es := by
  cases search with
  | full _ pass =>
      cases pass with
      | complete =>
          obtain ⟨-, once⟩ := invalidations_flushed p.entered [.swept p.staleCount] fun e mem => by
            rw [List.mem_singleton.mp mem]
            rfl
          exact Nat.lt_of_lt_of_eq Nat.zero_lt_one once.symm

/-- A request draws the next ticket after an invalidation, or none. -/
theorem Attempts.draws {o : Outcome (Pool n c) Grant} (ends : p.Attempts f o) :
    (o.state.tickets.next = p.tickets.next ∧ ∀ ticket, o.result ≠ .ok (.parked ticket)) ∨
      o.result = .ok (.parked p.tickets.next) ∧
        o.state.tickets.next = p.tickets.next + 1 ∧ 0 < invalidations o.events := by
  cases ends with
  | shared => exact Or.inl ⟨rfl, nofun⟩
  | bound _ search _ becomes =>
      refine Or.inl ⟨?_, nofun⟩
      rw [becomes.elsewhere.tickets_eq]
      exact search.next_eq
  | parked _ search =>
      have same := search.next_eq
      refine Or.inr ⟨?_, ?_, ?_⟩
      · rw [← same]
        rfl
      · rw [← same]
        rfl
      · rw [invalidations_append]
        exact Nat.add_pos_left search.invalidations_pos _
  | tooWide _ search => exact Or.inl ⟨search.next_eq, nofun⟩
  | aborted _ _ pass =>
      refine Or.inl ⟨?_, nofun⟩
      rw [pass.swept.tickets_eq]
      rfl

theorem Releases.next_eq {va : VirtAddr} {o : Outcome (Pool n c) (Except ReleaseError Unit)}
    (ends : p.Releases va o) : o.state.tickets.next = p.tickets.next := by
  cases ends with
  | unknown => rfl
  | unheld => rfl
  | fewer => rfl
  | last => exact Tickets.next_notifyOne _

end Pool

namespace Session

variable {s s' : Session n c} {es : List Event} {k : Nat}

/-- At most `k` tickets were drawn, and each sleeping call has one of them. -/
structure Early (s : Session n c) (k : Nat) : Prop where
  next_le : s.pool.tickets.next.toNat ≤ k
  drawn : ∀ call ∈ s.sleeping, call.ticket.toNat < s.pool.tickets.next.toNat

theorem Early.recent (early : s.Early k) (few : k < Tickets.horizon) : s.Recent := by
  intro call mem
  have drawn := early.drawn call mem
  have next := early.next_le
  rw [Tickets.age_eq]
  unfold Tickets.horizon wordCount at *
  omega

/-- A request that may go to sleep keeps the tickets early. -/
theorem early_queued {calls : List SleepingCall} {p : Pool n c} {f : Frame}
    {o : Outcome (Pool n c) Pool.Grant} (ends : p.Attempts f o) (next : p.tickets.next.toNat ≤ k)
    (drawn : ∀ call ∈ calls, call.ticket.toNat < p.tickets.next.toNat) (id : Nat) (r : Request)
    (few : k + invalidations o.events < Tickets.horizon) :
    o.state.tickets.next.toNat ≤ k + invalidations o.events ∧
      ∀ call ∈ calls ++ queued id r o.result, call.ticket.toNat < o.state.tickets.next.toNat := by
  rcases ends.draws with ⟨same, awake⟩ | ⟨parked, more, pass⟩
  · rw [same, queued_of_returned awake, List.append_nil]
    exact ⟨Nat.le_add_right_of_le next, drawn⟩
  · have count : (p.tickets.next + 1).toNat = p.tickets.next.toNat + 1 := by
      rw [UInt64.toNat_add]
      refine Nat.mod_eq_of_lt ?_
      change p.tickets.next.toNat + 1 < _
      unfold Tickets.horizon at few
      omega
    rw [more, count, parked]
    constructor
    · omega
    · intro call mem
      rcases List.mem_append.mp mem with old | new
      · exact Nat.lt_succ_of_lt (drawn call old)
      · rw [List.mem_singleton.mp new]
        exact Nat.lt_succ_self _

theorem Transition.early (transition : Transition s s' es) (early : s.Early k)
    (few : k + invalidations es < Tickets.horizon) : s'.Early (k + invalidations es) := by
  obtain ⟨next, drawn⟩ := early
  cases transition with
  | rest pool sleeping =>
      constructor
      · rw [pool]
        exact next
      · rw [pool, sleeping]
        exact drawn
  | request ends pool sleeping =>
      obtain ⟨next, drawn⟩ := early_queued ends next drawn _ _ few
      constructor
      · rw [pool]
        exact next
      · rw [pool, sleeping]
        exact drawn
  | resumption _ _ ends pool sleeping =>
      obtain ⟨next, drawn⟩ := early_queued ends next
        (fun call mem => drawn call (List.mem_filter.mp mem).1) _ _ few
      constructor
      · rw [pool]
        exact next
      · rw [pool, sleeping]
        exact drawn
  | release ends pool sleeping =>
      constructor
      · rw [pool, ends.next_eq]
        exact Nat.le_add_right_of_le next
      · rw [pool, sleeping, ends.next_eq]
        exact drawn

/-- Throughout a run with few invalidations no call sleeps for too long. -/
theorem recent_along (consistent : s.pool.Consistent) (early : s.Early k) (moves : List Move)
    (few : k + invalidations (s.trace moves) < Tickets.horizon) : Along Recent s moves := by
  induction moves generalizing s k with
  | nil => exact early.recent few
  | cons m later ih =>
      have transition := run_step consistent m
      rw [trace, invalidations_append, ← Nat.add_assoc] at few
      have first := Nat.lt_of_le_of_lt (Nat.le_add_right _ _) few
      refine ⟨early.recent (Nat.lt_of_le_of_lt (Nat.le_add_right _ _) first), ?_⟩
      exact ih (transition.consistent consistent) (transition.early early first) few

theorem early_start {size : Pool.Size n} {base : VirtAddr} {pool : Pool n n}
    (created : Pool.create size base = .ok pool) (direct : DirectMap) :
    (start direct pool).Early 0 := by
  constructor
  · change pool.tickets.next.toNat ≤ 0
    rw [Pool.tickets_of_create created]
    exact Nat.le_refl 0
  · exact nofun

end Session

end Highmem
