import Highmem.Proofs.Pool.Holding
import Highmem.Proofs.Session.Replies

/-!
# The journal of a run

The journal notes what callers learn: which requests returned which address, and which
addresses they gave back. A request that sleeps is noted when it returns, and neither a
refusal nor a fault is noted. `records_step` says that the notes of a move tell all that
it did to the held slots.
-/

namespace Highmem.Session

open Sync

variable {n c : Nat} {s : Session n c}

def notes (s : Session n c) (m : Move) : List Note :=
  match s.asks? m, s.gives? m, s.reply m with
  | some f, _, .ok (.mapped (.slot va)) => [.granted f va]
  | none, some va, .ok .done => [.released va (s.pool.boundAt va)]
  | _, _, _ => []

theorem notes_granted {m : Move} {f : Frame} {va : VirtAddr} (asks : s.asks? m = some f)
    (mapped : s.reply m = .ok (.mapped (.slot va))) : s.notes m = [.granted f va] := by
  rw [notes, asks, mapped]

/-- A noted release is one that succeeded. -/
theorem gives?_of_mem_notes {m : Move} {va : VirtAddr} {f? : Option Frame}
    (mem : .released va f? ∈ s.notes m) : s.gives? m = some va ∧ s.reply m = .ok .done := by
  unfold notes at mem
  split at mem
  · cases List.mem_singleton.mp mem
  · rename_i gives done
    cases List.mem_singleton.mp mem
    exact ⟨gives, done⟩
  · cases mem

/-- The notes of some moves, oldest first. -/
def journal (s : Session n c) : List Move → List Note
  | [] => []
  | m :: later => s.notes m ++ (s.after m).journal later

theorem journal_append (s : Session n c) (moves moves' : List Move) :
    s.journal (moves ++ moves') = s.journal moves ++ (s.afterAll moves).journal moves' := by
  induction moves generalizing s with
  | nil => rfl
  | cons m later ih =>
      change s.notes m ++ (s.after m).journal (later ++ moves') = _
      rw [ih, ← List.append_assoc]
      rfl

/-- A move is worth one note at most. -/
theorem length_notes_le (s : Session n c) (m : Move) : (s.notes m).length ≤ 1 := by
  unfold notes
  split
  · exact Nat.le_refl 1
  · exact Nat.le_refl 1
  · exact Nat.zero_le 1

theorem length_journal_le (s : Session n c) (moves : List Move) :
    (s.journal moves).length ≤ moves.length := by
  induction moves generalizing s with
  | nil => exact Nat.le_refl 0
  | cons m later ih =>
      have first := s.length_notes_le m
      have rest := ih (s.after m)
      rw [journal, List.length_append, List.length_cons]
      omega

/-- The notes of a move say what it did to the held slots. -/
theorem records_step (consistent : s.pool.Consistent) (m : Move) :
    s.pool.Records (s.after m).pool (s.notes m) := by
  cases asks : s.asks? m with
  | some f =>
      obtain ⟨o, ends, answers, pool, -⟩ := reply_of_asks consistent asks
      have records := ends.records
      rw [pool, notes, asks]
      generalize o.result = result, s.reply m = reply at answers records ⊢
      cases answers <;> exact records
  | none =>
      cases gives : s.gives? m with
      | some va =>
          obtain ⟨ending, p, es, -, ends, settles, pool, -⟩ := reply_of_gives consistent gives
          have records := ends.records consistent
          rw [pool, notes, asks, gives]
          generalize s.reply m = reply at settles ⊢
          cases settles <;> exact records
      | none =>
          obtain ⟨pool, -⟩ := reply_of_neither asks gives
          rw [pool, notes, asks, gives]
          exact .nothing fun _ => rfl

end Highmem.Session
