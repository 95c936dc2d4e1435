import Highmem.Proofs.Sync.Exclusion
import Highmem.Sync.Monitor

/-!
# Calls as interleavings

The calls of a mutex with one keeper, and those of a monitor, are accesses of threads, one
after another. So the threads below them are always ones that an interleaving leads to, and
what is proved of every interleaving is proved of them: `Leads` says so for each call, and
`leads_after` and `Reachable.leads` for any number of calls.

The one exception is a value that is replaced without the lock. It needs exclusive access,
so that there is no other thread to interfere with.
-/

namespace Highmem.Sync

namespace Threads

variable {s s' s'' : Threads} {i : ThreadId} {a : Action}

/-- Some accesses lead from one state to another. -/
def Leads (s s' : Threads) : Prop := ∃ script, s.run script = some s'

theorem Leads.refl (s : Threads) : s.Leads s := ⟨[], rfl⟩

theorem Leads.head (step : s.step i a = some s') (later : s'.Leads s'') : s.Leads s'' := by
  obtain ⟨script, ran⟩ := later
  refine ⟨(i, a) :: script, ?_⟩
  simp [run, step, ran]

theorem Leads.trans (first : s.Leads s') (later : s'.Leads s'') : s.Leads s'' := by
  obtain ⟨script, ran⟩ := first
  induction script generalizing s with
  | nil =>
      cases ran
      exact later
  | cons x rest ih =>
      obtain ⟨middle, step, ran⟩ := exists_of_run_cons ran
      exact .head step (ih ran)

/-- The accesses that a thread leaves out change nothing. -/
theorem leads_perform (s : Threads) (i : ThreadId) (actions : List Action) :
    s.Leads (s.perform i actions) := by
  induction actions generalizing s with
  | nil => exact .refl s
  | cons a rest ih =>
      rw [perform]
      cases step : s.step i a with
      | none => exact ih s
      | some next => exact .head step (ih next)

theorem leads_addInside (s : Threads) (i : ThreadId) (amount : Int) :
    s.Leads (s.addInside i amount) := by
  have read := leads_perform s i [.read]
  unfold addInside
  dsimp only
  split
  · exact read.trans (leads_perform _ i _)
  · exact read

theorem leads_leave (s : Threads) (i : ThreadId) : s.Leads (s.leave i) := leads_perform s i _

/-- Adding in a critical section that the thread is about to enter, and leaving it. -/
theorem leads_section (s : Threads) (i : ThreadId) (entry : List Action) (amount : Int) :
    s.Leads (((s.perform i entry).addInside i amount).leave i) :=
  ((leads_perform s i entry).trans (leads_addInside _ i amount)).trans (leads_leave _ i)

/-- Whatever interleaving has led to a state, the lock guards the value. -/
theorem Leads.guarded {value : Int} (leads : (start value).Leads s) : s.Guarded := by
  obtain ⟨script, ran⟩ := leads
  exact ((sound_start value).run ran).guarded

end Threads

namespace Mutex

open Threads

variable {m : Mutex} {c : Call}

theorem leads_serve (s : Threads) (workers : List (ThreadId × Int)) :
    s.Leads (serve s workers) := by
  induction workers generalizing s with
  | nil => exact .refl s
  | cons worker rest ih => exact (leads_section s _ _ _).trans (ih _)

theorem leads_giveBack (m : Mutex) : m.threads.Leads m.giveBack.threads :=
  (leads_leave m.threads keeper).trans (leads_serve _ m.pending)

/-- A call is made of accesses, unless it needs exclusive access. -/
theorem leads_call (m : Mutex) (locked : ∀ value, c ≠ .replace value) :
    m.threads.Leads ((call c).run m).state.threads := by
  have act (actions : List Action) : m.threads.Leads (m.act actions).threads :=
    leads_perform m.threads keeper actions
  cases c <;> cases kept : m.isKept <;>
    simp only [call, kept, bind_pure_comp, Op.run_bind, Op.run_get, Op.run_map, Op.run_set,
      Op.run_pure, Op.run_fail]
  -- what a call does depends on whether the guard is kept; some calls are then refused
  case lock.true | tryLock.true | unlock.false | get.false | set.false | add.false
      | abortAfter.true | replace.true => exact .refl m.threads
  case lock.false | tryLock.false | get.true | set.true | abortAfter.false => exact act _
  case unlock.true => exact leads_giveBack m
  case add.true amount => exact leads_addInside m.threads keeper amount
  case addLocked.false amount => exact leads_section m.threads keeper _ amount
  case addLocked.true amount => exact leads_perform m.threads m.nextWorker _
  case replace.false value => exact absurd rfl (locked value)

def after (m : Mutex) (calls : List Call) : Mutex :=
  calls.foldl (fun m c => ((call c).run m).state) m

theorem leads_after (m : Mutex) {calls : List Call}
    (locked : ∀ c ∈ calls, ∀ value, c ≠ .replace value) :
    m.threads.Leads (m.after calls).threads := by
  induction calls generalizing m with
  | nil => exact .refl _
  | cons c rest ih =>
      have first := leads_call m (locked c List.mem_cons_self)
      exact first.trans (ih _ fun d mem => locked d (List.mem_cons_of_mem c mem))

/-- After any calls of the main thread that take the lock or have it, the lock guards the
value against the workers. -/
theorem guarded_after (value : Int) {calls : List Call}
    (locked : ∀ c ∈ calls, ∀ value, c ≠ .replace value) :
    ((start value).after calls).threads.Guarded :=
  (leads_after (start value) locked).guarded

end Mutex

namespace Monitor

open Threads

variable {m : Monitor} {value : Int}

theorem leads_locked (m : Monitor) (actions : List Action) :
    m.threads.Leads (m.locked actions).threads :=
  (leads_perform m.threads Mutex.keeper _).trans (leads_leave _ Mutex.keeper)

theorem leads_wait (m : Monitor) (amount : Int) (atLeast : Option Int) :
    m.threads.Leads (m.wait amount atLeast).2.threads :=
  leads_perform m.threads _ _

theorem leads_resume (m : Monitor) (w : Waiter) : m.threads.Leads (m.resume w).2.threads := by
  have looks := leads_perform m.threads w.thread [.advance, .advance, .read]
  exact iteInduction (motive := fun r : Bool × Monitor => m.threads.Leads r.2.threads)
    (fun _ => leads_section m.threads w.thread _ w.amount)
    (fun _ => looks.trans (leads_perform _ w.thread waitActions))

theorem leads_settleWithin (m : Monitor) (resumptions : Nat) :
    m.threads.Leads (m.settleWithin resumptions).2.threads := by
  induction resumptions generalizing m with
  | zero => exact .refl _
  | succ resumptions ih =>
      unfold settleWithin
      cases m.waiters.find? m.mayRun with
      | none => exact .refl _
      | some w => exact (leads_resume m w).trans (ih _)

/-- The monitors that calls can bring about. -/
inductive Reachable (value : Int) : Monitor → Prop
  | start : Reachable value (.start value)
  | wait {m : Monitor} (before : Reachable value m) (amount : Int) (atLeast : Option Int) :
      Reachable value (m.wait amount atLeast).2
  | setValue {m : Monitor} (before : Reachable value m) (w : Int) :
      Reachable value (m.setValue w)
  | notifyOne {m : Monitor} (before : Reachable value m) : Reachable value m.notifyOne.2
  | notifyAll {m : Monitor} (before : Reachable value m) : Reachable value m.notifyAll.2
  | settle {m : Monitor} (before : Reachable value m) : Reachable value m.settle.2

theorem Reachable.leads (reachable : Reachable value m) :
    (Threads.start value).Leads m.threads := by
  induction reachable with
  | start => exact .refl _
  | @wait m _ amount atLeast ih => exact ih.trans (leads_wait m amount atLeast)
  | @setValue m _ w ih => exact ih.trans (leads_locked m _)
  | @notifyOne m _ ih => exact ih.trans (leads_locked m _)
  | @notifyAll m _ ih => exact ih.trans (leads_locked m _)
  | @settle m _ ih => exact ih.trans (leads_settleWithin m _)

theorem Reachable.guarded (reachable : Reachable value m) : m.threads.Guarded :=
  reachable.leads.guarded

end Monitor

end Highmem.Sync
