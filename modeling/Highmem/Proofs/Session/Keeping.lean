import Highmem.Proofs.Session.Replies

/-!
# What callers keep

A mapping has its place: a permanent one in the direct map, and any other one at a slot. A
move delivers only mappings that are in place, and so callers keep only such ones. Where the
direct map and the window lie apart, the two kinds cannot be confused by their addresses:
whoever drops a kept mapping does the same as whoever releases its address.
-/

namespace Highmem

open Paging Sync

/-- What follows an operation does not matter for the state if it does not change it. -/
theorem Op.state_bind {σ α β : Type} {op : Op σ α} {next : α → Op σ β} {s : σ}
    (quiet : ∀ a t, ((next a).run t).state = t) :
    ((op >>= next).run s).state = (op.run s).state := by
  cases ran : op.run s with
  | mk result t es =>
    cases result with
    | error fault => rw [Op.run_bind_error ran]
    | ok a =>
        rw [Op.run_bind_ok ran]
        exact quiet a t

/-- What an operation yields is what its last part yields. -/
theorem Op.exists_of_bind {σ α β : Type} {op : Op σ α} {next : α → Op σ β} {s : σ} {b : β}
    (yields : ((op >>= next).run s).result = .ok b) :
    ∃ a t, ((next a).run t).result = .ok b := by
  cases ran : op.run s with
  | mk result t es =>
    cases result with
    | error fault =>
        rw [Op.run_bind_error ran] at yields
        cases yields
    | ok a =>
        rw [Op.run_bind_ok ran] at yields
        exact ⟨a, t, yields⟩

variable {n c : Nat}

/-- The direct map of a pool's owner and the window of the pool lie apart, and both end
within the reach of addresses. -/
structure Pool.Apart (p : Pool n c) (d : DirectMap) : Prop where
  fits : d.base.toNat + d.limit.toNat < wordCount
  reach : p.Reaches
  apart : ∀ va, d.contains va = true →
    va.toNat < p.base.toNat ∨ p.base.toNat + n * pageSize ≤ va.toNat

namespace Pool

variable {p : Pool n c} {d : DirectMap} {va : VirtAddr} {f g : Frame}

/-- A covered frame has an address, which lies in the direct map. -/
theorem Apart.addressOf_covered (apart : p.Apart d) (low : d.covers f = true) :
    ∃ va, d.addressOf f = .ok va ∧ va.toNat = d.base.toNat + f.base.toNat ∧
      d.contains va = true := by
  have below := DirectMap.covers_iff.mp low
  have base := f.toNat_base
  have fits := apart.fits
  have inside : d.base.toNat + f.base.toNat < wordCount := by omega
  refine ⟨⟨d.base.toNat + f.base.toNat, inside⟩, VirtAddr.add_eq_ok_iff.mpr rfl, rfl, ?_⟩
  refine DirectMap.contains_iff.mpr ⟨Nat.le_add_right _ _, ?_⟩
  change d.base.toNat + f.base.toNat < _
  omega

/-- No address is both permanent and that of a slot. -/
theorem Apart.contains_address (apart : p.Apart d) (consistent : p.Consistent) (nr : Fin n) :
    d.contains (p.address nr) = false := by
  refine Bool.eq_false_iff.mpr fun direct => ?_
  have here := consistent.toNat_address nr
  have inside := Nat.mul_lt_mul_of_pos_right nr.isLt (show 0 < pageSize by decide)
  have outside := apart.apart _ direct
  omega

/-- What is granted is the address of a slot. -/
theorem Attempts.address_of_granted {o : Outcome (Pool n c) Grant} (ends : p.Attempts f o)
    (granted : o.result = .ok (.granted va)) :
    ∃ nr k, va = p.address nr ∧ o.state.slot nr = .held f k := by
  cases ends with
  | @shared nr s bound shared =>
      cases granted
      cases state : p.slot nr with
      | free =>
          rw [state] at bound
          cases bound
      | stale own =>
          rw [state] at bound shared
          cases bound
          cases shared
          exact ⟨nr, .one, rfl, slot_withSlot_self p nr _⟩
      | held own k =>
          rw [state] at bound shared
          cases bound
          cases shared
          exact ⟨nr, k.more, rfl, slot_withSlot_self p nr _⟩
  | @bound nr q r es _ _ _ becomes =>
      cases granted
      refine ⟨nr, .one, rfl, ?_⟩
      change r.slot nr = _
      rw [becomes.slot_eq, if_pos rfl]
  | parked => cases granted
  | tooWide => cases granted
  | aborted => cases granted

end Pool

namespace Session

variable {s : Session n c} {m : Move} {r : Request} {name : String} {va : VirtAddr} {x : Mapping}

theorem state_tryUnmap (s : Session n c) (va : VirtAddr) :
    ∃ pool, ((tryUnmap va).run s).state = { s with pool } := by
  by_cases direct : s.direct.contains va = true
  · exact ⟨s.pool, by simp [tryUnmap, direct]⟩
  · exact ⟨((Pool.tryRelease va).run s.pool).state, by simp [tryUnmap, direct, onPool]⟩

/-- A move that neither asks nor resumes leaves everything but the pool and, if it drops a
mapping, what is kept. -/
theorem after_giving (request : ∀ r, m ≠ .submit r) (resumption : ∀ id, m ≠ .resume id) :
    ∃ pool kept, s.after m = { s with pool, kept } ∧ ∀ x ∈ kept, x ∈ s.kept := by
  unfold Session.after
  cases m with
  | submit r => exact absurd rfl (request r)
  | resume id => exact absurd rfl (resumption id)
  | tryRelease va =>
      rw [step, Op.state_bind fun ending _ => by cases ending <;> rfl]
      exact ⟨_, s.kept, rfl, fun _ => id⟩
  | release va =>
      rw [step, Op.state_bind fun _ _ => rfl]
      exact ⟨_, s.kept, rfl, fun _ => id⟩
  | tryUnmap va =>
      rw [step, Op.state_bind fun ending _ => by cases ending <;> rfl]
      obtain ⟨pool, state⟩ := state_tryUnmap s va
      exact ⟨pool, s.kept, state, fun _ => id⟩
  | unmap va =>
      rw [step, Op.state_bind fun ending _ => by cases ending <;> rfl]
      obtain ⟨pool, state⟩ := state_tryUnmap s va
      exact ⟨pool, s.kept, state, fun _ => id⟩
  | drop name =>
      rw [run_drop]
      cases s.kept.find? (·.1 = name) with
      | none => exact ⟨s.pool, s.kept, rfl, fun _ => id⟩
      | some pair =>
          dsimp only
          rw [Op.state_bind fun _ _ => rfl]
          cases pair.2 with
          | direct va => exact ⟨s.pool, _, rfl, fun _ => List.mem_of_mem_filter⟩
          | slot va => exact ⟨_, _, rfl, fun _ => List.mem_of_mem_filter⟩

/-- Such a move neither delivers a mapping nor puts its caller to sleep. -/
theorem reply_of_giving (request : ∀ r, m ≠ .submit r) (resumption : ∀ id, m ≠ .resume id)
    {answer : Reply} (replied : s.reply m = .ok answer) :
    answer = .done ∨ answer = .nothingKept ∨ ∃ cause, answer = .refused cause := by
  unfold reply at replied
  cases m with
  | submit r => exact absurd rfl (request r)
  | resume id => exact absurd rfl (resumption id)
  | tryRelease va =>
      obtain ⟨ending, t, last⟩ := Op.exists_of_bind replied
      cases ending with
      | ok => exact Or.inl (Except.ok.inj last).symm
      | error cause => exact Or.inr (Or.inr ⟨cause, (Except.ok.inj last).symm⟩)
  | release va =>
      obtain ⟨-, t, last⟩ := Op.exists_of_bind replied
      exact Or.inl (Except.ok.inj last).symm
  | tryUnmap va =>
      obtain ⟨ending, t, last⟩ := Op.exists_of_bind replied
      cases ending with
      | ok => exact Or.inl (Except.ok.inj last).symm
      | error cause => exact Or.inr (Or.inr ⟨cause, (Except.ok.inj last).symm⟩)
  | unmap va =>
      obtain ⟨ending, t, last⟩ := Op.exists_of_bind replied
      cases ending with
      | ok => exact Or.inl (Except.ok.inj last).symm
      | error cause => cases last
  | drop name =>
      rw [run_drop] at replied
      cases entry : s.kept.find? (·.1 = name) with
      | none =>
          rw [entry] at replied
          exact Or.inr (Or.inl (Except.ok.inj replied).symm)
      | some pair =>
          rw [entry] at replied
          obtain ⟨-, t, last⟩ := Op.exists_of_bind replied
          exact Or.inl (Except.ok.inj last).symm

/-- A mapping of a frame: a permanent one of a frame below the limit, at the fixed distance,
or one at a slot that somebody holds for the frame. -/
inductive MappedAt (s : Session n c) (f : Frame) : Mapping → Prop
  | direct {va : VirtAddr} (low : f.base < s.direct.limit)
      (address : va.toNat = s.direct.base.toNat + f.base.toNat) : MappedAt s f (.direct va)
  | slot {nr : Fin n} {k : Holders} (held : s.pool.slot nr = .held f k) :
      MappedAt s f (.slot (s.pool.address nr))

/-- A mapping is where its kind belongs. -/
def InPlace (s : Session n c) : Mapping → Prop
  | .direct va => s.direct.contains va = true
  | .slot va => ∃ nr, va = s.pool.address nr

theorem inPlace_iff {s' : Session n c} (direct : s'.direct = s.direct)
    (base : s'.pool.base = s.pool.base) : s'.InPlace x ↔ s.InPlace x := by
  cases x with
  | direct va => rw [InPlace, InPlace, direct]
  | slot va => simp only [InPlace, Pool.address_eq base]

theorem MappedAt.inPlace {f : Frame} (mapping : s.MappedAt f x)
    (apart : s.pool.Apart s.direct) : s.InPlace x := by
  cases mapping with
  | direct low address =>
      obtain ⟨va, -, same, inside⟩ := apart.addressOf_covered (DirectMap.covers_iff.mpr low)
      cases VirtAddr.ext (address.trans same.symm)
      exact inside
  | @slot nr => exact ⟨nr, rfl⟩

/-- Nothing is kept but what was kept before or is delivered. -/
theorem mem_keeping {kept : List (String × Mapping)} {result : Except Fault Reply}
    {y : String × Mapping} (mem : y ∈ keeping r kept result) :
    y ∈ kept ∨ result = .ok (.mapped y.2) := by
  rcases result with fault | (x | _ | _ | _ | _ | _)
  case ok.mapped =>
    cases name : r.keepAs with
    | none =>
        simp only [keeping, name] at mem
        exact Or.inl mem
    | some key =>
        simp only [keeping, name] at mem
        rcases List.mem_cons.mp mem with rfl | old
        · exact Or.inr rfl
        · exact Or.inl (List.mem_of_mem_filter old)
  all_goals exact Or.inl mem

/-- The request that a move is about. -/
def request? (s : Session n c) : Move → Option Request
  | .submit r => some r
  | .resume id =>
    (s.sleeping.find? fun call => call.id = id ∧ s.mayResume call).map (·.request)
  | _ => none

/-- A move that asks the pool for a frame. -/
theorem after_of_asks {f : Frame} (asks : s.asks? m = some f) :
    ∃ r id, s.request? m = some r ∧ r.frame = f ∧
      s.reply m = answer id ((Pool.attempt f).run s.pool).result ∧
      (s.after m).pool = ((Pool.attempt f).run s.pool).state ∧
      (s.after m).direct = s.direct ∧ (s.after m).kept = keeping r s.kept (s.reply m) := by
  unfold reply Session.after
  cases m with
  | submit r =>
      by_cases low : r.route = .split ∧ s.direct.covers r.frame
      · rw [asks?, if_pos low] at asks
        cases asks
      · rw [asks?, if_neg low] at asks
        cases asks
        rw [step, run_submit_high s low]
        exact ⟨r, s.nextId, rfl, rfl, rfl, rfl, rfl, rfl⟩
  | resume id =>
      obtain ⟨call, found, rfl⟩ := Option.map_eq_some_iff.mp asks
      rw [request?, run_resume, found]
      dsimp only
      rw [run_wake_again]
      exact ⟨call.request, call.id, rfl, rfl, rfl, rfl, rfl, rfl⟩
  | _ => cases asks

/-- A move that does not ask the pool is answered by the direct map, or delivers nothing. -/
theorem after_of_not_asks (apart : s.pool.Apart s.direct) (asks : s.asks? m = none) :
    (∃ r va, s.request? m = some r ∧ s.direct.covers r.frame = true ∧
        s.direct.addressOf r.frame = .ok va ∧ s.reply m = .ok (.mapped (.direct va)) ∧
        s.after m = { s with kept := keeping r s.kept (s.reply m) }) ∨
      (∀ x, s.reply m ≠ .ok (.mapped x)) ∧
        ∃ pool kept, s.after m = { s with pool, kept } ∧ ∀ x ∈ kept, x ∈ s.kept := by
  by_cases request : ∃ r, m = .submit r
  · obtain ⟨r, rfl⟩ := request
    have low : r.route = .split ∧ s.direct.covers r.frame := by
      by_contra high
      rw [asks?, if_neg high] at asks
      cases asks
    obtain ⟨va, address, -, -⟩ := apart.addressOf_covered low.2
    unfold reply Session.after
    rw [step, run_submit_low s low address]
    exact Or.inl ⟨r, va, rfl, low.2, address, rfl, rfl⟩
  · by_cases resumption : ∃ id, m = .resume id
    · obtain ⟨id, rfl⟩ := resumption
      unfold reply Session.after
      rw [run_resume, Option.map_eq_none_iff.mp asks]
      exact Or.inr ⟨fun x mapped => (by cases mapped), s.pool, s.kept, rfl, fun _ mem => mem⟩
    · have request := not_exists.mp request
      have resumption := not_exists.mp resumption
      refine Or.inr ⟨fun x mapped => ?_, after_giving request resumption⟩
      obtain done | nothing | ⟨cause, refused⟩ := reply_of_giving request resumption mapped
      · cases done
      · cases nothing
      · cases refused

/-- A session in which every kept mapping is in its place. -/
structure Tidy (s : Session n c) : Prop where
  consistent : s.pool.Consistent
  apart : s.pool.Apart s.direct
  inPlace : ∀ y ∈ s.kept, s.InPlace y.2

namespace Tidy

variable (tidy : s.Tidy)

include tidy

theorem direct_after (m : Move) : (s.after m).direct = s.direct := by
  cases asks : s.asks? m with
  | some f =>
      obtain ⟨-, -, -, -, -, -, direct, -⟩ := after_of_asks asks
      exact direct
  | none =>
      obtain ⟨r, va, -, -, -, -, state⟩ | ⟨-, pool, kept, state, -⟩ :=
        after_of_not_asks tidy.apart asks
      · rw [state]
      · rw [state]

/-- Nothing is kept but what was kept before or is delivered. -/
theorem mem_kept {y : String × Mapping} (mem : y ∈ (s.after m).kept) :
    y ∈ s.kept ∨ s.reply m = .ok (.mapped y.2) := by
  cases asks : s.asks? m with
  | some f =>
      obtain ⟨r, id, -, -, -, -, -, kept⟩ := after_of_asks asks
      rw [kept] at mem
      exact mem_keeping mem
  | none =>
      obtain ⟨r, va, -, -, -, -, state⟩ | ⟨-, pool, kept, state, fewer⟩ :=
        after_of_not_asks tidy.apart asks
      · rw [state] at mem
        exact mem_keeping mem
      · rw [state] at mem
        exact Or.inl (fewer y mem)

/-- Whatever is delivered is a mapping of the frame that was asked for, and is kept under
the name that was asked for. -/
theorem delivered (mapped : s.reply m = .ok (.mapped x)) :
    ∃ r, s.request? m = some r ∧ (s.after m).MappedAt r.frame x ∧
      (s.after m).kept = keeping r s.kept (.ok (.mapped x)) := by
  have direct := tidy.direct_after m
  cases asks : s.asks? m with
  | some f =>
      -- the pool grants the slot that the frame is held in afterwards
      obtain ⟨r, id, request, rfl, reply, pool, -, kept⟩ := after_of_asks asks
      rw [mapped] at kept
      refine ⟨r, request, ?_, kept⟩
      rw [reply] at mapped
      have ends := tidy.consistent.run_attempt r.frame
      rcases result : ((Pool.attempt r.frame).run s.pool).result with fault | va | ticket
      · rw [result] at mapped
        cases mapped
      · rw [result] at mapped
        cases mapped
        obtain ⟨nr, k, rfl, held⟩ := ends.address_of_granted result
        rw [← pool] at held
        have base := (run_step tidy.consistent m).base_eq
        rw [← Pool.address_eq base]
        exact .slot held
      · rw [result] at mapped
        cases mapped
  | none =>
      obtain ⟨r, va, request, low, address, reply, state⟩ | ⟨nothing, -⟩ :=
        after_of_not_asks tidy.apart asks
      · rw [reply] at mapped
        cases mapped
        rw [reply] at state
        refine ⟨r, request, .direct ?_ ?_, by rw [state]⟩
        · rw [direct]
          exact DirectMap.covers_iff.mp low
        · rw [direct]
          exact VirtAddr.add_eq_ok_iff.mp address
      · exact absurd mapped (nothing x)

theorem after (m : Move) : (s.after m).Tidy := by
  have transition := run_step tidy.consistent m
  have base := transition.base_eq
  have direct := tidy.direct_after m
  have apart : (s.after m).pool.Apart (s.after m).direct := by
    obtain ⟨fits, reach, apart⟩ := tidy.apart
    rw [Pool.Reaches, ← base] at reach
    rw [← base] at apart
    rw [direct]
    exact ⟨fits, reach, apart⟩
  refine ⟨transition.consistent tidy.consistent, apart, fun y mem => ?_⟩
  rcases tidy.mem_kept mem with old | mapped
  · exact (inPlace_iff direct base).mpr (tidy.inPlace y old)
  · obtain ⟨r, -, mapping, -⟩ := tidy.delivered mapped
    exact mapping.inPlace apart

theorem afterAll (moves : List Move) : (s.afterAll moves).Tidy := by
  induction moves generalizing s with
  | nil => exact tidy
  | cons m later ih => exact ih (tidy.after m)

end Tidy

end Session

end Highmem
