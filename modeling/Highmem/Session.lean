import Highmem.DirectMap
import Highmem.Pool.Acquire
import Highmem.Pool.Release
import Highmem.Pool.Inspect

/-!
# Callers of a pool

A session is a pool together with its callers: the calls that are asleep, and
the mappings that callers keep under a name until they drop them. A `Move` is one
critical section of one caller. The moves of different callers can come in any
order; in particular a sleeping call may resume at any time after its ticket was
served.

`settle` is one particular order: the call whose turn came first resumes, until
no sleeping call may resume.
-/

namespace Highmem

open Sync

/-- A mapped frame, as its user sees it. -/
inductive Mapping where
  /-- A permanent address, which need not be given back. -/
  | direct (va : VirtAddr)
  /-- A slot address. -/
  | slot (va : VirtAddr)
  deriving DecidableEq

def Mapping.address : Mapping → VirtAddr
  | direct va => va
  | slot va => va

/-- Which addresses a request accepts. -/
inductive Route where
  /-- Only a slot. -/
  | slots
  /-- The direct map for the frames that it covers, and a slot for the others. -/
  | split
  deriving DecidableEq

/-- A request for a mapping of a frame. -/
structure Request where
  frame : Frame
  route : Route
  /-- The name under which the mapping is kept until it is dropped. -/
  keepAs : Option String
  deriving DecidableEq

/-- A call that is asleep. -/
structure SleepingCall where
  id : Nat
  ticket : Ticket
  request : Request
  deriving DecidableEq

/-- A pool and its callers. -/
structure Session (n c : Nat) where
  direct : DirectMap
  pool : Pool n c
  /-- In the order in which the tickets were drawn. -/
  sleeping : List SleepingCall
  /-- The mappings that are kept, each under its name. -/
  kept : List (String × Mapping)
  /-- Identity of the next call that falls asleep. -/
  nextId : Nat

/-- One critical section of one caller. -/
inductive Move where
  /-- Ask for a mapping. -/
  | submit (request : Request)
  /-- Go on with a sleeping call whose ticket was served. -/
  | resume (id : Nat)
  /-- Release a slot address, or learn why that is not possible. -/
  | tryRelease (va : VirtAddr)
  /-- Release a slot address that must be held. -/
  | release (va : VirtAddr)
  /-- Release any address: a permanent one is accepted and nothing happens. -/
  | tryUnmap (va : VirtAddr)
  /-- Release any address that must be permanent or held. -/
  | unmap (va : VirtAddr)
  /-- Drop the mapping that is kept under a name. -/
  | drop (name : String)
  deriving DecidableEq

/-- What a caller learns from a move. -/
inductive Reply where
  | mapped (m : Mapping)
  /-- The call fell asleep, under this identity. -/
  | asleep (id : Nat)
  | done
  | refused (cause : ReleaseError)
  /-- Nothing is kept under the name. -/
  | nothingKept
  /-- The call does not exist, or its ticket was not served. -/
  | notServed
  deriving DecidableEq

/-- A call that fell asleep and has returned. -/
structure Finished where
  id : Nat
  request : Request
  result : Except Fault Mapping

namespace Session

variable {n c : Nat}

/-- A pool without callers. -/
def start (direct : DirectMap) (pool : Pool n c) : Session n c := ⟨direct, pool, [], [], 0⟩

def onPool {α : Type} (op : Op (Pool n c) α) : Op (Session n c) α :=
  Op.within pool (fun pool s => { s with pool }) op

/-- Hand a mapping to the caller, who may keep it. A mapping that was kept under
the same name is forgotten without being released. -/
def deliver (r : Request) (m : Mapping) : Op (Session n c) Mapping := do
  match r.keepAs with
  | none => return m
  | some name =>
    modify fun s => { s with kept := (name, m) :: s.kept.filter (·.1 ≠ name) }
    return m

/-- Deliver what the pool granted, or put the call to sleep under an identity. -/
def conclude (id : Nat) (r : Request) : Pool.Grant → Op (Session n c) Reply
  | .granted va => do
    let m ← deliver r (.slot va)
    return .mapped m
  | .parked ticket => do
    modify fun s => { s with sleeping := s.sleeping ++ [⟨id, ticket, r⟩] }
    return .asleep id

def submit (r : Request) : Op (Session n c) Reply := do
  let s ← get
  if r.route = .split ∧ s.direct.covers r.frame then
    let va ← s.direct.addressOf r.frame
    let m ← deliver r (.direct va)
    return .mapped m
  else
    match ← onPool (Pool.attempt r.frame) with
    | .granted va => conclude s.nextId r (.granted va)
    | .parked ticket =>
      modify fun s => { s with nextId := s.nextId + 1 }
      conclude s.nextId r (.parked ticket)

/-- Go on with a sleeping call. A call that finds nothing again keeps its
identity and sleeps behind all others. -/
def wake (call : SleepingCall) : Op (Session n c) Reply := do
  modify fun s => { s with sleeping := s.sleeping.filter (·.id ≠ call.id) }
  let grant ← onPool (Pool.retry call.request.frame)
  conclude call.id call.request grant

def mayResume (s : Session n c) (call : SleepingCall) : Bool :=
  s.pool.tickets.isServed call.ticket

/-- Release a slot address or accept a permanent one. -/
def tryUnmap (va : VirtAddr) : Op (Session n c) (Except ReleaseError Unit) := do
  let s ← get
  if s.direct.contains va then return .ok () else onPool (Pool.tryRelease va)

def giveBack : Mapping → Op (Session n c) Unit
  | .direct _ => return ()
  | .slot va => onPool (Pool.release va)

def step : Move → Op (Session n c) Reply
  | .submit r => submit r
  | .resume id => do
    let s ← get
    match s.sleeping.find? fun call => call.id = id ∧ s.mayResume call with
    | none => return .notServed
    | some call => wake call
  | .tryRelease va => do
    match ← onPool (Pool.tryRelease va) with
    | .ok () => return .done
    | .error e => return .refused e
  | .release va => do
    onPool (Pool.release va)
    return .done
  | .tryUnmap va => do
    match ← tryUnmap va with
    | .ok () => return .done
    | .error e => return .refused e
  | .unmap va => do
    match ← tryUnmap va with
    | .ok () => return .done
    | .error e => Op.fail (.releaseRefused e)
  | .drop name => do
    let s ← get
    match s.kept.find? (·.1 = name) with
    | none => return .nothingKept
    | some (_, m) =>
      set { s with kept := s.kept.filter (·.1 ≠ name) }
      giveBack m
      return .done

/-- Resume served calls, oldest ticket first, `resumptions` times at most, and
answer those that returned. -/
def settleWithin : (resumptions : Nat) → Op (Session n c) (List Finished)
  | 0 => return []
  | resumptions + 1 => do
    let s ← get
    match s.sleeping.find? s.mayResume with
    | none => return []
    | some call =>
      let reply ← (step (.resume call.id)).ending
      let later ← settleWithin resumptions
      match reply with
      | .ok (.mapped m) => return ⟨call.id, call.request, .ok m⟩ :: later
      | .ok _ => return later
      | .error e => return ⟨call.id, call.request, .error e⟩ :: later

/-- Resume served calls until there is none. A resumption either ends the call, and
then serves one other ticket at most, or leaves the call asleep with a new ticket
and serves none. The number of sleeping calls plus that of the served ones among
them thus shrinks each time, and it begins at twice the former at most. -/
def settle : Op (Session n c) (List Finished) := do
  let s ← get
  settleWithin (2 * s.sleeping.length)

/-- The address of a frame without mapping it: a frame that is not covered by the
direct map has one only while it is bound. -/
def addressOf? (s : Session n c) (f : Frame) : Except Overflow (Option VirtAddr) :=
  if s.direct.covers f then (s.direct.addressOf f).map some
  else .ok (s.pool.addressOf? f)

end Session

end Highmem
