import Highmem.Address

/-!
# Life cycle of a slot

A slot is free, then held by one or more callers, then stale, then free again.
It turns stale when its last holder leaves: its page-table entry is still
programmed and may be cached, so only an invalidation pass may turn it free.
A stale slot can be held again for the same frame without any such pass.

Each transition is a partial function: it is undefined exactly on the states
that the life cycle does not allow.
-/

namespace Highmem

/-- How many callers hold a slot: at least one, and no more than a word counts. -/
@[ext] structure Holders where
  toNat : Nat
  inRange : 0 < toNat ∧ toNat < wordCount
  deriving DecidableEq

namespace Holders

def one : Holders := ⟨1, by decide⟩

/-- A holder more. The largest count stays as it is. -/
def more (h : Holders) : Holders :=
  if fits : h.toNat + 1 < wordCount then ⟨h.toNat + 1, Nat.succ_pos _, fits⟩ else h

/-- A holder less, if another one remains. -/
def less? (h : Holders) : Option Holders :=
  if remains : 0 < h.toNat - 1 then
    some ⟨h.toNat - 1, remains, Nat.lt_of_le_of_lt (Nat.sub_le _ _) h.inRange.2⟩
  else none

/-- The count with a given numeric value, if it is in range. -/
def ofNat? (k : Nat) : Option Holders :=
  if h : 0 < k ∧ k < wordCount then some ⟨k, h⟩ else none

theorem toNat_more {h : Holders} (fits : h.toNat + 1 < wordCount) :
    h.more.toNat = h.toNat + 1 := by
  unfold more
  rw [dif_pos fits]

theorem less?_eq_some_iff {h k : Holders} : h.less? = some k ↔ h.toNat = k.toNat + 1 := by
  have := k.inRange.1
  unfold less?
  split <;> simp [Holders.ext_iff] <;> omega

theorem less?_eq_none_iff {h : Holders} : h.less? = none ↔ h.toNat = 1 := by
  have := h.inRange.1
  unfold less?
  split <;> simp <;> omega

end Holders

/-- State of one slot. -/
inductive Slot where
  /-- Unmapped and invalidated since its last use. -/
  | free
  /-- Without holders, while its page-table entry still maps `frame`. -/
  | stale (frame : Frame)
  /-- Mapping `frame` on behalf of its holders. -/
  | held (frame : Frame) (holders : Holders)
  deriving DecidableEq

namespace Slot

def frame? : Slot → Option Frame
  | free => none
  | stale frame => some frame
  | held frame _ => some frame

def holders : Slot → Nat
  | held _ holders => holders.toNat
  | _ => 0

def isFree : Slot → Bool
  | free => true
  | _ => false

def isStale : Slot → Bool
  | stale _ => true
  | _ => false

def isHeld : Slot → Bool
  | held _ _ => true
  | _ => false

/-- The state as one counter: zero when free, one when stale, and one above the
number of holders when held. -/
def count : Slot → Except Overflow Nat
  | free => .ok 0
  | stale _ => .ok 1
  | held _ holders => Word.add holders.toNat 1

def label : Slot → String
  | free => "Free"
  | stale frame => s!"Stale({frame.label})"
  | held frame holders =>
    Text.record "Held" [("frame", frame.label), ("holders", toString holders.toNat)]

/-- Bind a free slot to `frame`, with one holder. -/
def bind? (frame : Frame) : Slot → Option Slot
  | free => some (held frame .one)
  | _ => none

/-- Add a holder to a bound slot; a stale slot is revived with one. -/
def share? : Slot → Option Slot
  | free => none
  | stale frame => some (held frame .one)
  | held frame holders => some (held frame holders.more)

/-- Remove a holder from a held slot; the last one leaves it stale. -/
def release? : Slot → Option Slot
  | held frame holders =>
    match holders.less? with
    | some fewer => some (held frame fewer)
    | none => some (stale frame)
  | _ => none

/-- The frame that a stale slot gives up when it is turned free. -/
def reclaim? : Slot → Option Frame
  | stale frame => some frame
  | _ => none

@[simp] theorem isFree_iff {s : Slot} : s.isFree = true ↔ s = free := by cases s <;> simp [isFree]

theorem frame?_eq_none_iff {s : Slot} : s.frame? = none ↔ s = free := by
  cases s <;> simp [frame?]

theorem bind?_eq_none_iff {s : Slot} {frame : Frame} : s.bind? frame = none ↔ s ≠ free := by
  cases s <;> grind [bind?]

theorem share?_eq_none_iff {s : Slot} : s.share? = none ↔ s = free := by
  cases s <;> grind [share?]

theorem release?_eq_none_iff {s : Slot} : s.release? = none ↔ s.isHeld = false := by
  cases s <;> grind [release?, isHeld]

theorem reclaim?_eq_some_iff {s : Slot} {frame : Frame} :
    s.reclaim? = some frame ↔ s = stale frame := by
  cases s <;> simp [reclaim?]

/-- Sharing and releasing keep the binding. -/
theorem frame?_of_share? {s t : Slot} (h : s.share? = some t) : t.frame? = s.frame? := by
  cases s <;> grind [share?, frame?]

theorem frame?_of_release? {s t : Slot} (h : s.release? = some t) : t.frame? = s.frame? := by
  cases s <;> grind [release?, frame?]

end Slot

end Highmem
