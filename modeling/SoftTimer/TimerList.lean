import SoftTimer.Table
import SoftTimer.Timer

/-!
# The list of armed timers

The timers armed on a scheduler form a list in order of deadline, threaded through the `prev` and
`next` cells of the timers themselves.  Timers with equal deadlines stand in the order in which they
were inserted.  A new timer is placed by walking back from the end, since new deadlines are mostly
late ones.

Main definitions:

- `TimerList`: the ends and the length of a list.
- `Threaded`: a list together with the cells it runs through.
- `Threaded.insert`, `Threaded.remove`, `Threaded.popExpired`: the operations on it.
- `Threaded.contents`: the timers on it, from the first to the last.

Main results:

- Theorem `Threaded.popExpired_eq_none_iff`: nothing is taken out exactly when the list is empty or
  its first deadline lies ahead.
- Theorems `Threaded.follow_none` and `Threaded.follow_succ`: how the contents are read off the
  links.
-/

namespace SoftTimer

/-- The ends and the length of a list of timers. -/
structure TimerList (n : Nat) where
  /-- The first timer. -/
  head : Option (Fin n) := none
  /-- The last timer. -/
  tail : Option (Fin n) := none
  /-- The number of timers. -/
  len : Nat := 0
deriving DecidableEq

/-- The cells of all timers. -/
abbrev Cells (m n : Nat) := Table n (Timer m n)

/-- A list of timers together with the cells it runs through. -/
structure Threaded (m n : Nat) where
  /-- The ends of the list. -/
  list : TimerList n
  /-- The cells of all timers. -/
  cells : Cells m n
deriving DecidableEq

namespace Threaded

variable {m n : Nat}

/-! ## Places in the list

A place is given by the timer before it, or after it; `none` stands for the end of the list on
that side. -/

/-- The timer that follows a place. -/
def follower (x : Threaded m n) : Option (Fin n) → Option (Fin n)
  | none => x.list.head
  | some p => (x.cells.get p).next

/-- Let a place be followed by a timer, or by nothing. -/
def setFollower (x : Threaded m n) (place timer : Option (Fin n)) : Threaded m n :=
  match place with
  | none => { x with list.head := timer }
  | some p => { x with cells := x.cells.modify p fun c => { c with next := timer } }

/-- Let a place be preceded by a timer, or by nothing. -/
def setLeader (x : Threaded m n) (place timer : Option (Fin n)) : Threaded m n :=
  match place with
  | none => { x with list.tail := timer }
  | some p => { x with cells := x.cells.modify p fun c => { c with prev := timer } }

/-- Set both links of a timer. -/
def setLinks (x : Threaded m n) (t : Fin n) (prev next : Option (Fin n)) : Threaded m n :=
  { x with cells := x.cells.modify t fun c => { c with prev, next } }

/-- Walk back from a timer to the last one whose deadline is not after `deadline`. -/
def seekBack (cells : Cells m n) (deadline : Timespec) :
    Nat → Option (Fin n) → Option (Fin n)
  | _, none => none
  | 0, some _ => none
  | steps + 1, some t =>
    if (cells.get t).deadline ≤ deadline then some t
    else seekBack cells deadline steps (cells.get t).prev

/-- The last timer of the list whose deadline is not after `deadline`.  A list has at most `n`
timers, so `n` steps back reach its start. -/
def lastBy (x : Threaded m n) (deadline : Timespec) : Option (Fin n) :=
  seekBack x.cells deadline n x.list.tail

/-! ## Operations -/

/-- Link a timer in after every timer whose deadline is not after its own, and report whether it
became the first one. -/
def insert (x : Threaded m n) (t : Fin n) : Bool × Threaded m n :=
  let place := x.lastBy (x.cells.get t).deadline
  let next := x.follower place
  let x := (((x.setFollower place (some t)).setLinks t place next).setLeader next (some t))
  (place.isNone, { x with list.len := x.list.len + 1 })

/-- Whether a timer is linked into the list, as far as its own links and the head show. -/
def isLinked (x : Threaded m n) (t : Fin n) : Bool :=
  (x.cells.get t).prev.isSome || x.list.head == some t

/-- Unlink a timer of the list, and report whether it was the first one. -/
def remove (x : Threaded m n) (t : Fin n) : Bool × Threaded m n :=
  let prev := (x.cells.get t).prev
  let next := (x.cells.get t).next
  let x := (((x.setLinks t none none).setFollower prev next).setLeader next prev)
  (prev.isNone, { x with list.len := x.list.len - 1 })

/-- The first timer, if its deadline is not after `now`. -/
def expired? (x : Threaded m n) (now : Timespec) : Option (Fin n) :=
  x.list.head.filter fun t => decide ((x.cells.get t).deadline ≤ now)

/-- Take out the first timer if its deadline is not after `now`. -/
def popExpired (x : Threaded m n) (now : Timespec) : Option (Fin n × Threaded m n) :=
  (x.expired? now).map fun t => (t, (x.remove t).2)

/-! ## Contents -/

/-- At most `steps` timers, following the `next` links. -/
def follow (cells : Cells m n) : Nat → Option (Fin n) → List (Fin n)
  | _, none => []
  | 0, some _ => []
  | steps + 1, some t => t :: follow cells steps (cells.get t).next

/-- The timers of the list, from the first to the last. -/
def contents (x : Threaded m n) : List (Fin n) :=
  follow x.cells n x.list.head

@[simp]
theorem follow_none (cells : Cells m n) (steps : Nat) : follow cells steps none = [] := by
  cases steps <;> rfl

@[simp]
theorem follow_succ (cells : Cells m n) (steps : Nat) (t : Fin n) :
    follow cells (steps + 1) (some t) = t :: follow cells steps (cells.get t).next :=
  rfl

/-- Nothing is popped exactly if the list is empty or its head is not due. -/
theorem popExpired_eq_none_iff {x : Threaded m n} {now : Timespec} :
    x.popExpired now = none ↔
      ∀ t, x.list.head = some t → ¬ (x.cells.get t).deadline ≤ now := by
  simp only [popExpired, expired?, Option.map_eq_none_iff, Option.filter_eq_none_iff,
    decide_eq_true_eq]

end Threaded
end SoftTimer
