import SoftTimer.Event
import SoftTimer.Region
import SoftTimer.TimerList

/-!
# Systems of schedulers

A system has `m` schedulers, each with a list of armed timers, a critical region and a hardware
timeout, and `n` timers that they share.  What happens is recorded in a trace.

Main definitions:

- `Scheduler`, `System`: the state.
- `System.locked`: run a piece of work inside the critical region of a scheduler.
- `System.link`, `System.unlink`, `System.unlinkExpired`: put a timer into the list of a scheduler
  and take it out.
- `System.program`: point the hardware timeout at the head of the list.

Main results:

- Theorems about `modifyTimer` and `modifyScheduler`: a change of one cell leaves the others alone.
-/

namespace SoftTimer

/-- The state of one scheduler. -/
structure Scheduler (n : Nat) where
  /-- The timers armed on it. -/
  list : TimerList n := {}
  /-- Whether a pass is under way. -/
  dispatching : Bool := false
  /-- Its critical region. -/
  region : Region
  /-- Its hardware timeout. -/
  timeout : RecordingTimeout := {}
deriving DecidableEq

/-- A system of `m` schedulers and `n` timers. -/
structure System (m n : Nat) where
  /-- The schedulers. -/
  schedulers : Table m (Scheduler n)
  /-- The cells of the timers. -/
  timers : Cells m n
  /-- What happened, the latest first. -/
  trace : List (Event m n) := []
deriving DecidableEq

namespace System

variable {m n : Nat}

/-- A system at its start, given the kinds of the critical regions: blank timers, empty lists, and
nothing pending. -/
def initial (kinds : Fin m → RegionKind) : System m n where
  schedulers := .ofFn fun s => { region := .fresh (kinds s) }
  timers := .fill {}

/-! ## Cells -/

/-- The state of a scheduler. -/
def scheduler (sys : System m n) (s : Fin m) : Scheduler n :=
  sys.schedulers.get s

/-- The cells of a timer. -/
def timer (sys : System m n) (t : Fin n) : Timer m n :=
  sys.timers.get t

/-- Change the state of a scheduler. -/
def modifyScheduler (sys : System m n) (s : Fin m) (f : Scheduler n → Scheduler n) :
    System m n :=
  { sys with schedulers := sys.schedulers.modify s f }

/-- Change the cells of a timer. -/
def modifyTimer (sys : System m n) (t : Fin n) (f : Timer m n → Timer m n) : System m n :=
  { sys with timers := sys.timers.modify t f }

/-- Add an event to the trace. -/
def emit (sys : System m n) (e : Event m n) : System m n :=
  { sys with trace := e :: sys.trace }

/-- Let a scheduler write a line to the log. -/
def log (sys : System m n) (s : Fin m) (line : LogLine) : System m n :=
  sys.emit (.logged s line)

@[simp]
theorem timer_modifyTimer_self (sys : System m n) (t : Fin n) (f : Timer m n → Timer m n) :
    (sys.modifyTimer t f).timer t = f (sys.timer t) :=
  Table.get_modify_self _ _ _

/-- Changing the cells of one timer leaves those of the others as they are. -/
theorem timer_modifyTimer_of_ne (sys : System m n) {t u : Fin n} (h : u ≠ t)
    (f : Timer m n → Timer m n) : (sys.modifyTimer t f).timer u = sys.timer u :=
  Table.get_modify_of_ne _ h _

@[simp]
theorem scheduler_modifyScheduler_self (sys : System m n) (s : Fin m)
    (f : Scheduler n → Scheduler n) :
    (sys.modifyScheduler s f).scheduler s = f (sys.scheduler s) :=
  Table.get_modify_self _ _ _

/-- Changing one scheduler leaves the others as they are. -/
theorem scheduler_modifyScheduler_of_ne (sys : System m n) {s r : Fin m} (h : r ≠ s)
    (f : Scheduler n → Scheduler n) :
    (sys.modifyScheduler s f).scheduler r = sys.scheduler r :=
  Table.get_modify_of_ne _ h _

@[simp]
theorem scheduler_modifyTimer (sys : System m n) (t : Fin n) (f : Timer m n → Timer m n)
    (s : Fin m) : (sys.modifyTimer t f).scheduler s = sys.scheduler s :=
  rfl

@[simp]
theorem timer_modifyScheduler (sys : System m n) (s : Fin m) (f : Scheduler n → Scheduler n)
    (t : Fin n) : (sys.modifyScheduler s f).timer t = sys.timer t :=
  rfl

/-! ## The critical region -/

/-- Enter the region of a scheduler. -/
def enter (sys : System m n) (s : Fin m) : Nat × System m n :=
  let (restore, region) := (sys.scheduler s).region.enter
  (restore, (sys.modifyScheduler s fun c => { c with region }).emit (.entered s))

/-- Leave the region of a scheduler; doing so out of order is a fault. -/
def leave (sys : System m n) (s : Fin m) (restore : Nat) : System m n :=
  match (sys.scheduler s).region.exit? restore with
  | some region => (sys.modifyScheduler s fun c => { c with region }).emit (.left s)
  | none => sys.emit (.fault s .regionOrder)

/-- Run a piece of work inside the region of a scheduler. -/
def locked {α : Type} (s : Fin m) (work : System m n → α × System m n) (sys : System m n) :
    α × System m n :=
  let (restore, sys) := sys.enter s
  let (result, sys) := work sys
  (result, sys.leave s restore)

/-! ## The hardware timeout -/

/-- Make a call on the hardware timeout of a scheduler. -/
def callTimeout (sys : System m n) (s : Fin m) (call : TimeoutEvent) : System m n :=
  (sys.modifyScheduler s fun c => { c with timeout := c.timeout.apply call }).emit
    (.timeout s call)

/-- The earliest deadline of a scheduler: that of the head of its list. -/
def nextDeadline (sys : System m n) (s : Fin m) : Option Timespec :=
  (sys.scheduler s).list.head.map fun t => (sys.timer t).deadline

/-- Point the hardware timeout at the head of the list, or at nothing. -/
def program (sys : System m n) (s : Fin m) : System m n :=
  let sys := sys.callTimeout s .canceled
  match sys.nextDeadline s with
  | some deadline => sys.callTimeout s (.armed deadline)
  | none => sys

/-! ## The list -/

/-- The list of a scheduler with the cells it runs through. -/
def threaded (sys : System m n) (s : Fin m) : Threaded m n :=
  ⟨(sys.scheduler s).list, sys.timers⟩

/-- Put a list and its cells back. -/
def setThreaded (sys : System m n) (s : Fin m) (x : Threaded m n) : System m n :=
  { sys with
    schedulers := sys.schedulers.modify s fun c => { c with list := x.list }
    timers := x.cells }

/-- Put a timer into the list of a scheduler, and report whether it became the head. -/
def link (sys : System m n) (s : Fin m) (t : Fin n) : Bool × System m n :=
  let (first, x) := (sys.threaded s).insert t
  (first, (sys.setThreaded s x).emit (.inserted s t (sys.timer t).deadline))

/-- Record a fault if a timer that is about to be unlinked is not linked into the list of a
scheduler, or if that list counts no timers. -/
def expectLinked (sys : System m n) (s : Fin m) (t : Fin n) : System m n :=
  let sys := if (sys.threaded s).isLinked t then sys else sys.emit (.fault s .notLinked)
  if (sys.scheduler s).list.len = 0 then sys.emit (.fault s .nothingCounted) else sys

/-- Take a timer out of the list of a scheduler, and report whether it was the head. -/
def unlink (sys : System m n) (s : Fin m) (t : Fin n) : Bool × System m n :=
  let (first, x) := (sys.threaded s).remove t
  (first, (sys.expectLinked s t).setThreaded s x)

/-- Take the head out of the list of a scheduler if its deadline is not after `now`. -/
def unlinkExpired (sys : System m n) (s : Fin m) (now : Timespec) : Option (Fin n × System m n) :=
  ((sys.threaded s).popExpired now).map fun (t, x) =>
    (t, (sys.expectLinked s t).setThreaded s x)

/-- The timers armed on a scheduler, in the order of their deadlines. -/
def armedTimers (sys : System m n) (s : Fin m) : List (Fin n) :=
  (sys.threaded s).contents

/-- How often counting regions are held at present, over all schedulers. -/
def regionDepth (sys : System m n) : Nat :=
  sys.schedulers.toList.foldl (fun depth c => depth + c.region.depth) 0

/-- Start counting anew: region counters and recorded timeout calls of every scheduler. -/
def resetRecords (sys : System m n) : System m n :=
  { sys with
    schedulers := sys.schedulers.map fun c =>
      { c with region := c.region.resetCounts, timeout := c.timeout.clearHistory } }

end System
end SoftTimer
