import SoftTimer.System.Basic

/-!
# Queries

Looking at timers and schedulers.  A query about a timer enters the region of the scheduler that is
asked, unless no timer is named; then there is nothing to look at.

Main definitions:

- `System.look`: run a query on a timer inside the region.
- `System.query`: answer any query.
- `Timer.deadline?`, `Timer.period?`, `Timer.priority?`, `Timer.arg?`: what a timer shows of itself.
- `System.summary`: the state of a scheduler in short.
-/

namespace SoftTimer

namespace Timer

variable {m n : Nat}

/-- The deadline, if the timer is armed. -/
def deadline? (t : Timer m n) : Option Timespec :=
  if t.armed then some t.deadline else none

/-- The period, if the timer is armed and periodic. -/
def period? (t : Timer m n) : Option Timespec :=
  if t.armed && t.isPeriodic then some t.period else none

/-- The class, if the timer is armed. -/
def priority? (t : Timer m n) : Option PriorityClass :=
  if t.armed then some t.priority else none

/-- The argument, if a callback is bound. -/
def arg? (t : Timer m n) : Option CallbackArg :=
  t.callback.map fun _ => t.arg

end Timer

/-- The outline of the state of a scheduler. -/
def Summary.outline (x : Summary) : Outline :=
  .record "TimerScheduler"
    (.field "armed" (.ofNat x.armed)
      (.field "next_deadline" (.ofOption (x.nextDeadline.map Timespec.outline))
        (.field "dispatching" (.ofBool x.dispatching) (.done true))))

namespace System

variable {m n : Nat}

/-- The state of a scheduler in short. -/
def summary (sys : System m n) (s : Fin m) : Summary where
  armed := (sys.scheduler s).list.len
  nextDeadline := sys.nextDeadline s
  dispatching := (sys.scheduler s).dispatching

/-- Look at a system inside the region of a scheduler. -/
def inspect {α : Type} (s : Fin m) (view : System m n → α) (sys : System m n) : α × System m n :=
  sys.locked s fun sys => (view sys, sys)

/-- Look at a timer inside the region of a scheduler.  Without a timer the region is not entered,
and `absent` is the answer. -/
def look {α : Type} (s : Fin m) (timer : Option (Fin n)) (absent : α) (view : Timer m n → α)
    (sys : System m n) : α × System m n :=
  match timer with
  | some t => sys.inspect s fun sys => view (sys.timer t)
  | none => (absent, sys)

/-- Answer a query. -/
def query (sys : System m n) (s : Fin m) : Query (Option (Fin n)) → Answer × System m n
  | .isArmed timer => sys.look s timer (.flag false) fun t => .flag t.armed
  | .isInitialized timer => sys.look s timer (.flag false) fun t => .flag t.callback.isSome
  | .deadline timer => sys.look s timer (.time none) fun t => .time t.deadline?
  | .period timer => sys.look s timer (.time none) fun t => .time t.period?
  | .priority timer => sys.look s timer (.priority none) fun t => .priority t.priority?
  | .callbackArg timer => sys.look s timer (.arg none) fun t => .arg t.arg?
  | .nextDeadline => sys.inspect s fun sys => .time (sys.nextDeadline s)
  | .armedCount => sys.inspect s fun sys => .count (sys.scheduler s).list.len
  | .summary => sys.inspect s fun sys => .summary (sys.summary s)

end System
end SoftTimer
