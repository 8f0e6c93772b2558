import SoftTimer.Request
import SoftTimer.Timeout

/-!
# Events

What happens while a system runs, step by step: its log lines, its use of the critical regions and
of the hardware timeouts, and the course of its passes.

Main definitions:

- `LogLine`: a line of the log, with `LogLine.level` and `LogLine.text`.
- `Event`: an entry in the trace of a system.
-/

namespace SoftTimer

/-! ## Log lines -/

/-- How serious a log line is. -/
inductive LogLevel where
  /-- Something was refused or given up. -/
  | warn
  /-- Something went its usual way. -/
  | trace
deriving DecidableEq

/-- A line of the log. -/
inductive LogLine where
  /-- A command was refused because of the state of the timer. -/
  | rejected (cause : Conflict)
  /-- A dispatch was ignored because a pass was under way. -/
  | reentered (now : Timespec)
  /-- A periodic timer was given up: its next deadline after `previous` cannot be represented. -/
  | overflow (previous : Timespec)
  /-- A pass ended with a number of timers armed. -/
  | finished (now : Timespec) (armed : Nat)
deriving DecidableEq

namespace LogLine

/-- How serious a line is. -/
def level : LogLine → LogLevel
  | finished _ _ => .trace
  | _ => .warn

/-- The wording of a line. -/
def text : LogLine → String
  | rejected cause => cause.report
  | reentered now => "timer dispatch re-entered at " ++ now.text ++ ", ignoring"
  | overflow previous => "periodic timer stopped: deadline overflow after " ++ previous.text
  | finished now armed =>
    "timer dispatch at " ++ now.text ++ " done, " ++ armed.repr ++ " armed"

end LogLine

/-! ## The trace -/

/-- A broken assertion. -/
inductive Fault where
  /-- A timer was to be unlinked that is not linked into the list. -/
  | notLinked
  /-- A timer was to be unlinked from a list that counts no timers. -/
  | nothingCounted
  /-- A critical region was to be left out of order. -/
  | regionOrder
deriving DecidableEq

/-- An entry in the trace of a system with `m` schedulers and `n` timers. -/
inductive Event (m n : Nat) where
  /-- The region of `s` was entered. -/
  | entered (s : Fin m)
  /-- The region of `s` was left. -/
  | left (s : Fin m)
  /-- The hardware timeout of `s` was called. -/
  | timeout (s : Fin m) (call : TimeoutEvent)
  /-- The scheduler `s` wrote a line to the log. -/
  | logged (s : Fin m) (line : LogLine)
  /-- A command or query through `s` was answered. -/
  | answered (s : Fin m) (request : Request (Option (Fin n))) (reply : Reply n)
  /-- The timer was linked into the list of `s`. -/
  | inserted (s : Fin m) (timer : Fin n) (deadline : Timespec)
  /-- A pass of `s` began. -/
  | began (s : Fin m) (now : Timespec)
  /-- The pass of `s` took an expired timer out of the list. -/
  | detached (s : Fin m) (timer : Fin n) (deadline : Timespec)
  /-- The pass of `s` came to a timer. -/
  | visited (s : Fin m) (timer : Fin n)
  /-- The pass of `s` called a timer. -/
  | called (s : Fin m) (timer : Fin n) (callback : CallbackId) (arg : CallbackArg)
  /-- The pass of `s` ended. -/
  | finished (s : Fin m)
  /-- An assertion of `s` was broken. -/
  | fault (s : Fin m) (fault : Fault)
deriving DecidableEq

end SoftTimer
