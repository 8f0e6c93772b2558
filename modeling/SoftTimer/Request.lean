import SoftTimer.Refusal
import SoftTimer.Timer

/-!
# Requests and answers

What a client asks of a scheduler and what it hears.  Requests name timers by references of any
type `ρ`, so that a script can name them in its own way.

Main definitions:

- `Command`, `Query`, `Request`: commands change timers, queries look, a dispatch serves expiries.
- `Answer`: what a query comes to.
- `Reply`: what a client hears, among it that a callback now runs.
-/

namespace SoftTimer

/-- A request to change a timer. -/
inductive Command (ρ : Type) where
  /-- Bind a callback and an argument. -/
  | init (timer : ρ) (callback : Option CallbackId) (arg : CallbackArg)
  /-- Disarm the timer and take its binding away. -/
  | deinit (timer : ρ)
  /-- Arm the timer for a deadline, again and again if a period is given. -/
  | arm (timer : ρ) (priority : PriorityClass) (deadline period : Option Timespec)
  /-- Disarm the timer. -/
  | cancel (timer : ρ)
deriving DecidableEq

/-- A request to look at a timer or a scheduler. -/
inductive Query (ρ : Type) where
  /-- Whether a timer is armed. -/
  | isArmed (timer : ρ)
  /-- Whether a callback is bound. -/
  | isInitialized (timer : ρ)
  /-- The deadline of an armed timer. -/
  | deadline (timer : ρ)
  /-- The period of an armed periodic timer. -/
  | period (timer : ρ)
  /-- The class of an armed timer. -/
  | priority (timer : ρ)
  /-- The argument of a bound timer. -/
  | callbackArg (timer : ρ)
  /-- The earliest deadline of the scheduler. -/
  | nextDeadline
  /-- The number of timers armed on the scheduler. -/
  | armedCount
  /-- The state of the scheduler in short. -/
  | summary
deriving DecidableEq

/-- What a client asks of a scheduler. -/
inductive Request (ρ : Type) where
  /-- Change a timer. -/
  | command (c : Command ρ)
  /-- Look at something. -/
  | query (q : Query ρ)
  /-- Serve the timers that are due at a time. -/
  | dispatch (now : Timespec)
deriving DecidableEq

/-! ## References -/

/-- Name the timer of a command in another way. -/
def Command.map {ρ σ : Type} (f : ρ → σ) : Command ρ → Command σ
  | .init timer callback arg => .init (f timer) callback arg
  | .deinit timer => .deinit (f timer)
  | .arm timer priority deadline period => .arm (f timer) priority deadline period
  | .cancel timer => .cancel (f timer)

/-- Name the timer of a query in another way. -/
def Query.map {ρ σ : Type} (f : ρ → σ) : Query ρ → Query σ
  | .isArmed timer => .isArmed (f timer)
  | .isInitialized timer => .isInitialized (f timer)
  | .deadline timer => .deadline (f timer)
  | .period timer => .period (f timer)
  | .priority timer => .priority (f timer)
  | .callbackArg timer => .callbackArg (f timer)
  | .nextDeadline => .nextDeadline
  | .armedCount => .armedCount
  | .summary => .summary

/-- Name the timers of a request in another way. -/
def Request.map {ρ σ : Type} (f : ρ → σ) : Request ρ → Request σ
  | .command c => .command (c.map f)
  | .query q => .query (q.map f)
  | .dispatch now => .dispatch now

/-! ## Answers -/

/-- The state of a scheduler in short. -/
structure Summary where
  /-- The number of armed timers. -/
  armed : Nat
  /-- The earliest deadline. -/
  nextDeadline : Option Timespec
  /-- Whether a pass is under way. -/
  dispatching : Bool
deriving DecidableEq

/-- What a query comes to. -/
inductive Answer where
  /-- A truth value. -/
  | flag (value : Bool)
  /-- A time, if there is one. -/
  | time (value : Option Timespec)
  /-- A class, if there is one. -/
  | priority (value : Option PriorityClass)
  /-- An argument, if one is bound. -/
  | arg (value : Option CallbackArg)
  /-- A number. -/
  | count (value : Nat)
  /-- The state of a scheduler. -/
  | summary (value : Summary)
deriving DecidableEq

/-- What a client hears after a step. -/
inductive Reply (n : Nat) where
  /-- The command was carried out. -/
  | accepted
  /-- The command was refused. -/
  | refused (cause : Refusal)
  /-- The query has an answer. -/
  | answered (answer : Answer)
  /-- The pass is over, or there already was one. -/
  | dispatched
  /-- A callback now runs for a timer, with its argument. -/
  | calling (callback : CallbackId) (timer : Fin n) (arg : CallbackArg)
  /-- No callback was running that could return. -/
  | idle
deriving DecidableEq

/-- The reply to a command. -/
def Reply.ofOutcome {n : Nat} : Except Refusal Unit → Reply n
  | .ok () => .accepted
  | .error cause => .refused cause

end SoftTimer
