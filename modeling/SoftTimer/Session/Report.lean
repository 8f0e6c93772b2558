import SoftTimer.Session.Run

/-!
# Reports

What is told after each step of a session that is taken from outside: its result, what happened
meanwhile, and the state of every scheduler and every timer.

Main definitions:

- `SchedulerReport`, `TimerReport`, `StepReport`: the parts of a report.
- `Session.report`: take a step and report.
- `Session.reports`: take steps and report after each.
-/

namespace SoftTimer

/-- The state of a scheduler after a step. -/
structure SchedulerReport where
  /-- The number of armed timers. -/
  armed : Nat
  /-- The earliest deadline. -/
  next : Option Timespec
  /-- The hardware timeout, with the calls made during the step. -/
  timeout : RecordingTimeout
  /-- The counters of the region during the step, if it has any. -/
  region : Option CountingRegion
deriving DecidableEq

/-- The state of a timer after a step. -/
structure TimerReport where
  /-- Whether it is armed. -/
  isArmed : Bool
  /-- The deadline of an armed timer. -/
  deadline : Option Timespec
  /-- The period of an armed periodic timer. -/
  period : Option Timespec
  /-- The class of an armed timer. -/
  priority : Option PriorityClass
  /-- Whether a callback is bound. -/
  isInitialized : Bool
  /-- The argument of a bound timer. -/
  arg : Option CallbackArg
deriving DecidableEq

/-- What is told after a step. -/
structure StepReport (n : Nat) where
  /-- The result of the step. -/
  result : StepResult
  /-- What happened during the step, in order. -/
  occurrences : List (Occurrence n)
  /-- The schedulers, in order. -/
  schedulers : List SchedulerReport
  /-- The timers, in order. -/
  timers : List TimerReport

variable {m n : Nat}

/-- What a timer shows of itself. -/
def Timer.report (t : Timer m n) : TimerReport where
  isArmed := t.armed
  deadline := t.deadline?
  period := t.period?
  priority := t.priority?
  isInitialized := t.callback.isSome
  arg := t.arg?

/-- What a scheduler shows of itself. -/
def System.schedulerReport (sys : System m n) (s : Fin m) : SchedulerReport where
  armed := (sys.scheduler s).list.len
  next := sys.nextDeadline s
  timeout := (sys.scheduler s).timeout
  region := (sys.scheduler s).region.counts?

namespace Session

/-- Start a new report: nothing noted down, all counters at rest. -/
def afresh (x : Session m n) : Session m n :=
  { x with
    machine := { x.machine with system := x.machine.system.resetRecords }
    notes := [] }

/-- Take a step and report. -/
def report (x : Session m n) (step : Step m n) : StepReport n × Session m n :=
  let (result, x) := x.afresh.take step
  let system := x.machine.system
  ({ result
     occurrences := x.notes.reverse
     schedulers := (List.finRange m).map system.schedulerReport
     timers := system.timers.toList.map Timer.report }, x)

/-- Take steps and report after each. -/
def reports (x : Session m n) : List (Step m n) → List (StepReport n)
  | [] => []
  | step :: steps =>
    let (told, x) := x.report step
    told :: x.reports steps

end Session
end SoftTimer
