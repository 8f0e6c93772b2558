import SoftTimer.Machine

/-!
# Steps of a session

A session is a script: steps that are taken one after another from outside, and steps that the
callbacks take when they run.

Main definitions:

- `TimerRef`: how a step names a timer.
- `Step`: one step.
- `StepResult`: what a step comes to.
- `Occurrence`: what a session notes down while a step is taken.
-/

namespace SoftTimer

/-- How a step names a timer. -/
inductive TimerRef (n : Nat) where
  /-- No timer. -/
  | absent
  /-- The timer of a number. -/
  | number (t : Fin n)
  /-- The timer whose callback runs. -/
  | running
deriving DecidableEq

/-- The timer that a name stands for while a callback runs, or none does. -/
def TimerRef.resolve {n : Nat} (running : Option (Fin n)) : TimerRef n → Option (Fin n)
  | absent => none
  | number t => some t
  | .running => running

/-- One step of a session with `m` schedulers and `n` timers. -/
inductive Step (m n : Nat) where
  /-- Make a request. -/
  | request (s : Fin m) (what : Request (TimerRef n))
  /-- Dispatch at the time of the clock. -/
  | onTimeout (s : Fin m)
  /-- Put the counter of the clock to a value. -/
  | setClock (ns : UInt64)
  /-- Move the counter of the clock forward. -/
  | advanceClock (ns : UInt64)
  /-- Compare the argument of a timer with a given one. -/
  | compareArg (s : Fin m) (timer : TimerRef n) (arg : CallbackArg)
  /-- Describe a scheduler, on one line or as a block. -/
  | describe (s : Fin m) (block : Bool)
  /-- Describe a timer. -/
  | describeTimer (timer : TimerRef n)
  /-- Take steps over and over. -/
  | times (count : Nat) (steps : List (Step m n))

/-- What a step comes to. -/
inductive StepResult where
  /-- Nothing to report. -/
  | nothing
  /-- A command was carried out. -/
  | accepted
  /-- A command was refused. -/
  | refused (cause : Refusal)
  /-- A query has an answer. -/
  | answer (value : Answer)
  /-- A description. -/
  | text (value : String)
  /-- The results of several steps, in order. -/
  | all (results : List StepResult)

/-- The result of a request. -/
def StepResult.ofReply {n : Nat} : Reply n → StepResult
  | .accepted => .accepted
  | .refused cause => .refused cause
  | .answered value => .answer value
  | .dispatched | .calling _ _ _ | .idle => .nothing

/-- What a session notes down while a step is taken. -/
inductive Occurrence (n : Nat) where
  /-- A line was written to the log. -/
  | logged (line : LogLine)
  /-- A callback was entered; counting regions were held `depth` times. -/
  | called (callback : CallbackId) (timer : Fin n) (arg : CallbackArg) (depth : Nat)
  /-- A step of a callback was taken. -/
  | stepped (result : StepResult)
  /-- A callback is about to return. -/
  | returning (timer : Fin n)
  /-- A pass was given up when it called a timer, because it had made too many calls. -/
  | abandoned (timer : Fin n)

/-- What a session notes of an event: the log lines. -/
def Occurrence.ofEvent {m n : Nat} : Event m n → Option (Occurrence n)
  | .logged _ line => some (.logged line)
  | _ => none

/-- The outline of a timer.  Its address says nothing about it, so a fixed word stands there. -/
def Timer.outline : Outline :=
  .record "Timer" (.field "addr" (.word "ADDR") (.done true))

end SoftTimer
