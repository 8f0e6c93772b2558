import SoftTimer.Outline
import SoftTimer.Timespec.Text

/-!
# The hardware timeout

A scheduler has one timeout in hardware, which is set to an absolute deadline or canceled.  The
one modelled here never fires by itself: it remembers what it was asked to do.

Main results:

- Theorems `RecordingTimeout.pending_armAt` and `RecordingTimeout.pending_cancel`: the last call
  decides what is pending.
- Theorem `RecordingTimeout.length_history_record`: no more than `historyCapacity` calls are kept.
-/

namespace SoftTimer

/-- A call made on the hardware timeout. -/
inductive TimeoutEvent where
  /-- Set to a deadline. -/
  | armed (deadline : Timespec)
  /-- Canceled. -/
  | canceled
deriving DecidableEq

/-- The outline of a call. -/
def TimeoutEvent.outline : TimeoutEvent → Outline
  | armed deadline => .wrapped "Armed" deadline.outline
  | canceled => .word "Canceled"

/-- Number of calls that a recording timeout keeps. -/
def historyCapacity : Nat := 64

/-- A hardware timeout that records the calls made on it. -/
structure RecordingTimeout where
  /-- The deadline it is set to. -/
  pending : Option Timespec := none
  /-- How often it was set since the history was last cleared. -/
  armCount : Nat := 0
  /-- How often it was canceled since the history was last cleared. -/
  cancelCount : Nat := 0
  /-- The first calls since the history was last cleared, oldest first. -/
  history : List TimeoutEvent := []
deriving DecidableEq

namespace RecordingTimeout

/-- Keep a call in the history, if there is room. -/
def record (history : List TimeoutEvent) (e : TimeoutEvent) : List TimeoutEvent :=
  if history.length < historyCapacity then history ++ [e] else history

/-- Set the timeout to a deadline, in place of any earlier one. -/
def armAt (t : RecordingTimeout) (deadline : Timespec) : RecordingTimeout :=
  { pending := some deadline
    armCount := t.armCount + 1
    cancelCount := t.cancelCount
    history := record t.history (.armed deadline) }

/-- Cancel the timeout. -/
def cancel (t : RecordingTimeout) : RecordingTimeout :=
  { pending := none
    armCount := t.armCount
    cancelCount := t.cancelCount + 1
    history := record t.history .canceled }

/-- Make a call. -/
def apply (t : RecordingTimeout) : TimeoutEvent → RecordingTimeout
  | .armed deadline => t.armAt deadline
  | .canceled => t.cancel

/-- Forget the recorded calls and start counting anew; what is pending stays. -/
def clearHistory (t : RecordingTimeout) : RecordingTimeout :=
  { pending := t.pending }

@[simp]
theorem pending_armAt (t : RecordingTimeout) (deadline : Timespec) :
    (t.armAt deadline).pending = some deadline :=
  rfl

@[simp]
theorem pending_cancel (t : RecordingTimeout) : t.cancel.pending = none :=
  rfl

/-- The recorded history never outgrows its capacity. -/
theorem length_history_record {history : List TimeoutEvent} (e : TimeoutEvent)
    (h : history.length ≤ historyCapacity) :
    (record history e).length ≤ historyCapacity := by
  unfold record
  split
  · rw [List.length_append, List.length_singleton]
    omega
  · exact h

end RecordingTimeout
end SoftTimer
