import SoftTimer.Timespec.Text

/-!
# Refusals

Why a request on a timer is refused.  A missing argument is refused at once; a conflict with the
state of the timer is found inside the critical region and reported in the log.

Main definitions:

- `Conflict`: a state of the timer that rules the request out.
- `Refusal`: a missing argument or a conflict, with the code and the message shown to callers.
-/

namespace SoftTimer

/-- A state of a timer that rules a request out. -/
inductive Conflict where
  /-- Another scheduler holds the timer. -/
  | foreign
  /-- An armed timer cannot be bound anew. -/
  | initArmed
  /-- A timer armed for `deadline` cannot be armed again. -/
  | alreadyArmed (deadline : Timespec)
  /-- A timer without a callback cannot be armed. -/
  | unbound
deriving DecidableEq

/-- The report of a conflict. -/
def Conflict.report : Conflict → String
  | foreign => "timer rejected: owned by another scheduler"
  | initArmed => "timer init rejected: timer is armed"
  | alreadyArmed deadline => "timer arm rejected: already armed for " ++ deadline.text
  | unbound => "timer arm rejected: no callback bound"

/-- Why a request is refused. -/
inductive Refusal where
  /-- A required argument is missing. -/
  | absent
  /-- The state of the timer rules the request out. -/
  | conflict (cause : Conflict)
deriving DecidableEq

namespace Refusal

/-- The code shown to callers, the same for every cause. -/
def code (_ : Refusal) : String := "InvalidArgs"

/-- The message shown to callers, the same for every cause. -/
def message (_ : Refusal) : String := "Invalid arguments"

end Refusal
end SoftTimer
