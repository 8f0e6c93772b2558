import SoftTimer.System.Basic

/-!
# Commands

Binding, arming and disarming timers.  A missing argument is refused before the region is entered.
Everything else happens inside the region, where a conflict refuses the command and leaves the state
as it is, with one line in the log.

Main definitions:

- `System.init`, `System.deinit`, `System.arm`, `System.cancel`: the commands.
- `System.tryInit`, `System.tryDeinit`, `System.tryArm`, `System.tryCancel`: what each does inside
  the region, or the conflict that rules it out.
- `System.command`: the same by request.
-/

namespace SoftTimer
namespace System

variable {m n : Nat}

/-! ## Inside the region -/

/-- Bind a callback to a timer that is neither held by another scheduler nor armed. -/
def tryInit (sys : System m n) (s : Fin m) (t : Fin n) (callback : CallbackId)
    (arg : CallbackArg) : Except Conflict (System m n) :=
  if (sys.timer t).heldByOther s then .error .foreign
  else if (sys.timer t).armed then .error .initArmed
  else .ok (sys.modifyTimer t fun c => c.reset (some callback) arg)

/-- Disarm a timer if it is armed; if it was the head, the hardware moves on. -/
def disarm (sys : System m n) (s : Fin m) (t : Fin n) : System m n :=
  if (sys.timer t).armed then
    let (first, sys) := (sys.modifyTimer t fun c => { c with armed := false }).unlink s t
    if first then sys.program s else sys
  else sys

/-- Disarm a timer that no other scheduler holds, and take its binding away. -/
def tryDeinit (sys : System m n) (s : Fin m) (t : Fin n) : Except Conflict (System m n) :=
  if (sys.timer t).heldByOther s then .error .foreign
  else .ok ((sys.disarm s t).modifyTimer t fun c => c.reset none .none)

/-- Disarm a timer that no other scheduler holds. -/
def tryCancel (sys : System m n) (s : Fin m) (t : Fin n) : Except Conflict (System m n) :=
  if (sys.timer t).heldByOther s then .error .foreign
  else .ok (sys.disarm s t)

/-- Put a timer into the list with a new schedule; if it became the head, the hardware follows. -/
def schedule (sys : System m n) (s : Fin m) (t : Fin n) (priority : PriorityClass)
    (deadline period : Timespec) : System m n :=
  let sys := sys.modifyTimer t fun c =>
    { c with deadline, period, priority, armed := true, owner := some s }
  let (first, sys) := sys.link s t
  if first then sys.program s else sys

/-- Arm a timer that no other scheduler holds, that is not armed and has a callback. -/
def tryArm (sys : System m n) (s : Fin m) (t : Fin n) (priority : PriorityClass)
    (deadline period : Timespec) : Except Conflict (System m n) :=
  if (sys.timer t).heldByOther s then .error .foreign
  else if (sys.timer t).armed then .error (.alreadyArmed (sys.timer t).deadline)
  else if (sys.timer t).callback.isNone then .error .unbound
  else .ok (sys.schedule s t priority deadline period)

/-! ## Commands -/

/-- Carry out a piece of work inside the region, or report the conflict that rules it out. -/
def perform (s : Fin m) (work : System m n → Except Conflict (System m n)) (sys : System m n) :
    Except Refusal Unit × System m n :=
  sys.locked s fun sys =>
    match work sys with
    | .ok sys => (.ok (), sys)
    | .error cause => (.error (.conflict cause), sys.log s (.rejected cause))

/-- Bind a callback and its argument to a timer.  The timer is left disarmed. -/
def init (sys : System m n) (s : Fin m) (timer : Option (Fin n)) (callback : Option CallbackId)
    (arg : CallbackArg) : Except Refusal Unit × System m n :=
  match timer, callback with
  | some t, some callback => sys.perform s fun sys => sys.tryInit s t callback arg
  | _, _ => (.error .absent, sys)

/-- Disarm a timer and take its binding away, so that any scheduler can use it. -/
def deinit (sys : System m n) (s : Fin m) (timer : Option (Fin n)) :
    Except Refusal Unit × System m n :=
  match timer with
  | some t => sys.perform s fun sys => sys.tryDeinit s t
  | none => (.error .absent, sys)

/-- Arm a timer for a deadline.  With a period other than zero it fires again and again. -/
def arm (sys : System m n) (s : Fin m) (timer : Option (Fin n)) (priority : PriorityClass)
    (deadline period : Option Timespec) : Except Refusal Unit × System m n :=
  match timer, deadline with
  | some t, some deadline =>
    sys.perform s fun sys => sys.tryArm s t priority deadline (period.getD .zero)
  | _, _ => (.error .absent, sys)

/-- Disarm a timer. -/
def cancel (sys : System m n) (s : Fin m) (timer : Option (Fin n)) :
    Except Refusal Unit × System m n :=
  match timer with
  | some t => sys.perform s fun sys => sys.tryCancel s t
  | none => (.error .absent, sys)

/-- Carry out a command. -/
def command (sys : System m n) (s : Fin m) :
    Command (Option (Fin n)) → Except Refusal Unit × System m n
  | .init timer callback arg => sys.init s timer callback arg
  | .deinit timer => sys.deinit s timer
  | .arm timer priority deadline period => sys.arm s timer priority deadline period
  | .cancel timer => sys.cancel s timer

end System
end SoftTimer
