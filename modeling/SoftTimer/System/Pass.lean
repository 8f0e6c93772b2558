import SoftTimer.System.Basic
import SoftTimer.Timespec.Arithmetic

/-!
# Passes

A dispatch serves the timers that are due, in one pass.  The pass takes them out of the list, chains
them up and rearms the periodic ones, all inside the region.  Then it comes to the timers of the
chain one by one, entering the region for each, and calls those that have a callback by then, with
the region left.  At the end it points the hardware at the new head.

Main definitions:

- `System.begin`: take out what is due, unless a pass of the scheduler is under way.
- `System.visit`: come to a timer of the chain: read its binding and the timer after it.
- `System.finish`: end a pass.
- `System.collect`, with `System.detachExpired`, `System.chain` and `System.rearm`: what beginning a
  pass does to the timers.
-/

namespace SoftTimer
namespace System

variable {m n : Nat}

/-! ## Collecting -/

/-- Take the timers that are due out of the list, at most `limit` of them, in the order of the
list. -/
def detachExpired (s : Fin m) (now : Timespec) :
    (limit : Nat) → System m n → List (Fin n) × System m n
  | 0, sys => ([], sys)
  | limit + 1, sys =>
    match sys.unlinkExpired s now with
    | none => ([], sys)
    | some (t, sys) =>
      let sys := (sys.modifyTimer t fun c => { c with armed := false }).emit
        (.detached s t (sys.timer t).deadline)
      let (rest, sys) := detachExpired s now limit sys
      (t :: rest, sys)

/-- Chain timers up in the order given; the last one is followed by nothing. -/
def chain : List (Fin n) → System m n → System m n
  | [], sys => sys
  | t :: rest, sys =>
    chain rest (sys.modifyTimer t fun c => { c with firedNext := rest.head? })

/-- Put a periodic timer back into the list, one period after its previous deadline.  If that cannot
be represented, the timer stays disarmed. -/
def rearm (s : Fin m) (sys : System m n) (t : Fin n) : System m n :=
  if (sys.timer t).isPeriodic then
    match (sys.timer t).deadline.checkedAdd (sys.timer t).period with
    | some deadline =>
      ((sys.modifyTimer t fun c => { c with deadline, armed := true }).link s t).2
    | none => sys.log s (.overflow (sys.timer t).deadline)
  else sys

/-- Take out, chain up and rearm what is due, and hand out the first timer of the chain.  Rearming
waits until all are out, so no timer is taken out twice. -/
def collect (s : Fin m) (now : Timespec) (sys : System m n) : Option (Fin n) × System m n :=
  let (expired, sys) := sys.detachExpired s now n
  (expired.head?, expired.foldl (rearm s) (sys.chain expired))

/-! ## The course of a pass -/

/-- Whether a pass may begin. -/
inductive Admission (n : Nat) where
  /-- A pass of the scheduler is under way; the dispatch is ignored. -/
  | ignored
  /-- The pass has begun; `first` is the first timer to come to. -/
  | admitted (first : Option (Fin n))
deriving DecidableEq

/-- Begin a pass, unless one of the scheduler is under way. -/
def begin (sys : System m n) (s : Fin m) (now : Timespec) : Admission n × System m n :=
  sys.locked s fun sys =>
    if (sys.scheduler s).dispatching then (.ignored, sys.log s (.reentered now))
    else
      let sys := (sys.modifyScheduler s fun c => { c with dispatching := true }).emit (.began s now)
      let (first, sys) := sys.collect s now
      (.admitted first, sys)

/-- What a pass finds when it comes to a timer. -/
structure Visit (n : Nat) where
  /-- The timer to come to next. -/
  next : Option (Fin n)
  /-- The callback bound to the timer, with its argument. -/
  binding : Option (CallbackId × CallbackArg)
deriving DecidableEq

/-- Come to a timer: take the timer after it off the chain, and read its binding. -/
def visit (sys : System m n) (s : Fin m) (t : Fin n) : Visit n × System m n :=
  sys.locked s fun sys =>
    let c := sys.timer t
    ({ next := c.firedNext, binding := c.callback.map fun callback => (callback, c.arg) },
      (sys.modifyTimer t fun c => { c with firedNext := none }).emit (.visited s t))

/-- End a pass: point the hardware at the head of the list, and log how many timers are armed. -/
def finish (sys : System m n) (s : Fin m) (now : Timespec) : System m n :=
  (sys.locked s fun sys =>
    let sys := (sys.modifyScheduler s fun c => { c with dispatching := false }).program s
    ((), (sys.log s (.finished now (sys.scheduler s).list.len)).emit (.finished s))).2

end System
end SoftTimer
