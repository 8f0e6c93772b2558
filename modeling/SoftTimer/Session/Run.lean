import SoftTimer.Session.Step

/-!
# Running sessions

Steps are taken on a machine.  When a step makes the machine call a callback, the session runs the
script of that callback and returns, until the machine has ended the pass.

Main definitions:

- `Session`: a machine, a clock and the scripts of the callbacks.
- `Session.act`: let the machine do one action, and note what was logged.
- `Session.serve`: run the callbacks of a pass to its end, or to `Session.callLimit`.
- `Session.take`: take a step.
-/

namespace SoftTimer

/-- The scripts of a callback. -/
structure ScriptedCallback (m n : Nat) where
  /-- The script of the first call, of the second one, and so on; later calls run the last one. -/
  scripts : Array (List (Step m n))
  /-- How often the callback was called. -/
  calls : Nat := 0

/-- The script of the next call; without scripts a call does nothing. -/
def ScriptedCallback.nextScript {m n : Nat} (c : ScriptedCallback m n) : List (Step m n) :=
  c.scripts[min c.calls (c.scripts.size - 1)]?.getD []

/-- A machine, a clock and the scripts of the callbacks. -/
structure Session (m n : Nat) where
  /-- The machine. -/
  machine : Machine m n
  /-- The clock. -/
  clock : Uptime ManualCounter := { counter := {} }
  /-- The callbacks, by number. -/
  callbacks : Array (ScriptedCallback m n)
  /-- What was noted down, the latest first. -/
  notes : List (Occurrence n) := []

namespace Session

variable {m n : Nat}

/-- A session at its start, given the kinds of the critical regions and the scripts of the
callbacks. -/
def initial (kinds : Fin m → RegionKind) (scripts : Array (Array (List (Step m n)))) :
    Session m n where
  machine := .initial kinds
  callbacks := scripts.map fun scripts => { scripts }

/-- Note an occurrence down. -/
def note (x : Session m n) (o : Occurrence n) : Session m n :=
  { x with notes := o :: x.notes }

/-- Let the machine do one action, and note what was logged. -/
def act (x : Session m n) (a : Action m n) : Reply n × Session m n :=
  let (reply, machine) :=
    { x.machine with system := { x.machine.system with trace := [] } }.step a
  (reply, { x with
    machine
    notes := machine.system.trace.filterMap Occurrence.ofEvent ++ x.notes })

/-! ## Callbacks -/

/-- The script of the next call of a callback. -/
def nextScript (x : Session m n) (callback : CallbackId) : List (Step m n) :=
  match x.callbacks[callback]? with
  | some c => c.nextScript
  | none => []

/-- Enter a callback: count the call, and note it down. -/
def enter (x : Session m n) (callback : CallbackId) (t : Fin n) (arg : CallbackArg) :
    Session m n :=
  { x with
    callbacks := x.callbacks.modify callback fun c => { c with calls := c.calls + 1 } }.note
      (.called callback t arg x.machine.system.regionDepth)

/-- The number of calls after which a session gives a pass up.  A pass need not end by itself: its
callbacks can have other schedulers lengthen its chain, again and again. -/
def callLimit : Nat := UInt32.size

/-- Run the callbacks of a pass, from the one that was just called to the end of the pass, or until
the calls are used up. -/
def serve (take : Step m n → Session m n → StepResult × Session m n) :
    (calls : Nat) → Reply n → Session m n → Session m n
  | calls + 1, .calling callback t arg, x =>
    let entered := x.enter callback t arg
    let stepped := (x.nextScript callback).foldl
      (fun x step =>
        let (result, x) := take step x
        x.note (.stepped result))
      entered
    let (reply, x) := (stepped.note (.returning t)).act .ret
    serve take calls reply x
  | 0, .calling _ t _, x => x.note (.abandoned t)
  | _, _, x => x

/-! ## Steps -/

/-- A way to make requests of the schedulers of a session. -/
abbrev Requester (m n : Nat) :=
  Fin m → Request (Option (Fin n)) → Session m n → StepResult × Session m n

/-- Do something a number of times, and collect the results. -/
def iterate (f : Session m n → List StepResult × Session m n) :
    (count : Nat) → Session m n → List StepResult × Session m n
  | 0, x => ([], x)
  | count + 1, x =>
    let (results, x) := f x
    let (more, x) := iterate f count x
    (results ++ more, x)

mutual

/-- Take a step, given the way to make requests. -/
def takeWith (request : Requester m n) : Step m n → Session m n → StepResult × Session m n
  | .request s what, x => request s (what.map (TimerRef.resolve x.machine.running)) x
  | .onTimeout s, x => request s (.dispatch x.clock.now) x
  | .setClock ns, x =>
    (.nothing, { x with clock := { x.clock with counter := x.clock.counter.set ns } })
  | .advanceClock ns, x =>
    (.nothing, { x with clock := { x.clock with counter := x.clock.counter.advance ns } })
  | .compareArg s timer arg, x =>
    match request s (.query (.callbackArg (timer.resolve x.machine.running))) x with
    | (.answer (.arg value), x) => (.answer (.flag (value == some arg)), x)
    | other => other
  | .describe s block, x =>
    match request s (.query .summary) x with
    | (.answer (.summary value), x) =>
      (.text (if block then value.outline.block else value.outline.line), x)
    | other => other
  | .describeTimer timer, x =>
    match timer.resolve x.machine.running with
    | some _ => (.text Timer.outline.line, x)
    | none => (.nothing, x)
  | .times count steps, x =>
    let (results, x) := iterate (takeAll request steps) count x
    (.all results, x)

/-- Take steps one after another, given the way to make requests. -/
def takeAll (request : Requester m n) :
    List (Step m n) → Session m n → List StepResult × Session m n
  | [], x => ([], x)
  | step :: steps, x =>
    let (result, x) := takeWith request step x
    let (results, x) := takeAll request steps x
    (result :: results, x)

end

/-- Make a request and run the callbacks it leads to, which may nest `depth` deep. -/
def request : (depth : Nat) → Requester m n
  | 0, s, what, x =>
    let (reply, x) := x.act (.request s what)
    (.ofReply reply, x)
  | depth + 1, s, what, x =>
    let (reply, x) := x.act (.request s what)
    (.ofReply reply, serve (takeWith (request depth)) callLimit reply x)

/-- Take a step.  A callback runs within a pass of a scheduler that has no other one, so callbacks
nest at most `m` deep. -/
def take (step : Step m n) (x : Session m n) : StepResult × Session m n :=
  takeWith (request m) step x

end Session
end SoftTimer
