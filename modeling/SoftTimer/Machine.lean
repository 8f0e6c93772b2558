import SoftTimer.Clock
import SoftTimer.System.Command
import SoftTimer.System.Pass
import SoftTimer.System.Query

/-!
# Running a system

A machine is a system together with the callbacks that run in it.  A client makes requests; a
dispatch stops at the first callback it calls, and from then on the requests are those of the
callback, until it returns.  Callbacks may make any request, so dispatches of other schedulers nest.

Main definitions:

- `Machine`: a system and the passes whose callbacks run, the innermost first.
- `Action`: a request, or the return of the innermost callback.
- `Machine.step`, `Machine.run`: what actions do.
- `Machine.onTimeout`: a dispatch at the time that a clock shows.
- `Machine.Reachable`: the machines that actions lead to from the start.

Main results:

- Theorem `Machine.run_append`: a run continues where a shorter one ended.
- Theorem `Machine.Reachable.run`: what a reachable machine leads to is reachable.
-/

namespace SoftTimer

/-- A pass that waits for the callback of one of its timers to return. -/
structure Frame (m n : Nat) where
  /-- The scheduler of the pass. -/
  scheduler : Fin m
  /-- The time it serves. -/
  now : Timespec
  /-- The timer whose callback runs. -/
  timer : Fin n
  /-- The timer to come to next. -/
  next : Option (Fin n)
deriving DecidableEq

/-- A system and the passes whose callbacks run, the innermost first. -/
structure Machine (m n : Nat) where
  /-- The schedulers and timers. -/
  system : System m n
  /-- The passes whose callbacks run. -/
  frames : List (Frame m n) := []
deriving DecidableEq

/-- What the code in control does next. -/
inductive Action (m n : Nat) where
  /-- Make a request. -/
  | request (s : Fin m) (what : Request (Option (Fin n)))
  /-- Return from the callback that runs. -/
  | ret
deriving DecidableEq

namespace Machine

variable {m n : Nat}

/-- A machine at its start, given the kinds of the critical regions. -/
def initial (kinds : Fin m → RegionKind) : Machine m n where
  system := .initial kinds

/-- The timer whose callback runs, if one does. -/
def running (x : Machine m n) : Option (Fin n) :=
  x.frames.head?.map Frame.timer

/-! ## The walk along the chain -/

/-- Come to the timers of a chain until one has a callback, and call it; at the end of the chain end
the pass. -/
def walk (s : Fin m) (now : Timespec) :
    (visits : Nat) → Option (Fin n) → Machine m n → Reply n × Machine m n
  | visits + 1, some t, x =>
    let (found, system) := x.system.visit s t
    match found.binding with
    | some (callback, arg) =>
      (.calling callback t arg,
        { system := system.emit (.called s t callback arg)
          frames := ⟨s, now, t, found.next⟩ :: x.frames })
    | none => walk s now visits found.next { x with system }
  | _, _, x => (.dispatched, { x with system := x.system.finish s now })

/-- Continue a pass at a timer.  Every visit that is not the last one takes a link away, and `n`
timers have at most `n` links, so `n + 1` visits reach the end of the chain. -/
def proceed (x : Machine m n) (s : Fin m) (now : Timespec) (next : Option (Fin n)) :
    Reply n × Machine m n :=
  walk s now (n + 1) next x

/-! ## Steps -/

/-- Answer a request at once, and record the reply. -/
def respond (x : Machine m n) (s : Fin m) (what : Request (Option (Fin n))) (reply : Reply n)
    (system : System m n) : Reply n × Machine m n :=
  (reply, { x with system := system.emit (.answered s what reply) })

/-- Make a request of a scheduler. -/
def request (x : Machine m n) (s : Fin m) (what : Request (Option (Fin n))) :
    Reply n × Machine m n :=
  match what with
  | .command c =>
    let (outcome, system) := x.system.command s c
    x.respond s what (.ofOutcome outcome) system
  | .query q =>
    let (answer, system) := x.system.query s q
    x.respond s what (.answered answer) system
  | .dispatch now =>
    match x.system.begin s now with
    | (.ignored, system) => (.dispatched, { x with system })
    | (.admitted first, system) => proceed { x with system } s now first

/-- Return from the innermost callback; its pass continues. -/
def ret (x : Machine m n) : Reply n × Machine m n :=
  match x.frames with
  | [] => (.idle, x)
  | frame :: frames => proceed { x with frames } frame.scheduler frame.now frame.next

/-- Do what the code in control does next. -/
def step (x : Machine m n) : Action m n → Reply n × Machine m n
  | .request s what => x.request s what
  | .ret => x.ret

/-- The machine after a row of actions. -/
def run (x : Machine m n) (actions : List (Action m n)) : Machine m n :=
  actions.foldl (fun x a => (x.step a).2) x

/-- Dispatch at the time that a clock shows. -/
def onTimeout {κ : Type} [NanosecondCounter κ] (x : Machine m n) (s : Fin m) (clock : Uptime κ) :
    Reply n × Machine m n :=
  x.request s (.dispatch clock.now)

@[simp]
theorem run_nil (x : Machine m n) : x.run [] = x :=
  rfl

@[simp]
theorem run_cons (x : Machine m n) (a : Action m n) (actions : List (Action m n)) :
    x.run (a :: actions) = (x.step a).2.run actions :=
  rfl

/-- A run continues where a shorter one ended. -/
theorem run_append (x : Machine m n) (actions more : List (Action m n)) :
    x.run (actions ++ more) = (x.run actions).run more :=
  List.foldl_append

/-! ## Reachable machines -/

/-- The machines that some actions lead to from the start. -/
def Reachable (x : Machine m n) : Prop :=
  ∃ kinds actions, (initial kinds).run actions = x

/-- A machine at its start is reachable. -/
theorem Reachable.initial (kinds : Fin m → RegionKind) :
    (Machine.initial kinds : Machine m n).Reachable :=
  ⟨kinds, [], rfl⟩

/-- What a run leads to from a reachable machine is reachable. -/
theorem Reachable.run {x : Machine m n} (h : x.Reachable) (actions : List (Action m n)) :
    (x.run actions).Reachable := by
  obtain ⟨kinds, before, rfl⟩ := h
  exact ⟨kinds, before ++ actions, run_append _ _ _⟩

/-- What an action leads to from a reachable machine is reachable. -/
theorem Reachable.step {x : Machine m n} (h : x.Reachable) (a : Action m n) :
    (x.step a).2.Reachable :=
  h.run [a]

end Machine
end SoftTimer
