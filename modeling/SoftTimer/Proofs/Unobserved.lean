import Mathlib.Data.List.GetD
import SoftTimer.Proofs.Replay

/-!
# What runs do not show

The links of passes carry nothing from one pass to the next: without a pass under way, machines that
differ only in them behave alike.  Nor do the classes of timers and the arguments of callbacks
influence what happens; they are only handed back.

Main definitions:

- `Recast.relinked`, `Recast.plain`: other links, and no classes and arguments.
- `Machine.SameOffLinks`, `Machine.SameOffLabels`: machines that differ only in these.

Main results:

- Theorem `Machine.links_unobserved`: clients cannot tell which links a machine started with.
- Theorem `Machine.labels_unobserved`: classes and arguments change nothing but the answers that
  hand them back.
-/

namespace SoftTimer

variable {m n : Nat}

namespace Recast

/-! ## Other links -/

/-- Other links in place of those of passes, and another past. -/
def relinked (link : Fin n → Option (Fin n)) (past : List (Event m n)) : Recast m n where
  arg := id
  priority := id
  link t _ := link t
  past := past
  arg_none := rfl
  priority_standard := rfl

section Relinked

variable (link : Fin n → Option (Fin n)) (past : List (Event m n)) (timers : List (Fin n))

/-- Other links leave answers as they are. -/
theorem answer_relinked (a : Answer) : ((relinked link past).settle timers).answer a = a := by
  cases a <;> simp [answer, relinked, settle]

/-- Other links leave replies as they are. -/
theorem reply_relinked (r : Reply n) : ((relinked link past).settle timers).reply r = r := by
  cases r with
  | answered a => exact congrArg Reply.answered (answer_relinked link past timers a)
  | _ => rfl

/-- Other links leave requests as they are. -/
theorem request_relinked {ρ : Type} (what : Request ρ) :
    ((relinked link past).settle timers).request what = what := by
  rcases what with c | q | now
  · cases c <;> rfl
  · rfl
  · rfl

/-- Other links leave events as they are. -/
theorem event_relinked (e : Event m n) : ((relinked link past).settle timers).event e = e := by
  cases e with
  | answered s what reply =>
    simp only [event, request_relinked, reply_relinked]
  | _ => rfl

/-- Other links leave actions as they are. -/
theorem action_relinked (a : Action m n) : ((relinked link past).settle timers).action a = a := by
  cases a with
  | request s what => exact congrArg (Action.request s) (request_relinked link past timers what)
  | ret => rfl

/-- No link is settled before a pass begins. -/
theorem not_settles_relinked (t : Fin n) : ¬ (relinked link past).Settles t := by
  intro h
  have hnone : link t = none := h none
  have hsome : link t = some t := h (some t)
  rw [hnone] at hsome
  cases hsome

end Relinked

/-! ## No classes and arguments -/

/-- No arguments, and the standard class everywhere. -/
def plain : Recast m n where
  arg _ := .none
  priority _ := .standard
  link _ next := next
  past := []
  arg_none := rfl
  priority_standard := rfl

/-- Cells are alike without classes and arguments if they differ at most in these. -/
theorem timer_plain_eq_iff {c d : Timer m n} (t : Fin n) :
    plain.timer t d = plain.timer t c ↔ d = { c with arg := d.arg, priority := d.priority } := by
  rcases c with ⟨⟩
  rcases d with ⟨⟩
  simp [timer, plain]

/-- Without arguments and classes all links stay, so what the passes come to is settled. -/
theorem settled_plain (x : Machine m n) : plain.Settled x :=
  ⟨fun _ _ _ _ _ => rfl, fun _ _ _ _ _ => rfl⟩

/-- Without arguments and classes there are no links to be left alone. -/
theorem settle_plain (timers : List (Fin n)) : (plain : Recast m n).settle timers = plain := by
  simp only [settle, plain, ite_self]

/-- A reply without arguments and classes has none to lose. -/
theorem reply_reply_plain (r : Reply n) :
    (plain : Recast m n).reply ((plain : Recast m n).reply r) = (plain : Recast m n).reply r := by
  cases r with
  | answered a => cases a <;> simp [reply, answer, plain, Function.comp_def]
  | _ => rfl

end Recast

namespace Machine

variable {x y z : Machine m n}

/-- Two machines differ at most in the links of passes, and in what was recorded. -/
structure SameOffLinks (x y : Machine m n) : Prop where
  frames : y.frames = x.frames
  schedulers : y.system.schedulers = x.system.schedulers
  timer : ∀ t, y.system.timer t =
    { x.system.timer t with firedNext := (y.system.timer t).firedNext }

/-- A machine without a past. -/
def fresh (x : Machine m n) : Machine m n :=
  { x with system := { x.system with trace := [] } }

/-- The machine `x` with the links of passes and the past of `y`. -/
def linkedLike (x y : Machine m n) : Machine m n :=
  (Recast.relinked (fun t => (y.system.timer t).firedNext) y.system.trace).machine x.fresh

/-- Machines that differ at most in links and records are one machine, with other links and another
past. -/
theorem SameOffLinks.linkedLike_eq (h : SameOffLinks x y) : x.linkedLike y = y := by
  rcases x with ⟨⟨schedulers, timers, trace⟩, frames⟩
  rcases y with ⟨⟨schedulers', timers', trace'⟩, frames'⟩
  obtain rfl : frames' = frames := h.frames
  obtain rfl : schedulers' = schedulers := h.schedulers
  have htimers : (Recast.relinked (fun t => (timers'.get t).firedNext) trace').cells timers =
      timers' := by
    refine Table.ext fun t => ?_
    rw [Recast.get_cells]
    exact (h.timer t).symm
  exact congrArg (fun timers : Cells m n =>
    (⟨⟨schedulers', timers, trace'⟩, frames'⟩ : Machine m n)) htimers

/-- A machine is the same as itself off the links. -/
theorem SameOffLinks.refl (x : Machine m n) : SameOffLinks x x :=
  ⟨rfl, rfl, fun _ => rfl⟩

/-- Machines that are the same off the links as a third one are the same off the links. -/
theorem SameOffLinks.of_common (hx : SameOffLinks z x) (hy : SameOffLinks z y) :
    SameOffLinks x y := by
  refine ⟨hy.frames.trans hx.frames.symm, hy.schedulers.trans hx.schedulers.symm, fun t => ?_⟩
  exact (hy.timer t).trans (congrArg (fun c : Timer m n =>
    { c with firedNext := (y.system.timer t).firedNext }) (hx.timer t)).symm

/-- A machine with other links and another past is the same off the links. -/
theorem sameOffLinks_relinked (x : Machine m n) (link : Fin n → Option (Fin n))
    (past : List (Event m n)) (timers : List (Fin n)) :
    SameOffLinks x (((Recast.relinked link past).settle timers).machine x) := by
  refine ⟨rfl, rfl, fun t => ?_⟩
  have htimer : (((Recast.relinked link past).settle timers).machine x).system.timer t =
      ((Recast.relinked link past).settle timers).timer t (x.system.timer t) :=
    Recast.timer_system _ _ _
  rw [htimer]
  rfl

/-- A client on a machine without a pass under way makes the same run whatever the links. -/
theorem SameOffLinks.play_eq (h : SameOffLinks x y) (hframes : x.frames = [])
    (client : List (Reply n) → Action m n) (k : Nat) :
    (play client k [] y).1 = (play client k [] x.fresh).1 ∧
      SameOffLinks (play client k [] x.fresh).2 (play client k [] y).2 ∧
      (play client k [] y).2.system.trace =
        (play client k [] x.fresh).2.system.trace ++ y.system.trace := by
  let R := Recast.relinked (fun t => (y.system.timer t).firedNext) y.system.trace
  have hsettled : R.Settled x.fresh := by
    refine ⟨fun f hf => ?_, fun t ht => absurd ht (Recast.not_settles_relinked _ _ t)⟩
    have hnone : f ∈ x.frames := hf
    rw [hframes] at hnone
    cases hnone
  have hreply : ∀ heard : List (Reply n), heard.map R.reply = heard := fun heard =>
    List.map_id'' (Recast.reply_relinked _ _ []) heard
  have hclient : ∀ heard, client (heard.map R.reply) = R.action (client heard) := by
    intro heard
    rw [hreply]
    exact (Recast.action_relinked _ _ [] _).symm
  rcases Recast.play_machine hsettled hclient k [] with ⟨timers, hplay⟩
  have hy : R.machine x.fresh = y := h.linkedLike_eq
  rw [hreply, hreply, hy] at hplay
  rw [hplay]
  exact ⟨rfl, sameOffLinks_relinked _ _ _ _, congrArg (· ++ y.system.trace)
    (List.map_id'' (Recast.event_relinked _ _ timers) _)⟩

/-- The links of passes carry nothing from one pass to the next.  Without a pass under way, two
machines that differ at most in these links answer every client alike, call the same callbacks with
the same arguments, and record the same regions, hardware calls and log lines, and they go on to
differ at most in links. -/
theorem links_unobserved (h : SameOffLinks x y) (hframes : x.frames = [])
    (client : List (Reply n) → Action m n) (k : Nat) :
    (play client k [] y).1 = (play client k [] x).1 ∧
      SameOffLinks (play client k [] x).2 (play client k [] y).2 ∧
      ∃ es, (play client k [] x).2.system.trace = es ++ x.system.trace ∧
        (play client k [] y).2.system.trace = es ++ y.system.trace := by
  rcases (SameOffLinks.refl x).play_eq hframes client k with ⟨hx, hsame, htrace⟩
  rcases h.play_eq hframes client k with ⟨hy, hsame', htrace'⟩
  exact ⟨hy.trans hx.symm, hsame.of_common hsame', _, htrace, htrace'⟩

/-- The machine with blank links. -/
def unlinked (x : Machine m n) : Machine m n :=
  { x with system :=
    { x.system with timers := x.system.timers.map fun c => { c with firedNext := none } } }

/-- A machine with blank links is the same off the links. -/
theorem sameOffLinks_unlinked (x : Machine m n) : SameOffLinks x x.unlinked := by
  refine ⟨rfl, rfl, fun t => ?_⟩
  have htimer : x.unlinked.system.timer t = { x.system.timer t with firedNext := none } :=
    Table.get_map _ _ t
  rw [htimer]

/-- A pass of `r` lost the end of its chain: while it called `t`, another scheduler took `u` from
it, and the pass of that one cut the chain there.  The link from `v` to `w` was left behind. -/
def truncated (r s : Fin m) (t u v w : Fin n) : Machine m n :=
  (initial fun _ => .counting).run
    [.request r (.command (.init (some t) (some 0) .none)),
      .request r (.command (.init (some u) (some 1) .none)),
      .request r (.command (.init (some v) (some 2) .none)),
      .request r (.command (.init (some w) (some 3) .none)),
      .request r (.command (.arm (some t) .precise (some (.new 1 0)) none)),
      .request r (.command (.arm (some u) .precise (some (.new 2 0)) none)),
      .request r (.command (.arm (some v) .precise (some (.new 3 0)) none)),
      .request r (.command (.arm (some w) .precise (some (.new 4 0)) none)),
      .request r (.dispatch (.new 5 0)),
      .request r (.command (.deinit (some u))),
      .request s (.command (.init (some u) (some 1) .none)),
      .request s (.command (.arm (some u) .precise (some (.new 6 0)) none)),
      .request s (.dispatch (.new 6 0)), .ret, .ret, .ret]

/-- A chain was cut short and its end left behind, and yet a client hears what it would without any
links. -/
theorem links_unobserved_truncated :
    let x : Machine 2 4 := truncated 0 1 0 1 2 3
    let client := scripted
      [.request 0 (.command (.arm (some 2) .precise (some (.new 7 0)) none)),
        .request 0 (.dispatch (.new 7 0)), .ret]
    x.Reachable ∧ (x.system.timer 2).firedNext = some 3 ∧ SameOffLinks x x.unlinked ∧
      x.frames = [] ∧ (play client 3 [] x).1 = [.dispatched, .calling 2 2 .none, .accepted] ∧
      (play client 3 [] x.unlinked).1 = (play client 3 [] x).1 := by
  intro x client
  have hx : x.Reachable := ⟨_, _, rfl⟩
  have hframes : x.frames = [] := by decide +kernel
  have hsame := sameOffLinks_unlinked x
  exact ⟨hx, by decide +kernel, hsame, hframes, by decide +kernel,
    (links_unobserved hsame hframes client 3).1⟩

/-! ## Classes and arguments -/

/-- Two machines differ at most in the classes of timers and the arguments of callbacks, in their
cells and in what was recorded. -/
structure SameOffLabels (x y : Machine m n) : Prop where
  frames : y.frames = x.frames
  schedulers : y.system.schedulers = x.system.schedulers
  timer : ∀ t, y.system.timer t =
    { x.system.timer t with
      arg := (y.system.timer t).arg, priority := (y.system.timer t).priority }
  trace : y.system.trace.map Recast.plain.event = x.system.trace.map Recast.plain.event

/-- A machine is the same as itself off the labels. -/
theorem SameOffLabels.refl (x : Machine m n) : SameOffLabels x x :=
  ⟨rfl, rfl, fun _ => rfl, rfl⟩

/-- Machines differ at most in classes and arguments if they are alike without them. -/
theorem sameOffLabels_iff :
    SameOffLabels x y ↔ Recast.plain.machine y = Recast.plain.machine x := by
  constructor
  · intro h
    have htimers : Recast.plain.cells y.system.timers = Recast.plain.cells x.system.timers := by
      refine Table.ext fun t => ?_
      rw [Recast.get_cells, Recast.get_cells]
      exact (Recast.timer_plain_eq_iff t).2 (h.timer t)
    simp only [Recast.machine, Recast.system, h.frames, h.schedulers, h.trace, htimers]
  · intro h
    have hsystem : Recast.plain.system y.system = Recast.plain.system x.system :=
      congrArg Machine.system h
    refine ⟨(congrArg Machine.frames h :), (congrArg System.schedulers hsystem :), fun t => ?_, ?_⟩
    · have htimer := congrArg (System.timer · t) hsystem
      simp only [Recast.timer_system] at htimer
      exact (Recast.timer_plain_eq_iff t).1 htimer
    · have htrace := congrArg System.trace hsystem
      simpa only [Recast.system, Recast.plain, List.append_nil] using htrace

/-- The client that does the same without classes and arguments. -/
def plainly (client : List (Reply n) → Action m n) (heard : List (Reply n)) : Action m n :=
  Recast.plain.action (client heard)

/-- Two clients differ at most in the classes and arguments that they give: they do the same but for
these, whenever they heard the same but for these. -/
def AlikeOffLabels (client client' : List (Reply n) → Action m n) : Prop :=
  ∀ heard heard', heard'.map (Recast.plain : Recast m n).reply =
    heard.map (Recast.plain : Recast m n).reply → plainly client' heard' = plainly client heard

namespace AlikeOffLabels

variable {client client' : List (Reply n) → Action m n}

/-- A client that is like another one off the labels is like itself. -/
theorem left (h : AlikeOffLabels client client') : AlikeOffLabels client client :=
  fun heard heard' heq => (h heard' heard' rfl).symm.trans (h heard heard' heq)

/-- Without classes and arguments, a client plays as one that differs from it at most in these. -/
theorem play_eq (h : AlikeOffLabels client client') (k : Nat) (x : Machine m n) :
    play (plainly client) k [] (Recast.plain.machine x) =
      ((play client' k [] x).1.map (Recast.plain : Recast m n).reply,
        Recast.plain.machine (play client' k [] x).2) := by
  have hclient : ∀ heard : List (Reply n),
      plainly client (heard.map (Recast.plain : Recast m n).reply) =
        Recast.plain.action (client' heard) := by
    intro heard
    refine (h _ heard ?_).symm
    rw [List.map_map]
    exact List.map_congr_left fun r _ => (Recast.reply_reply_plain r).symm
  rcases Recast.play_machine (Recast.settled_plain x) hclient k [] with ⟨timers, hplay⟩
  rwa [Recast.settle_plain] at hplay

end AlikeOffLabels

/-- Scripts that differ at most in classes and arguments. -/
theorem alikeOffLabels_scripted {script script' : List (Action m n)}
    (h : script'.map Recast.plain.action = script.map Recast.plain.action) :
    AlikeOffLabels (scripted script) (scripted script') := by
  intro heard heard' heq
  have hlength : heard'.length = heard.length := by
    simpa only [List.length_map] using congrArg List.length heq
  have hscript : ∀ script : List (Action m n), plainly (scripted script) heard =
      (script.map Recast.plain.action).getD heard.length (Recast.plain.action .ret) :=
    fun script => (List.getD_map script .ret _).symm
  have hlater : plainly (scripted script') heard' = plainly (scripted script') heard := by
    simp only [plainly, scripted, hlength]
  rw [hlater, hscript, hscript, h]

/-- Classes and arguments do not influence what happens.  Two clients that give other classes and
other arguments, but do the same otherwise, on machines that differ at most in these, hear the same
replies but for the classes and arguments that these hand back; the same callbacks are called for
the same timers; the same regions, hardware calls and log lines are recorded; and the machines go on
to differ at most in classes and arguments. -/
theorem labels_unobserved {client client' : List (Reply n) → Action m n} (h : SameOffLabels x y)
    (hclient : AlikeOffLabels client client') (k : Nat) :
    (play client' k [] y).1.map (Recast.plain : Recast m n).reply =
        (play client k [] x).1.map (Recast.plain : Recast m n).reply ∧
      SameOffLabels (play client k [] x).2 (play client' k [] y).2 := by
  have hx := hclient.left.play_eq k x
  have hy := hclient.play_eq k y
  rw [sameOffLabels_iff.1 h, hx] at hy
  rcases Prod.mk.inj hy with ⟨hreplies, hmachine⟩
  exact ⟨hreplies.symm, sameOffLabels_iff.2 hmachine.symm⟩

/-- Two timers are armed for the same time and fire, with given classes and arguments. -/
def labelled (s : Fin m) (t u : Fin n) (first second : PriorityClass × CallbackArg) :
    List (Action m n) :=
  [.request s (.command (.init (some t) (some 0) first.2)),
    .request s (.command (.init (some u) (some 1) second.2)),
    .request s (.command (.arm (some t) first.1 (some (.new 1 0)) none)),
    .request s (.command (.arm (some u) second.1 (some (.new 1 0)) none)),
    .request s (.query (.priority (some u))),
    .request s (.dispatch (.new 2 0)), .ret, .ret]

/-- Two clients arm timers with different labels, and hear and record the same but for these. -/
theorem labels_unobserved_labelled :
    let x : Machine 1 2 := initial fun _ => .counting
    let client := scripted (labelled 0 0 1 (.precise, .none) (.precise, .none))
    let client' := scripted (labelled 0 0 1 (.precise, .address 7) (.lowPower, .object 1))
    SameOffLabels x x ∧ AlikeOffLabels client client' ∧
      (play client 8 [] x).1 = [.dispatched, .calling 1 1 .none, .calling 0 0 .none,
        .answered (.priority (some .precise)), .accepted, .accepted, .accepted, .accepted] ∧
      (play client' 8 [] x).1 = [.dispatched, .calling 1 1 (.object 1), .calling 0 0 (.address 7),
        .answered (.priority (some .lowPower)), .accepted, .accepted, .accepted, .accepted] ∧
      SameOffLabels (play client 8 [] x).2 (play client' 8 [] x).2 := by
  intro x client client'
  have hsame := SameOffLabels.refl x
  have hclient : AlikeOffLabels client client' := alikeOffLabels_scripted (by decide)
  exact ⟨hsame, hclient, by decide +kernel, by decide +kernel,
    (labels_unobserved hsame hclient 8).2⟩

end Machine
end SoftTimer
