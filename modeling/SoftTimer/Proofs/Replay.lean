import SoftTimer.Proofs.Moment
import SoftTimer.Proofs.Recast

/-!
# Recast runs

A client decides what to do next from the replies that it heard.  A recast client plays on a recast
machine as the client plays on the machine itself, as long as every walk along a chain comes only to
timers whose links are settled.  This holds by itself: a pass settles the links of the timers that
it takes out, and its walk leads from these to no others.

Main definitions:

- `Machine.play`: a client plays on a machine.
- `Recast.machine`: a machine, recast.
- `Recast.Settled`: walks come only to timers whose links are left alone.

Main results:

- Theorem `Machine.play_scripted`: a client with a script plays the run of its steps.
- Theorem `Recast.step_machine`: a step on a recast machine.
- Theorem `Recast.play_machine`: a run on a recast machine.
-/

namespace SoftTimer

variable {m n : Nat}

/-! ## Clients -/

namespace Machine

/-- A client takes `k` steps, and decides on each one from the replies that it heard, the latest
first.  It speaks for all code in control, callbacks among it. -/
def play (client : List (Reply n) → Action m n) :
    (k : Nat) → List (Reply n) → Machine m n → List (Reply n) × Machine m n
  | 0, heard, x => (heard, x)
  | k + 1, heard, x =>
    let (reply, y) := x.step (client heard)
    play client k (reply :: heard) y

/-- A client that takes the steps of a script, whatever it hears. -/
def scripted (script : List (Action m n)) (heard : List (Reply n)) : Action m n :=
  script.getD heard.length .ret

/-- A client that follows a script from some step on takes the machine where the actions do. -/
theorem play_scripted_append {before : List (Action m n)} {heard : List (Reply n)}
    (h : heard.length = before.length) (actions : List (Action m n)) (x : Machine m n) :
    (play (scripted (before ++ actions)) actions.length heard x).2 = x.run actions := by
  induction actions generalizing before heard x with
  | nil => rfl
  | cons a actions ih =>
    have hnext : scripted (before ++ a :: actions) heard = a := by
      simp [scripted, h]
    have hlater : before ++ a :: actions = (before ++ [a]) ++ actions := by simp
    rw [List.length_cons, play, hnext, run_cons, hlater]
    exact ih (by simp [h]) _

/-- A client with a script plays the run of its steps. -/
theorem play_scripted (actions : List (Action m n)) (x : Machine m n) :
    (play (scripted actions) actions.length [] x).2 = x.run actions := by
  have hlength : ([] : List (Reply n)).length = ([] : List (Action m n)).length := rfl
  exact play_scripted_append hlength actions x

end Machine

/-! ## Links at the beginning of a pass -/

namespace System

variable {sys sys' : System m n} {s : Fin m} {t u v : Fin n} {now : Timespec}
  {timers : List (Fin n)}

/-- Taking out the head changes no links of passes. -/
theorem firedNext_unlinkExpired (h : sys.unlinkExpired s now = some (t, sys')) (u : Fin n) :
    (sys'.timer u).firedNext = (sys.timer u).firedNext := by
  rcases Option.map_eq_some_iff.1 h with ⟨⟨v, x⟩, hpop, heq⟩
  rcases Prod.mk.inj heq with ⟨-, rfl⟩
  rcases Option.map_eq_some_iff.1 hpop with ⟨w, -, hremove⟩
  rcases Prod.mk.inj hremove with ⟨-, rfl⟩
  exact Timer.apply_eq_of_body_eq Timer.firedNext_body (Threaded.body_remove _ w u)

/-- Taking timers out changes no links of passes. -/
theorem firedNext_detachExpired (sys : System m n) (s : Fin m) (now : Timespec) (limit : Nat)
    (u : Fin n) :
    ((sys.detachExpired s now limit).2.timer u).firedNext = (sys.timer u).firedNext := by
  induction limit generalizing sys with
  | zero => rfl
  | succ limit ih =>
    rw [detachExpired]
    split
    · rfl
    · next t a hexpired =>
      dsimp only
      rw [ih, ← firedNext_unlinkExpired hexpired u]
      exact apply_timer_modifyTimer a t u (φ := Timer.firedNext) (by intro _; rfl)

/-- Along the chain every timer leads to one of the chain, or to nothing. -/
theorem mem_of_firedNext_chain (hu : u ∈ timers)
    (hv : ((sys.chain timers).timer u).firedNext = some v) : v ∈ timers := by
  induction timers generalizing sys with
  | nil => cases hu
  | cons t timers ih =>
    rw [chain] at hv
    by_cases hmem : u ∈ timers
    · exact List.mem_cons_of_mem t (ih hmem hv)
    · obtain rfl : u = t := (List.mem_cons.1 hu).resolve_right hmem
      rw [firedNext_chain_of_notMem _ hmem, timer_modifyTimer_self] at hv
      exact List.mem_cons_of_mem u (List.mem_of_head? hv)

/-- Rearming timers changes no links of passes. -/
theorem firedNext_rearm_all (timers : List (Fin n)) (sys : System m n) (s : Fin m) (u : Fin n) :
    ((timers.foldl (rearm s) sys).timer u).firedNext = (sys.timer u).firedNext := by
  induction timers generalizing sys with
  | nil => rfl
  | cons t timers ih =>
    rw [List.foldl_cons, ih]
    exact (congrArg Timer.firedNext ((rearmed_rearm sys s t).body u) :)

/-- The timers that a pass of `s` takes out when it begins. -/
def takenOut (sys : System m n) (s : Fin m) (now : Timespec) : List (Fin n) :=
  ((sys.collecting s now).detachExpired s now n).1

/-- A pass that begins starts at the first of the timers that it takes out. -/
theorem begin_fst_of_not_dispatching (h : sys.dispatching s = false) (now : Timespec) :
    (sys.begin s now).1 = .admitted (sys.takenOut s now).head? := by
  rw [begin_of_not_dispatching h]
  rfl

/-- When a pass begins, links of passes change as its timers are chained up, and not otherwise. -/
theorem timer_begin_of_not_dispatching (h : sys.dispatching s = false) (now : Timespec)
    (u : Fin n) : ((sys.begin s now).2.timer u).firedNext =
      ((((sys.collecting s now).detachExpired s now n).2.chain (sys.takenOut s now)).timer
        u).firedNext := by
  rw [begin_of_not_dispatching h, timer, timers_leave]
  exact firedNext_rearm_all _ _ s u

end System

namespace Recast

variable {R : Recast m n} {x y : Machine m n} {s : Fin m} {t : Fin n} {now : Timespec}
  {next : Option (Fin n)} {timers : List (Fin n)}

/-- What code in control does next, recast. -/
def action (R : Recast m n) : Action m n → Action m n
  | .request s what => .request s (R.request what)
  | .ret => .ret

/-- A machine, recast. -/
def machine (R : Recast m n) (x : Machine m n) : Machine m n where
  system := R.system x.system
  frames := x.frames

/-! ## Settled links -/

/-- The link of the timer is left alone. -/
def Settles (R : Recast m n) (t : Fin n) : Prop :=
  ∀ next, R.link t next = next

/-- When some more timers are left alone, the settled links are theirs and those from before. -/
theorem settles_settle_iff : (R.settle timers).Settles t ↔ t ∈ timers ∨ R.Settles t := by
  by_cases ht : t ∈ timers
  · simp [Settles, settle, ht]
  · simp [Settles, settle, ht]

/-- The passes whose callbacks run come next to timers whose links are settled, and these lead to
settled ones. -/
structure Settled (R : Recast m n) (x : Machine m n) : Prop where
  frames : ∀ f ∈ x.frames, ∀ t, f.next = some t → R.Settles t
  links : ∀ t, R.Settles t → ∀ u, (x.system.timer t).firedNext = some u → R.Settles u

namespace Settled

/-- What the passes come to next stays settled where neither frames nor links of passes change. -/
theorem of_firedNext (h : R.Settled x) (hframes : y.frames = x.frames)
    (hlinks : ∀ t, (y.system.timer t).firedNext = (x.system.timer t).firedNext) : R.Settled y := by
  constructor
  · rw [hframes]
    exact h.frames
  · intro t
    rw [hlinks]
    exact h.links t

/-- It stays so at the end of a pass. -/
theorem finish (h : R.Settled x) (s : Fin m) (now : Timespec) :
    R.Settled { x with system := x.system.finish s now } :=
  h.of_firedNext rfl fun t => congrArg (fun cells : Cells m n => (cells.get t).firedNext)
    (System.timers_finish x.system s now)

/-- Coming to a timer takes a link away. -/
theorem visit (h : R.Settled x) (s : Fin m) (t : Fin n) :
    R.Settled { x with system := (x.system.visit s t).2 } := by
  refine ⟨h.frames, fun u hu v hv => h.links u hu v ?_⟩
  rw [System.timer_visit] at hv
  split at hv
  · cases hv
  · exact hv

/-- Calling a timer leaves its pass waiting to come to the timer after it. -/
theorem call (h : R.Settled x) (ht : R.Settles t) (e : Event m n) (s : Fin m) (now : Timespec) :
    R.Settled
      { system := (x.system.visit s t).2.emit e
        frames := ⟨s, now, t, (x.system.timer t).firedNext⟩ :: x.frames } := by
  refine ⟨fun f hf u hu => ?_, (h.visit s t).links⟩
  rcases List.mem_cons.1 hf with rfl | hf
  · exact h.links t ht u hu
  · exact h.frames f hf u hu

/-- A pass that begins settles the links of its chain. -/
theorem begin (h : R.Settled x) (hidle : x.system.dispatching s = false) (now : Timespec) :
    (R.settle (x.system.takenOut s now)).Settled
      { x with system := (x.system.begin s now).2 } := by
  refine ⟨fun f hf u hu => settles_settle_iff.2 (.inr (h.frames f hf u hu)), fun t ht u hu => ?_⟩
  rw [System.timer_begin_of_not_dispatching hidle] at hu
  rw [settles_settle_iff] at ht ⊢
  by_cases hmem : t ∈ x.system.takenOut s now
  · exact .inl (System.mem_of_firedNext_chain hmem hu)
  · rw [System.firedNext_chain_of_notMem _ hmem, System.firedNext_detachExpired] at hu
    exact .inr (h.links t (ht.resolve_left hmem) u hu)

end Settled

/-! ## Steps -/

/-- A walk that comes only to timers whose links are settled. -/
theorem walk_machine (h : R.Settled x) (hnext : ∀ t, next = some t → R.Settles t) (s : Fin m)
    (now : Timespec) (k : Nat) :
    Machine.walk s now k next (R.machine x) =
        (R.reply (Machine.walk s now k next x).1, R.machine (Machine.walk s now k next x).2) ∧
      R.Settled (Machine.walk s now k next x).2 := by
  have hfinish : ∀ x : Machine m n, R.Settled x →
      ((.dispatched : Reply n), { R.machine x with system := (R.system x.system).finish s now }) =
          (R.reply .dispatched, R.machine { x with system := x.system.finish s now }) ∧
        R.Settled { x with system := x.system.finish s now } := by
    intro x hx
    rw [finish_system]
    exact ⟨rfl, hx.finish s now⟩
  induction k generalizing next x with
  | zero => cases next <;> exact hfinish x h
  | succ k ih =>
    cases next with
    | none => exact hfinish x h
    | some t =>
      have ht := hnext t rfl
      have hvisit := R.visit_system x.system s t ht
      have hsystem : (R.machine x).system = R.system x.system := rfl
      rw [Machine.walk, Machine.walk, hsystem, hvisit]
      dsimp only
      cases hbinding : (x.system.visit s t).1.binding with
      | none => exact ih (h.visit s t) fun u hu => h.links t ht u hu
      | some binding =>
        exact ⟨rfl, h.call ht (.called s t binding.1 binding.2) s now⟩

/-- Recording a reply commutes with a recast. -/
theorem respond_machine (x : Machine m n) (s : Fin m) (what : Request (Option (Fin n)))
    (reply : Reply n) (sys : System m n) :
    (R.machine x).respond s (R.request what) (R.reply reply) (R.system sys) =
      (R.reply (x.respond s what reply sys).1, R.machine (x.respond s what reply sys).2) :=
  rfl

/-- Whether a command was carried out or refused is told alike. -/
theorem reply_ofOutcome (outcome : Except Refusal Unit) :
    R.reply (.ofOutcome outcome : Reply n) = .ofOutcome outcome := by
  rcases outcome with cause | ⟨⟩ <;> rfl

/-- A command commutes with a recast, and is answered alike. -/
theorem request_machine_command (x : Machine m n) (s : Fin m) (c : Command (Option (Fin n))) :
    (R.machine x).request s (R.request (.command c)) =
      (R.reply (x.request s (.command c)).1, R.machine (x.request s (.command c)).2) := by
  have hcommand : (R.machine x).system.command s (R.command c) = _ :=
    R.command_system x.system s c
  have hrespond := respond_machine (R := R) x s (.command c)
    (.ofOutcome (x.system.command s c).1) (x.system.command s c).2
  rw [reply_ofOutcome] at hrespond
  simp only [Machine.request, request, hcommand]
  exact hrespond

/-- A query commutes with a recast, and is answered with the recast answer. -/
theorem request_machine_query (x : Machine m n) (s : Fin m) (q : Query (Option (Fin n))) :
    (R.machine x).request s (R.request (.query q)) =
      (R.reply (x.request s (.query q)).1, R.machine (x.request s (.query q)).2) := by
  have hquery : (R.machine x).system.query s q = _ := R.query_system x.system s q
  simp only [Machine.request, request, hquery]
  exact respond_machine (R := R) x s (.query q) (.answered (x.system.query s q).1)
    (x.system.query s q).2

/-- A request of a recast machine; a pass that begins settles the links of its chain. -/
theorem request_machine_dispatch (h : R.Settled x) (s : Fin m) (now : Timespec) :
    ∃ timers, (R.settle timers).Settled (x.request s (.dispatch now)).2 ∧
      (R.machine x).request s (.dispatch now) =
        (R.reply (x.request s (.dispatch now)).1,
          (R.settle timers).machine (x.request s (.dispatch now)).2) := by
  cases hs : x.system.dispatching s with
  | true =>
    have hbegin : (R.machine x).system.begin s now = _ :=
      R.begin_system_of_dispatching x.system s now hs
    have hignored : (x.system.begin s now).1 = .ignored := by rw [System.begin_of_dispatching hs]
    refine ⟨[], ?_⟩
    rw [settle_nil, Machine.request_dispatch_of_ignored hignored,
      Machine.request_dispatch_of_ignored ((congrArg Prod.fst hbegin).trans hignored), hbegin]
    exact ⟨h.of_firedNext rfl fun t => congrArg (fun cells : Cells m n =>
      (cells.get t).firedNext) (System.alike_begin_of_dispatching hs now).timers, rfl⟩
  | false =>
    have hbegin : (R.machine x).system.begin s now = _ := R.begin_system x.system s now hs
    have hfirst := System.begin_fst_of_not_dispatching hs now
    have hwalk := walk_machine (h.begin hs now)
      (fun t ht => settles_settle_iff.2 (.inl (List.mem_of_head? ht))) s now (n + 1)
    refine ⟨x.system.takenOut s now, ?_⟩
    rw [Machine.request_dispatch_of_admitted hfirst,
      Machine.request_dispatch_of_admitted ((congrArg Prod.fst hbegin).trans hfirst), hbegin]
    exact ⟨hwalk.2, hwalk.1⟩

/-- A step of a recast machine does the same; beginning a pass settles some more links. -/
theorem step_machine (h : R.Settled x) (a : Action m n) :
    ∃ timers, (R.settle timers).Settled (x.step a).2 ∧
      (R.machine x).step (R.action a) =
        (R.reply (x.step a).1, (R.settle timers).machine (x.step a).2) := by
  cases a with
  | request s what =>
    cases what with
    | command c =>
      refine ⟨[], ?_, ?_⟩
      · rw [settle_nil]
        exact h.of_firedNext rfl fun t => System.firedNext_command x.system s c t
      · rw [settle_nil]
        exact request_machine_command x s c
    | query q =>
      refine ⟨[], ?_, ?_⟩
      · rw [settle_nil]
        refine h.of_firedNext rfl fun t => ?_
        exact congrArg (fun cells : Cells m n => (cells.get t).firedNext)
          (System.alike_query x.system s q).timers
      · rw [settle_nil]
        exact request_machine_query x s q
    | dispatch now => exact request_machine_dispatch h s now
  | ret =>
    refine ⟨[], ?_⟩
    rw [settle_nil]
    have hframes : (R.machine x).frames = x.frames := rfl
    simp only [Machine.step, Machine.ret, action, hframes]
    rcases hcase : x.frames with _ | ⟨frame, frames⟩
    · exact ⟨h, rfl⟩
    · rcases h with ⟨hnext, hlinks⟩
      rw [hcase] at hnext
      have hrest : R.Settled { x with frames } :=
        ⟨fun f hf => hnext f (List.mem_cons_of_mem _ hf), hlinks⟩
      have hwalk := walk_machine hrest (hnext frame List.mem_cons_self) frame.scheduler frame.now
        (n + 1)
      exact ⟨hwalk.2, hwalk.1⟩

/-! ## Runs -/

/-- A recast client on a recast machine hears the recast replies. -/
theorem play_machine {client client' : List (Reply n) → Action m n} (h : R.Settled x)
    (hclient : ∀ heard, client' (heard.map R.reply) = R.action (client heard)) (k : Nat)
    (heard : List (Reply n)) :
    ∃ timers, Machine.play client' k (heard.map R.reply) (R.machine x) =
      ((Machine.play client k heard x).1.map R.reply,
        (R.settle timers).machine (Machine.play client k heard x).2) := by
  induction k generalizing R x heard with
  | zero => exact ⟨[], by rw [settle_nil]; rfl⟩
  | succ k ih =>
    rcases step_machine h (client heard) with ⟨timers, hsettled, hstep⟩
    -- settling links changes neither replies nor actions
    have hclient' : ∀ heard, client' (heard.map (R.settle timers).reply) =
        (R.settle timers).action (client heard) := hclient
    rcases ih hsettled hclient' ((x.step (client heard)).1 :: heard) with ⟨more, hrest⟩
    refine ⟨timers ++ more, ?_⟩
    rw [Machine.play, Machine.play, hclient, hstep, ← settle_settle]
    exact hrest

end Recast
end SoftTimer
