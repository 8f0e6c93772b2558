import SoftTimer.Proofs.History

/-!
# Bindings

A pass reads the binding of a timer when it comes to it.  So what happens to a timer that a callback
releases while it waits for its turn is decided by what is bound to it by then.  This file says what
the course of events tells about bindings, and what a pass does with a timer that was released.

Main definitions:

- `Timer.binding`: the callback of a timer, with its argument.
- `rebound`: the binding of a timer after a course of events, if it had none before.

Main results:

- Theorem `Moment.Change.binding_eq`: only commands change bindings.
- Theorem `Machine.Reachable.calls_released`: a timer that is released while it waits is called only
  if it is bound anew before its turn, and then once.
-/

namespace SoftTimer

variable {m n : Nat}

/-- The callback bound to a timer, with its argument. -/
def Timer.binding (t : Timer m n) : Option (CallbackId × CallbackArg) :=
  t.callback.map fun callback => (callback, t.arg)

/-- What a command that is carried out makes of the binding of its timer. -/
def Command.rebind {ρ : Type} (binding : Option (CallbackId × CallbackArg)) :
    Command ρ → Option (CallbackId × CallbackArg)
  | .init _ callback arg => callback.map fun callback => (callback, arg)
  | .deinit _ => none
  | _ => binding

/-- What an event makes of the binding of a timer. -/
def Event.rebind (u : Fin n) (binding : Option (CallbackId × CallbackArg)) (e : Event m n) :
    Option (CallbackId × CallbackArg) :=
  e.revise (fun _ c binding => c.rebind binding) u binding

/-- The binding of a timer after some events, if nothing was bound to it before. -/
def rebound (u : Fin n) (es : List (Event m n)) : Option (CallbackId × CallbackArg) :=
  es.foldl (Event.rebind u) none

/-- Whether an event tells that a timer was bound. -/
def Event.binds (u : Fin n) : Event m n → Bool
  | .answered _ (.command (.init timer _ _)) .accepted => timer == some u
  | _ => false

section Events

variable {u : Fin n} {e : Event m n} {es : List (Event m n)} {t : Timer m n}

/-- What an event makes of a timer determines what it makes of the binding. -/
theorem Event.binding_effect (e : Event m n) (t : Timer m n) :
    (e.effect u t).binding = e.rebind u t.binding :=
  apply_effect (fun _ c _ => by cases c <;> rfl) e t

/-- The last event decides about the binding, given what the ones before it left. -/
theorem rebound_concat (u : Fin n) (es : List (Event m n)) (e : Event m n) :
    rebound u (es ++ [e]) = e.rebind u (rebound u es) :=
  List.foldl_concat _ _ _ _

/-- An event that does not bind a timer binds nothing to it. -/
theorem Event.rebind_none (h : e.binds u = false) : e.rebind u none = none := by
  unfold rebind revise
  split
  · next s c =>
    cases c with
    | init timer callback arg => exact if_neg (by simpa [binds, Command.timer] using h)
    | _ => exact ite_self none
  · rfl

/-- Nothing is bound to a timer after events that do not bind it. -/
theorem rebound_eq_none (h : ∀ e ∈ es, e.binds u = false) : rebound u es = none := by
  induction es using List.reverseRecOn with
  | nil => rfl
  | append_singleton es e ih =>
    rw [rebound_concat, ih fun e he => h e (List.mem_append_left _ he)]
    exact Event.rebind_none (h e (by simp))

/-- An event that answers no command for the timer leaves its binding alone. -/
theorem Event.rebind_of_not_commands (h : e.commands u = false)
    (binding : Option (CallbackId × CallbackArg)) : e.rebind u binding = binding :=
  e.revise_of_not_commands h binding

end Events

namespace Moment

variable {x y z : Moment m n} {s : Fin m} {t u : Fin n} {es more : List (Event m n)}
  {actions : List (Action m n)}

/-- Only commands change bindings. -/
theorem Change.binding_eq (h : Change x y es) (u : Fin n) :
    (y.system.timer u).binding = es.foldl (Event.rebind u) (x.system.timer u).binding :=
  h.observe_eq (fun _ _ hlasting => (congrArg Timer.binding hlasting :)) Event.binding_effect

/-- A pass calls a timer only when it comes to it. -/
theorem Change.calls_le (h : Change x y es) (s : Fin m) (u : Fin n) :
    calls s u es ≤ (visits s es).count u := by
  cases h with
  | other _ events => rcases events with rfl | ⟨r, c, reply, rfl⟩ <;> simp [calls, Event.isCall]
  | began => simp [calls, Event.isCall]
  | @visited c t =>
    rw [visits_visited]
    cases (x.system.timer t).callback <;> by_cases hr : c.scheduler = s <;> by_cases ht : t = u <;>
      simp [calls, Event.isCall, hr, ht]
  | finished => simp [calls, Event.isCall]

/-! ## Runs -/

/-- What a run made of the binding of a timer. -/
theorem binding_run (hx : x.system.Steady)
    (hes : (x.run actions).system.course = x.system.course ++ es) (u : Fin n) :
    ((x.run actions).system.timer u).binding =
      es.foldl (Event.rebind u) (x.system.timer u).binding := by
  refine run_induction_of_course (φ := fun y es => (y.system.timer u).binding =
    es.foldl (Event.rebind u) (x.system.timer u).binding) hx hes rfl ?_
  intro y z es more _ _ _ hchange hy
  rw [hchange.binding_eq u, hy, List.foldl_append]

/-- During a run a timer is called at most as often as passes come to it. -/
theorem calls_run_le (hx : x.system.Steady)
    (hes : (x.run actions).system.course = x.system.course ++ es) (s : Fin m) (u : Fin n) :
    calls s u es ≤ (visits s es).count u := by
  refine run_induction_of_course (φ := fun _ es => calls s u es ≤ (visits s es).count u) hx hes
    (Nat.le_refl 0) ?_
  intro y z es more _ _ _ hchange hy
  rw [calls_append, visits_append, List.count_append]
  exact Nat.add_le_add hy (hchange.calls_le s u)

/-- When a pass comes to a timer, it calls at once what is bound to it, and otherwise nothing. -/
theorem Change.of_visited {earlier later : List (Event m n)}
    (h : Change x y (earlier ++ .visited s u :: later)) :
    earlier = [] ∧ later = ((x.system.timer u).binding.map fun b =>
      .called s u b.1 b.2).toList := by
  generalize hes : earlier ++ .visited s u :: later = es at h
  cases h with
  | other _ events =>
    rcases events with rfl | ⟨r, c, reply, rfl⟩
    · simp at hes
    · simp [List.append_eq_singleton_iff] at hes
  | began =>
    exact absurd (hes ▸ List.mem_append_right earlier List.mem_cons_self : Event.visited s u ∈ _)
      (by simp)
  | @visited c t =>
    cases earlier with
    | nil =>
      rcases List.cons.inj hes with ⟨hone, hlater⟩
      injection hone with hs ht
      subst hs ht
      refine ⟨rfl, ?_⟩
      rw [hlater, Timer.binding, Option.map_map]
      rfl
    | cons e earlier =>
      have hmem : Event.visited s u ∈ ((x.system.timer t).callback.map fun callback =>
          .called c.scheduler t callback (x.system.timer t).arg).toList := by
        rw [← (List.cons.inj hes).2]
        simp
      cases hcallback : (x.system.timer t).callback <;> simp [hcallback] at hmem
  | finished => simp [List.append_eq_singleton_iff] at hes

/-- The turn of a timer in a run: it is called at once if it is bound by then, and apart from that
only if passes come to it once more. -/
theorem exists_turn {mid rest : List (Event m n)} (hx : x.system.Steady)
    (hes : (x.run actions).system.course = x.system.course ++ (mid ++ .visited s u :: rest)) :
    ∃ after, rest = ((mid.foldl (Event.rebind u) (x.system.timer u).binding).map fun b =>
        .called s u b.1 b.2).toList ++ after ∧
      calls s u mid ≤ (visits s mid).count u ∧ calls s u after ≤ (visits s after).count u := by
  rcases exists_step_of_course hx hes with
    ⟨first, a, last, passed, earlier, later, after, rfl, hpassed, rfl, hstep, rfl, hchange⟩
  rcases hchange.of_visited with ⟨rfl, rfl⟩
  rw [List.append_nil] at hes ⊢
  have hafter : (((x.run first).step a).run last).system.course =
      ((x.run first).step a).system.course ++ after := by
    rw [hstep, hpassed]
    rw [run_append, run_cons] at hes
    simpa using hes
  refine ⟨after, ?_, calls_run_le hx hpassed s u,
    calls_run_le (steady_step (steady_run hx first) a) hafter s u⟩
  rw [binding_run hx hpassed u]

/-- What a call finds bound to the timer, in a run. -/
theorem binding_of_called {mid rest : List (Event m n)} {callback : CallbackId} {arg : CallbackArg}
    (hx : x.system.Steady)
    (hes : (x.run actions).system.course =
      x.system.course ++ (mid ++ .called s u callback arg :: rest)) :
    mid.foldl (Event.rebind u) (x.system.timer u).binding = some (callback, arg) := by
  rcases exists_step_of_course hx hes with
    ⟨first, a, last, passed, earlier, later, after, rfl, hpassed, rfl, -, rfl, hchange⟩
  rcases hchange.of_called with ⟨rfl, rfl, -, hcallback, harg⟩
  rw [List.foldl_concat, Event.rebind_of_not_commands rfl, ← binding_run hx hpassed u,
    Timer.binding, hcallback, ← harg]
  rfl

end Moment

/-! ## Timers that are released while they wait -/

/-- How often a pass calls a timer from its turn on. -/
theorem calls_turn (s : Fin m) (u : Fin n) (binding : Option (CallbackId × CallbackArg))
    (after : List (Event m n)) :
    calls s u (.visited s u :: (binding.map fun b => .called s u b.1 b.2).toList ++ after) =
      (if binding.isSome then 1 else 0) + calls s u after := by
  rw [calls_append]
  cases binding <;> simp [calls, Event.isCall]

/-- What passes of `s` do with a timer to which nothing is bound, in a run during which they come to
it at most once. -/
theorem Moment.calls_unbound {y : Moment m n} {s : Fin m} {u : Fin n} {es : List (Event m n)}
    {actions : List (Action m n)} (hy : y.system.Steady)
    (hblank : (y.system.timer u).binding = none)
    (hes : (y.run actions).system.course = y.system.course ++ es) (honce : (visits s es).Nodup) :
    calls s u es ≤ 1 ∧
      (∀ mid callback arg rest, es = mid ++ .called s u callback arg :: rest →
        rebound u mid = some (callback, arg)) ∧
      ((∀ e ∈ es, e.binds u = false) → calls s u es = 0) ∧
      (u ∈ visits s es → ∃ mid rest, es = mid ++ .visited s u :: rest ∧
        calls s u es = if (rebound u mid).isSome then 1 else 0) := by
  have hcalled : ∀ mid callback arg rest, es = mid ++ .called s u callback arg :: rest →
      rebound u mid = some (callback, arg) := by
    rintro mid callback arg rest rfl
    rw [rebound, ← hblank]
    exact binding_of_called hy hes
  refine ⟨?_, hcalled, ?_, ?_⟩
  · exact (calls_run_le hy hes s u).trans (List.nodup_iff_count_le_one.1 honce u)
  · intro hnone
    rw [calls, List.countP_eq_zero]
    intro e he hcall
    obtain ⟨callback, arg, rfl⟩ : ∃ callback arg, e = .called s u callback arg := by
      cases e <;> simp_all [Event.isCall]
    rcases List.append_of_mem he with ⟨mid, rest, rfl⟩
    have hbound := hcalled mid callback arg rest rfl
    rw [rebound_eq_none fun e he => hnone e (List.mem_append_left _ he)] at hbound
    cases hbound
  · intro hmem
    rcases List.append_of_mem (mem_visits.1 hmem) with ⟨mid, rest, rfl⟩
    rcases exists_turn hy hes with ⟨after, rfl, hmid, hafter⟩
    rw [hblank, ← rebound] at honce ⊢
    -- no other visit of the timer, so no call apart from the one at its turn
    have hcount : (visits s mid).count u = 0 ∧ (visits s after).count u = 0 := by
      have hone := List.nodup_iff_count_le_one.1 honce u
      have hturn : visits s [.visited s u] = [u] := by simp [visits, Event.visitedBy]
      rw [List.append_cons, visits_append, visits_append, visits_append, hturn,
        List.count_append, List.count_append, List.count_append, List.count_singleton_self] at hone
      omega
    refine ⟨mid, _, rfl, ?_⟩
    rw [calls_append, ← List.cons_append, calls_turn]
    omega

/-- With one scheduler, a timer that is released while it waits for its turn is called at most once
by the pass that took it out.  If it is called, it is with what was bound to it last since it was
released; so it is not called at all if nothing was.  By the end of the pass its turn has come, and
it was called exactly if something was bound to it by then. -/
theorem Machine.Reachable.calls_released {x : Machine 1 n} (hx : x.Reachable)
    (hidle : x.system.dispatching 0 = false) (now : Timespec) {actions : List (Action 1 n)}
    (hrun : Moment.Throughout 0 (x.dispatched 0 now) actions) {u : Fin n}
    (hdue : u ∈ x.system.due 0 now) {before after : List (Event 1 n)}
    (hes : ((x.dispatched 0 now).run actions).system.course =
      (x.dispatched 0 now).system.course ++
        (before ++ .answered 0 (.command (.deinit (some u))) .accepted :: after))
    (hwaits : u ∉ visits 0 before) :
    calls 0 u after ≤ 1 ∧
      (∀ mid callback arg rest, after = mid ++ .called 0 u callback arg :: rest →
        rebound u mid = some (callback, arg)) ∧
      ((∀ e ∈ after, e.binds u = false) → calls 0 u after = 0) ∧
      (((x.dispatched 0 now).run actions).system.dispatching 0 = false →
        ∃ mid rest, after = mid ++ .visited 0 u :: rest ∧
          calls 0 u after = if (rebound u mid).isSome then 1 else 0) := by
  have hsteady : x.system.Steady := (Moment.Reachable.ofMachine hx).steady
  have hbegun : (x.dispatched 0 now).system.Steady := Moment.steady_step hsteady _
  -- the pass comes to its timers in order, so to this one at most once, and after its release
  rcases x.dispatched_spec hsteady hidle now with ⟨hnd, -, -, hstatus⟩
  obtain ⟨total, htotal, hend⟩ := hrun.induction (φ := Status 0 (x.system.due 0 now)) hbegun
    (fun _ _ _ _ h hs hchange => h.change hnd hs hchange) hstatus
  rw [List.nil_append] at hend
  obtain rfl := List.append_cancel_left (hes.symm.trans htotal)
  rcases hend.visits_of_not_stolen fun t _ ⟨_, r, _, _, _, hr, _⟩ => hr (Subsingleton.elim r 0) with
    ⟨hinit, hall⟩
  have hvisits : visits 0 (before ++ .answered 0 (.command (.deinit (some u))) .accepted :: after) =
      visits 0 before ++ visits 0 after := visits_append _ _ _
  rw [hvisits] at hinit hall
  have honce : (visits 0 after).Nodup := (List.nodup_append.1 (hnd.sublist hinit.sublist)).2.1
  -- at the moment of the release nothing is bound to the timer
  rcases Moment.exists_step_of_course hbegun hes with
    ⟨first, a, last, passed, earlier, later, rest, rfl, hpassed, rfl, hstep, rfl, hchange⟩
  rcases hchange.of_answered with ⟨rfl, rfl, hbody⟩
  have hblank : ((((x.dispatched 0 now).run first).step a).system.timer u).binding = none := by
    have hreleased := congrArg Timer.binding (hbody u)
    rw [Event.binding_effect, Event.rebind, Event.revise_of_timer_eq rfl] at hreleased
    exact hreleased
  have hafter : ((((x.dispatched 0 now).run first).step a).run last).system.course =
      (((x.dispatched 0 now).run first).step a).system.course ++ rest := by
    rw [hstep, hpassed]
    simpa [Moment.run_append] using hes
  rcases Moment.calls_unbound (Moment.steady_step (Moment.steady_run hbegun first) a) hblank hafter
    honce with ⟨hle, hcalled, hnone, hturn⟩
  refine ⟨hle, hcalled, hnone, fun hover => hturn ?_⟩
  have hmem : u ∈ visits 0 (passed ++ []) ++ visits 0 ([] ++ rest) := by rwa [hall hover]
  exact (List.mem_append.1 hmem).resolve_left hwaits

/-- A pass of two timers, during which the callback of the first one releases the other one, which is
`t`, and binds it anew. -/
def rebinding (s : Fin m) (t : Fin n) : List (Action m n) :=
  [.ret, .request s (.command (.deinit (some t))),
    .request s (.command (.init (some t) (some 1) (.address 7))), .ret, .ret, .ret, .ret]

/-- The events before the timer is released, and those after that. -/
theorem course_rebinding :
    (((Machine.twoArmed (0 : Fin 1) (0 : Fin 2) 1).dispatched 0 (.new 2 0)).run
        (rebinding 0 0)).system.course =
      ((Machine.twoArmed (0 : Fin 1) (0 : Fin 2) 1).dispatched 0 (.new 2 0)).system.course ++
        ([.visited 0 1, .called 0 1 1 .none] ++
          .answered 0 (.command (.deinit (some 0))) .accepted ::
            [.answered 0 (.command (.init (some 0) (some 1) (.address 7))) .accepted,
              .visited 0 0, .called 0 0 1 (.address 7), .finished 0]) := by
  decide

/-- The timer that was bound anew is called with its new argument. -/
theorem calls_rebinding :
    let y : Moment 1 2 := (Machine.twoArmed 0 0 1).dispatched 0 (.new 2 0)
    Moment.Throughout 0 y (rebinding 0 0) ∧ ∃ before mid rest,
      (y.run (rebinding 0 0)).system.course = y.system.course ++
        (before ++ .answered 0 (.command (.deinit (some 0))) .accepted ::
          (mid ++ .called 0 0 1 (.address 7) :: rest)) ∧
      rebound 0 mid = some (1, .address 7) := by
  have hrun : Moment.Throughout 0 ((Machine.twoArmed (0 : Fin 1) (0 : Fin 2) 1).dispatched 0
      (.new 2 0)) (rebinding 0 0) := by decide
  have hreleased := Machine.Reachable.calls_released ⟨_, _, rfl⟩ (by decide) (.new 2 0) hrun
    (u := 0) (by decide) course_rebinding (by decide)
  exact ⟨hrun, _, _, _, course_rebinding,
    hreleased.2.1 [.answered 0 (.command (.init (some 0) (some 1) (.address 7))) .accepted,
      .visited 0 0] 1 (.address 7) [.finished 0] rfl⟩

/-- A timer that was released while it waits may be called after all. -/
theorem exists_released_called :
    ¬ ∀ (n : Nat) (x : Machine 1 n) (now : Timespec) (actions : List (Action 1 n)) (u : Fin n)
      (before after : List (Event 1 n)), x.Reachable → x.system.dispatching 0 = false →
      Moment.Throughout 0 (x.dispatched 0 now) actions → u ∈ x.system.due 0 now →
      ((x.dispatched 0 now).run actions).system.course =
        (x.dispatched 0 now).system.course ++
          (before ++ .answered 0 (.command (.deinit (some u))) .accepted :: after) →
      u ∉ visits 0 before → calls 0 u after = 0 := by
  intro h
  have hzero := h 2 (.twoArmed 0 0 1) (.new 2 0) (rebinding 0 0) 0 _ _ ⟨_, _, rfl⟩ (by decide)
    (by decide) (by decide) course_rebinding (by decide)
  revert hzero
  decide

end SoftTimer
