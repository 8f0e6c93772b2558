import SoftTimer.Proofs.Turns

/-!
# Dispatches

This file follows a dispatch of a scheduler from its beginning, through everything that callbacks do
meanwhile, to its end.

Main definitions:

- `Machine.dispatched`: the moment when a dispatch has begun.
- `Moment.Throughout`: a run during which a pass of a scheduler is under way.
- `Moment.ownAlong`: what the steps give in which the pass of a scheduler is in control.
- `Moment.turn`: what the pass in control is about to do.

Main results:

- Theorem `Machine.Reachable.visits_due`: the timers that a pass comes to, their order, and what is
  called for each.
- Theorem `Machine.Reachable.calls_innocent`: when a timer that is left alone is called.
-/

namespace SoftTimer

variable {m n : Nat}

/-! ## What a pass takes out -/

/-- The timers armed on a scheduler that are due at a time, in the order of the list. -/
def System.due (sys : System m n) (s : Fin m) (now : Timespec) : List (Fin n) :=
  (sys.armedTimers s).filter fun t => decide ((sys.timer t).deadline ≤ now)

/-- In a sound system the timers that are due are the first ones of the list. -/
theorem System.Sound.due_eq {sys : System m n} {armed : Fin m → List (Fin n)}
    (h : sys.Sound armed) (s : Fin m) (now : Timespec) :
    sys.due s now = (armed s).takeWhile (Threaded.isDue sys.timers now) := by
  rw [System.due, ← h.eq_armedTimers]
  exact ((h.holds s).takeWhile_isDue now).symm

/-- No timer is due twice. -/
theorem System.Sound.nodup_due {sys : System m n} {armed : Fin m → List (Fin n)}
    (h : sys.Sound armed) (s : Fin m) (now : Timespec) : (sys.due s now).Nodup := by
  rw [h.due_eq]
  exact (h.holds s).nodup.sublist (List.takeWhile_sublist _)

/-- The moment when a dispatch of `s` has begun. -/
def Machine.dispatched (x : Machine m n) (s : Fin m) (now : Timespec) : Moment m n :=
  (Moment.ofMachine x).step (.request s (.dispatch now))

/-- When a dispatch has begun, the timers that are due have been taken out, and nothing else has
happened. -/
theorem Machine.dispatched_spec {x : Machine m n} {s : Fin m} (hx : x.system.Steady)
    (hidle : x.system.dispatching s = false) (now : Timespec) :
    (x.system.due s now).Nodup ∧
      (x.dispatched s now).system.course = x.system.course ++
        .began s now :: (x.system.due s now).map (fun t =>
          .detached s t (x.system.timer t).deadline) ∧
      (∀ u, ((x.dispatched s now).system.timer u).callback = (x.system.timer u).callback) ∧
      Status s (x.system.due s now) (x.dispatched s now) [] := by
  rcases hx with ⟨armed, hsound, -⟩
  rcases hsound.begin hidle now with ⟨hfirst, hbegun⟩
  have hact : x.dispatched s now = ⟨⟨(x.system.begin s now).2, x.frames⟩,
      some ⟨s, now, (x.system.due s now).head?⟩⟩ := by
    rw [hsound.due_eq]
    exact Moment.act_dispatch_of_admitted hfirst
  rw [hact]
  rw [← hsound.due_eq] at hbegun
  refine ⟨?_, hbegun.course, hbegun.callback, .inl ⟨[], ⟨s, now, (x.system.due s now).head?⟩,
    ?_, rfl, ⟨x.frames.map Frame.cursor, rfl⟩, ?_, ?_, ?_, .inl ⟨_, ?_, rfl, ?_, ?_⟩⟩⟩
  · exact hsound.nodup_due s now
  · rw [hbegun.dispatching, Function.update_self]
  · simp
  · simp
  · simp [taken]
  · rfl
  · exact fun a t b hcut _ => hbegun.chained a t b hcut
  · simp [visits]

/-! ## Runs during a pass -/

namespace Moment

variable {x y : Moment m n} {s : Fin m} {u : Fin n} {es : List (Event m n)}

section Along

variable {α β : Type} (step : Moment m n → α → Moment m n) (give : Moment m n → α → List β)
  (s : Fin m)

/-- A pass of `s` is under way before each of some steps. -/
def MarkedAlong : Moment m n → List α → Prop
  | _, [] => True
  | x, a :: steps => x.system.dispatching s = true ∧ MarkedAlong (step x a) steps

instance MarkedAlong.decidable :
    ∀ (x : Moment m n) (steps : List α), Decidable (MarkedAlong step s x steps)
  | _, [] => isTrue trivial
  | x, a :: steps =>
    have := MarkedAlong.decidable (step x a) steps
    inferInstanceAs (Decidable (x.system.dispatching s = true ∧ _))

/-- What a step gives if the pass of `s` is in control, and otherwise nothing. -/
def ownStep (x : Moment m n) (a : α) : List β :=
  if x.cursor.map Cursor.scheduler = some s then give x a else []

/-- What those of some steps give in which the pass of `s` is in control. -/
def ownAlong : Moment m n → List α → List β
  | _, [] => []
  | x, a :: steps => ownStep give s x a ++ ownAlong (step x a) steps

variable {step give s} {a : α} {steps : List α}

/-- What a step gives in which the pass is in control is its own. -/
theorem ownAlong_cons_of_own (h : x.cursor.map Cursor.scheduler = some s) :
    ownAlong step give s x (a :: steps) = give x a ++ ownAlong step give s (step x a) steps := by
  rw [ownAlong, ownStep, if_pos h]

/-- What any other step gives is not. -/
theorem ownAlong_cons_of_other (h : ¬x.cursor.map Cursor.scheduler = some s) :
    ownAlong step give s x (a :: steps) = ownAlong step give s (step x a) steps := by
  rw [ownAlong, ownStep, if_neg h, List.nil_append]

end Along

/-- A pass of `s` is under way before each of the actions. -/
abbrev Throughout (s : Fin m) (x : Moment m n) (actions : List (Action m n)) : Prop :=
  MarkedAlong Moment.step s x actions

/-- What every step during a pass keeps, given the events that it adds to the course, is kept by a
run. -/
theorem Throughout.course_induction {φ : Moment m n → List (Event m n) → Prop}
    {actions : List (Action m n)} (h : Throughout s x actions) (hx : x.system.Steady)
    (hstep : ∀ y z es more, φ y es → y.system.dispatching s = true →
      z.system.course = y.system.course ++ more → Change y z more → φ z (es ++ more))
    (hes : φ x es) :
    ∃ more, (x.run actions).system.course = x.system.course ++ more ∧
      φ (x.run actions) (es ++ more) := by
  induction actions generalizing x es with
  | nil => exact ⟨[], by simp [run], by simpa [run] using hes⟩
  | cons a actions ih =>
    rcases h with ⟨hs, hrest⟩
    rcases exists_change hx a with ⟨first, hfirst, hchange⟩
    rcases ih hrest (steady_step hx a) (hstep _ _ _ _ hes hs hfirst hchange) with
      ⟨more, hmore, hφ⟩
    refine ⟨first ++ more, ?_, ?_⟩
    · rw [← List.append_assoc, ← hfirst]
      exact hmore
    · rw [← List.append_assoc]
      exact hφ

/-- The same for what does not depend on the rest of the course. -/
theorem Throughout.induction {φ : Moment m n → List (Event m n) → Prop}
    {actions : List (Action m n)} (h : Throughout s x actions) (hx : x.system.Steady)
    (hstep : ∀ y z es more, φ y es → y.system.dispatching s = true → Change y z more →
      φ z (es ++ more)) (hes : φ x es) :
    ∃ more, (x.run actions).system.course = x.system.course ++ more ∧
      φ (x.run actions) (es ++ more) :=
  h.course_induction hx (fun y z es more hy hs _ => hstep y z es more hy hs) hes

/-- A run leads from a steady system to a steady one. -/
theorem steady_run (hx : x.system.Steady) (actions : List (Action m n)) :
    (x.run actions).system.Steady := by
  induction actions generalizing x with
  | nil => exact hx
  | cons a actions ih => exact ih (steady_step hx a)

end Moment

/-! ## Turns -/

/-- Whether an event tells that a pass of `s` came to a timer or called it. -/
def Event.isTurn (s : Fin m) : Event m n → Bool
  | .visited r _ => decide (r = s)
  | .called r _ _ _ => decide (r = s)
  | _ => false

/-- What passes of `s` came to and called. -/
def turns (s : Fin m) (es : List (Event m n)) : List (Event m n) :=
  es.filter (Event.isTurn s)

/-- What the pass in control is about to do, if it is one of `s` and has a timer to come to: come to
it and call what is bound to it, if anything is. -/
def Moment.turn (s : Fin m) (x : Moment m n) : List (Event m n) :=
  match x.cursor with
  | some ⟨r, _, some t⟩ =>
    if r = s then
      .visited s t :: ((x.system.timer t).callback.map fun callback =>
        .called s t callback (x.system.timer t).arg).toList
    else []
  | _ => []

/-- A pass of `s` comes to timers and calls them only when it is its turn. -/
theorem turns_of_change {x y : Moment m n} {es : List (Event m n)} (h : Moment.Change x y es)
    (s : Fin m) : turns s es = x.turn s := by
  cases h with
  | other hcursor hes =>
    rw [Moment.turn, hcursor]
    rcases hes with rfl | ⟨r, c, reply, rfl⟩ <;> rfl
  | began hcursor =>
    rw [Moment.turn, hcursor]
    simp [turns, Event.isTurn]
  | @visited c t hcursor hnext =>
    rcases c with ⟨r, now, next⟩
    obtain rfl : next = some t := hnext
    rw [Moment.turn, hcursor]
    by_cases hr : r = s
    · subst hr
      cases hcallback : (x.system.timer t).callback <;> simp [turns, Event.isTurn, hcallback]
    · cases hcallback : (x.system.timer t).callback <;>
        simp [turns, Event.isTurn, hr]
  | @finished c hcursor hnext =>
    rcases c with ⟨r, now, next⟩
    obtain rfl : next = none := hnext
    rw [Moment.turn, hcursor]
    rfl

/-- A dispatch of a scheduler without a pass takes out exactly the timers that are due, before
anything else happens, and nothing more until its pass is over.  If none of them is stolen while it
waits, the pass comes to them in their order, and to all of them by its end.  Otherwise this holds
up to the first one that is stolen.  With one scheduler nothing is stolen.  Whenever the pass comes
to a timer it calls what is bound to it then, with the argument bound then, or nothing if nothing
is bound. -/
theorem Machine.Reachable.visits_due {x : Machine m n} (hx : x.Reachable) {s : Fin m}
    (hidle : x.system.dispatching s = false) (now : Timespec) {actions : List (Action m n)}
    (hrun : Moment.Throughout s (x.dispatched s now) actions) :
    let due := x.system.due s now
    let y := x.dispatched s now
    let z := y.run actions
    due.Nodup ∧
      y.system.course = x.system.course ++
        .began s now :: due.map (fun t => .detached s t (x.system.timer t).deadline) ∧
      ∃ es, z.system.course = y.system.course ++ es ∧
        (∀ r t d, .detached r t d ∈ es → r ≠ s) ∧
        ((∀ t ∈ due, ¬ Stolen s es t) →
          visits s es <+: due ∧ (z.system.dispatching s = false → visits s es = due)) ∧
        (∀ before t after, due = before ++ t :: after → (∀ u ∈ before, ¬ Stolen s es u) →
          Stolen s es t → (visits s es <+: before ∨ before ++ [t] <+: visits s es) ∧
            (z.system.dispatching s = false → before ++ [t] <+: visits s es)) ∧
        (m = 1 →
          visits s es <+: due ∧ (z.system.dispatching s = false → visits s es = due)) ∧
        ∀ a, ∃ more, (z.step a).system.course = z.system.course ++ more ∧
          turns s more = z.turn s := by
  intro due y z
  have hsteady : x.system.Steady := (Moment.Reachable.ofMachine hx).steady
  rcases x.dispatched_spec hsteady hidle now with ⟨hnd, hcourse, -, hstatus⟩
  have hbegun : y.system.Steady := Moment.steady_step hsteady _
  obtain ⟨es, hes, hend⟩ := hrun.induction (φ := Status s due) hbegun
    (fun _ _ _ _ h hs hchange => h.change hnd hs hchange) hstatus
  rw [List.nil_append] at hend
  refine ⟨hnd, hcourse, es, hes, hend.own, hend.visits_of_not_stolen, ?_, ?_, ?_⟩
  · exact fun before t after hdue hbefore ht => hend.visits_of_stolen hdue hbefore ht
  · rintro rfl
    apply hend.visits_of_not_stolen
    intro t _
    rintro ⟨_, r, _, _, -, hr, -⟩
    exact hr (Subsingleton.elim r s)
  · intro a
    rcases Moment.exists_change (Moment.steady_run hbegun actions) a with ⟨more, hmore, hchange⟩
    exact ⟨more, hmore, turns_of_change hchange s⟩

/-- A pass of two timers, during which the first one is armed again for a time that has passed. -/
def rearming (s : Fin m) (t : Fin n) : List (Action m n) :=
  [.ret, .request s (.command (.arm (some t) .precise (some .zero) none)), .ret, .ret, .ret, .ret]

/-- The timer that was armed during the pass is not visited again. -/
theorem visits_rearming :
    let y : Moment 1 2 := (Machine.twoArmed 0 0 1).dispatched 0 (.new 2 0)
    Moment.Throughout 0 y (rearming 0 1) ∧ ∃ es,
      (y.run (rearming 0 1)).system.course = y.system.course ++ es ∧ visits 0 es = [1, 0] := by
  have hrun : Moment.Throughout 0 ((Machine.twoArmed (0 : Fin 1) (0 : Fin 2) 1).dispatched 0
      (.new 2 0)) (rearming 0 1) := by decide
  have hpass := Machine.Reachable.visits_due ⟨_, _, rfl⟩ (by decide) (.new 2 0) hrun
  rcases hpass with ⟨-, -, es, hes, -, -, -, hone, -⟩
  exact ⟨hrun, es, hes, ((hone rfl).2 (by decide)).trans (by decide)⟩

/-! ## Timers that are left alone -/

/-- Whether an event is a call of a timer by a pass of `s`. -/
def Event.isCall (s : Fin m) (u : Fin n) : Event m n → Bool
  | .called r t _ _ => decide (r = s) && decide (t = u)
  | _ => false

/-- How often passes of `s` called a timer. -/
def calls (s : Fin m) (u : Fin n) (es : List (Event m n)) : Nat :=
  es.countP (Event.isCall s u)

/-- Calls add up over the events. -/
theorem calls_append (s : Fin m) (u : Fin n) (es more : List (Event m n)) :
    calls s u (es ++ more) = calls s u es + calls s u more :=
  List.countP_append

namespace Moment

variable {x y : Moment m n} {s : Fin m} {u : Fin n} {es : List (Event m n)}

/-- A timer that no command names keeps its callback. -/
theorem Change.callback_eq (h : Change x y es) (hes : ∀ e ∈ es, e.commands u = false) :
    (y.system.timer u).callback = (x.system.timer u).callback := by
  cases h with
  | other _ _ _ _ _ hbody =>
    exact Timer.apply_eq_of_body_eq Timer.callback_body
      ((hbody u).trans (foldl_effect_of_not_commands hes _))
  | began _ _ _ _ hbegun => exact hbegun.callback u
  | @visited c t _ _ _ _ htimer =>
    rw [htimer]
    by_cases hut : u = t
    · rw [if_pos hut, hut]
    · rw [if_neg hut]
  | finished _ _ _ _ htimers => exact congrArg (fun cells => (Table.get cells u).callback) htimers

/-- A timer with a callback is called whenever a pass comes to it. -/
theorem Change.calls_eq (h : Change x y es)
    (hbound : (x.system.timer u).callback ≠ none) : calls s u es = (visits s es).count u := by
  cases h with
  | other _ hes => rcases hes with rfl | ⟨r, c, reply, rfl⟩ <;> rfl
  | began =>
    rw [visits_began, List.count_nil]
    simp [calls, Event.isCall]
  | @visited c t =>
    rw [visits_visited]
    by_cases hut : t = u
    · subst hut
      rcases Option.ne_none_iff_exists'.1 hbound with ⟨callback, hcallback⟩
      by_cases hr : c.scheduler = s <;> simp [calls, Event.isCall, hcallback, hr]
    · have hcount : (if c.scheduler = s then [t] else []).count u = 0 := by
        split <;> simp [hut]
      rw [hcount]
      cases (x.system.timer t).callback <;> simp [calls, Event.isCall, hut]
  | finished => rfl

/-- As long as no command named the timer, it has a callback, and it was called as often as passes
of `s` came to it. -/
def Attended (s : Fin m) (u : Fin n) (x : Moment m n) (es : List (Event m n)) : Prop :=
  (∀ e ∈ es, e.commands u = false) →
    (x.system.timer u).callback ≠ none ∧ calls s u es = (visits s es).count u

/-- A step keeps it that a timer no command named is called whenever a pass comes to it. -/
theorem Attended.change {more : List (Event m n)} (h : Attended s u x es)
    (hchange : Change x y more) : Attended s u y (es ++ more) := by
  intro hnone
  rcases h fun e he => hnone e (List.mem_append_left _ he) with ⟨hbound, hcalls⟩
  have hkept := hchange.callback_eq fun e he => hnone e (List.mem_append_right _ he)
  refine ⟨by rwa [hkept], ?_⟩
  rw [calls_append, hcalls, hchange.calls_eq hbound, visits_append, List.count_append]

end Moment

/-- How often a pass that is over came to a timer that nobody took out meanwhile: once, unless it
lost it because an earlier one was stolen. -/
theorem Over.count_visits {s : Fin m} {due before after : List (Fin n)} {u : Fin n}
    {x : Moment m n} {es : List (Event m n)} (h : Over s due x es) (hnd : due.Nodup)
    (hdue : due = before ++ u :: after) (hu : u ∉ taken es) :
    ((∀ t ∈ before, ¬ Stolen s es t) → (visits s es).count u = 1) ∧
      ((∃ t ∈ before, Stolen s es t) → (visits s es).count u = 0) := by
  rcases h.track with ⟨hall, hnone⟩ | ⟨a, v, later, hvisits, ⟨b, hinit⟩, ha, hv, hlater⟩
  · rw [hall]
    refine ⟨fun _ => List.count_eq_one_of_mem hnd (by simp [hdue]), ?_⟩
    rintro ⟨t, ht, hstolen⟩
    exact absurd hstolen (hnone t (by simp [hdue, ht]))
  · have huv : u ≠ v := by
      rintro rfl
      exact hu hv.mem_taken
    have hrest : (v :: later).count u = 0 := by
      apply List.count_eq_zero_of_not_mem
      rw [List.mem_cons, not_or]
      exact ⟨huv, fun hmem => hu (hlater u hmem)⟩
    rw [hvisits, List.count_append, hrest, Nat.add_zero]
    rw [hdue] at hnd hinit
    rw [List.append_assoc] at hinit
    rcases List.append_eq_append_iff.1 hinit with ⟨e, hbefore, hmore⟩ | ⟨e, hbefore, hmore⟩
    · -- the stolen timer that the pass came to stands before `u`
      have hvbefore : v ∈ before := by
        cases e with
        | nil => exact absurd (List.cons.inj hmore).1.symm huv
        | cons w e =>
          rcases List.cons.inj hmore with ⟨rfl, -⟩
          simp [hbefore]
      have hua : u ∉ a := by
        intro hmem
        exact List.disjoint_of_nodup_append hnd (by simp [hbefore, hmem]) List.mem_cons_self
      exact ⟨fun hnone => absurd hv (hnone v hvbefore), fun _ => List.count_eq_zero_of_not_mem hua⟩
    · -- `u` stands before it, and so do all timers before `u`
      have hua : u ∈ a := by
        cases e with
        | nil => exact absurd (List.cons.inj hmore).1 huv
        | cons w e =>
          rcases List.cons.inj hmore with ⟨rfl, -⟩
          simp [hbefore]
      have hanodup : a.Nodup := by
        rw [← hinit] at hnd
        exact (List.nodup_append.1 hnd).1
      refine ⟨fun _ => List.count_eq_one_of_mem hanodup hua, ?_⟩
      rintro ⟨t, ht, hstolen⟩
      exact absurd hstolen (ha t (by simp [hbefore, ht]))

/-- A timer that a dispatch took out and that is then left alone, by commands and by other passes,
is called exactly once by the time the pass is over, if no timer before it was stolen while it
waited; otherwise it is lost, and not called at all. -/
theorem Machine.Reachable.calls_innocent {x : Machine m n} (hx : x.Reachable) {s : Fin m}
    (hidle : x.system.dispatching s = false) (now : Timespec) {actions : List (Action m n)}
    (hrun : Moment.Throughout s (x.dispatched s now) actions)
    (hover : ((x.dispatched s now).run actions).system.dispatching s = false)
    {before after : List (Fin n)} {u : Fin n} (hdue : x.system.due s now = before ++ u :: after)
    {es : List (Event m n)}
    (hes : ((x.dispatched s now).run actions).system.course =
      (x.dispatched s now).system.course ++ es)
    (hcommands : ∀ e ∈ es, e.commands u = false) (hothers : ∀ r d, .detached r u d ∉ es) :
    ((∀ t ∈ before, ¬ Stolen s es t) → calls s u es = 1) ∧
      ((∃ t ∈ before, Stolen s es t) → calls s u es = 0) := by
  have hsteady : x.system.Steady := (Moment.Reachable.ofMachine hx).steady
  have hbound : (x.system.timer u).callback ≠ none := by
    rcases hsteady with ⟨armed, hsound, -⟩
    have hmem : u ∈ x.system.due s now := by simp [hdue]
    rw [hsound.due_eq] at hmem
    have harmed := hsound.armed_of_mem (List.takeWhile_subset _ hmem)
    rcases (hsound.settled u).bound harmed with ⟨callback, hcallback⟩
    simp [hcallback]
  rcases x.dispatched_spec hsteady hidle now with ⟨hnd, -, hcallback, hstatus⟩
  have hstart : Moment.Attended s u (x.dispatched s now) [] :=
    fun _ => ⟨by rwa [hcallback], rfl⟩
  obtain ⟨more, hmore, hend, hcalls⟩ := hrun.induction
    (φ := fun y es => Status s (x.system.due s now) y es ∧ Moment.Attended s u y es)
    (Moment.steady_step hsteady _)
    (fun _ _ _ _ h hs hchange => ⟨h.1.change hnd hs hchange, h.2.change hchange⟩)
    ⟨hstatus, hstart⟩
  rw [List.nil_append] at hend hcalls
  obtain rfl : es = more := List.append_cancel_left (hes.symm.trans hmore)
  rw [(hcalls hcommands).2]
  rcases hend with ⟨inner, c, hunder⟩ | hend
  · simp [hunder.dispatching] at hover
  · apply hend.count_visits hnd hdue
    intro hmem
    rcases mem_taken.1 hmem with ⟨r, d, hr⟩
    exact hothers r d hr

/-- What a run adds to the course of events. -/
def Moment.added (x : Moment m n) (actions : List (Action m n)) : List (Event m n) :=
  (x.run actions).system.course.drop x.system.course.length

/-- The timer that was left alone is called once. -/
theorem calls_rearming :
    let y : Moment 1 2 := (Machine.twoArmed 0 0 1).dispatched 0 (.new 2 0)
    (∀ e ∈ y.added (rearming 0 1), e.commands 0 = false) ∧
      calls 0 0 (y.added (rearming 0 1)) = 1 := by
  have hx : (Machine.twoArmed (0 : Fin 1) (0 : Fin 2) 1).Reachable := ⟨_, _, rfl⟩
  have hdue : (Machine.twoArmed (0 : Fin 1) (0 : Fin 2) 1).system.due 0 (.new 2 0) =
      [1] ++ 0 :: [] := by decide
  have hrun : Moment.Throughout 0 ((Machine.twoArmed (0 : Fin 1) (0 : Fin 2) 1).dispatched 0
      (.new 2 0)) (rearming 0 1) := by decide
  have hcommands : ∀ e ∈ ((Machine.twoArmed (0 : Fin 1) (0 : Fin 2) 1).dispatched 0
      (.new 2 0)).added (rearming 0 1), e.commands 0 = false := by decide
  have htaken : taken (((Machine.twoArmed (0 : Fin 1) (0 : Fin 2) 1).dispatched 0
      (.new 2 0)).added (rearming 0 1)) = [] := by decide
  refine ⟨hcommands, (Machine.Reachable.calls_innocent hx (by decide) (.new 2 0) hrun (by decide)
    hdue (by decide) hcommands ?_).1 ?_⟩
  · intro r d hmem
    simpa [htaken] using mem_taken.2 ⟨r, d, hmem⟩
  · intro t _ hstolen
    simpa [htaken] using hstolen.mem_taken

/-! ### A timer that is lost -/

/-- Three timers armed on one scheduler. -/
def Machine.threeArmed (s : Fin m) (t u v : Fin n) : Machine m n :=
  (initial fun _ => .counting).run
    [.request s (.command (.init (some t) (some 0) .none)),
      .request s (.command (.init (some u) (some 1) .none)),
      .request s (.command (.init (some v) (some 1) .none)),
      .request s (.command (.arm (some t) .precise (some (.new 1 0)) none)),
      .request s (.command (.arm (some u) .precise (some (.new 2 0)) none)),
      .request s (.command (.arm (some v) .precise (some (.new 3 0)) none))]

/-- A pass of three timers on `s`.  The callback of the first one releases the second one, which is
`u`, arms it on `r` and dispatches that scheduler. -/
def stealing (s r : Fin m) (u : Fin n) : List (Action m n) :=
  [.ret, .request s (.command (.deinit (some u))),
    .request r (.command (.init (some u) (some 1) .none)),
    .request r (.command (.arm (some u) .precise (some (.new 1 0)) none)),
    .request r (.dispatch (.new 1 0)), .ret, .ret, .ret, .ret, .ret, .ret, .ret]

/-- Being left alone is not enough to be called: a timer is lost when one before it is stolen. -/
theorem exists_innocent_lost :
    ¬ ∀ (m n : Nat) (x : Machine m n) (s : Fin m) (now : Timespec) (actions : List (Action m n))
      (u : Fin n) (es : List (Event m n)), x.Reachable → x.system.dispatching s = false →
      Moment.Throughout s (x.dispatched s now) actions →
      ((x.dispatched s now).run actions).system.dispatching s = false →
      u ∈ x.system.due s now →
      ((x.dispatched s now).run actions).system.course =
        (x.dispatched s now).system.course ++ es →
      (∀ e ∈ es, e.commands u = false) → (∀ r d, .detached r u d ∉ es) → calls s u es = 1 := by
  intro h
  have htaken : taken (((Machine.threeArmed (0 : Fin 2) (0 : Fin 3) 1 2).dispatched 0
      (.new 3 0)).added (stealing 0 1 1)) = [1] := by decide
  have hothers : ∀ r d, .detached r 2 d ∉ ((Machine.threeArmed (0 : Fin 2) (0 : Fin 3) 1
      2).dispatched 0 (.new 3 0)).added (stealing 0 1 1) := by
    intro r d hmem
    simpa [htaken] using mem_taken.2 ⟨r, d, hmem⟩
  have hone := h 2 3 (.threeArmed 0 0 1 2) 0 (.new 3 0) (stealing 0 1 1) 2 _ ⟨_, _, rfl⟩
    (by decide) (by decide) (by decide) (by decide) (by decide) (by decide) hothers
  have hzero : calls 0 2 (((Machine.threeArmed (0 : Fin 2) (0 : Fin 3) 1 2).dispatched 0
      (.new 3 0)).added (stealing 0 1 1)) = 0 := by decide
  simp [hzero] at hone

end SoftTimer
