import SoftTimer.Proofs.Moment

/-!
# What holds at every moment

A system is steady when it is sound and the hardware follows the list of every scheduler that has
no pass under way.  This file shows that steps lead from steady systems to steady ones, and says
all that a step can do to passes, chains and bindings.  Both hold for any requests that clients
and callbacks make, in any order and nested in any way.

Main results:

- Theorem `Moment.Reachable.steady`: at every reachable moment the system is steady.
- Theorem `Moment.exists_change`: what a step does, with the events that it adds to the course.
- Theorem `Moment.Reachable.intact`: the lists, counts, marks and links agree with each other, and
  no assertion is broken.
- Theorem `Moment.Reachable.pending_eq`: the earliest deadline is pending while no pass is under
  way.
-/

namespace SoftTimer

variable {m n : Nat}

/-- Whether an event is the answer to a command that names a timer. -/
def Event.commands (u : Fin n) : Event m n → Bool
  | .answered _ (.command c) _ => c.timer == some u
  | _ => false

section Revise

variable {β : Type} {revision : Fin m → Command (Option (Fin n)) → β → β} {u : Fin n}
  {e : Event m n}

/-- What an event makes of a value that belongs to a timer, if it is revised when a command for the
timer is carried out and only then. -/
def Event.revise (revision : Fin m → Command (Option (Fin n)) → β → β) (u : Fin n) (b : β) :
    Event m n → β
  | .answered s (.command c) .accepted => if c.timer = some u then revision s c b else b
  | _ => b

/-- A command for the timer that was carried out revises the value. -/
theorem Event.revise_of_timer_eq {s : Fin m} {c : Command (Option (Fin n))}
    (h : c.timer = some u) (b : β) :
    (Event.answered s (.command c) .accepted).revise revision u b = revision s c b :=
  if_pos h

/-- An event that answers no command for the timer revises nothing. -/
theorem Event.revise_of_not_commands (h : e.commands u = false) (b : β) :
    e.revise revision u b = b := by
  unfold revise
  split
  · exact if_neg (by simpa [commands] using h)
  · rfl

/-- What a command, if an event tells of one that was carried out, made of a timer, links apart. -/
def Event.effect (u : Fin n) (e : Event m n) (t : Timer m n) : Timer m n :=
  e.revise Command.effect u t

/-- An event that answers no command for the timer leaves it as it is. -/
theorem Event.effect_of_not_commands (h : e.commands u = false) (t : Timer m n) :
    e.effect u t = t :=
  e.revise_of_not_commands h t

/-- If the commands that are carried out determine what becomes of a reading of a timer's cells, so
do the events. -/
theorem Event.apply_effect {φ : Timer m n → β}
    (h : ∀ s c t, φ (c.effect s t) = revision s c (φ t)) (e : Event m n) (t : Timer m n) :
    φ (e.effect u t) = e.revise revision u (φ t) := by
  unfold effect revise
  split
  · next s c => rw [apply_ite φ, h]
  · rfl

end Revise

/-- What each of some events leaves as it is, all of them leave as it is. -/
theorem foldl_eq_self {α : Type} {f : α → Event m n → α} {es : List (Event m n)}
    (h : ∀ e ∈ es, ∀ a, f a e = a) (a : α) : es.foldl f a = a := by
  induction es with
  | nil => rfl
  | cons e es ih =>
    rw [List.foldl_cons, h e List.mem_cons_self]
    exact ih fun e he => h e (List.mem_cons_of_mem _ he)

/-- Events that answer no command for a timer leave it as it is. -/
theorem foldl_effect_of_not_commands {u : Fin n} {es : List (Event m n)}
    (h : ∀ e ∈ es, e.commands u = false) (t : Timer m n) :
    es.foldl (fun t e => e.effect u t) t = t :=
  foldl_eq_self (fun e he => Event.effect_of_not_commands (h e he)) t

/-! ## Steady systems -/

namespace System

variable {sys sys' : System m n} {s r : Fin m} {t u : Fin n}

/-- A system is sound, and the hardware of every scheduler without a pass follows its list. -/
def Steady (sys : System m n) : Prop :=
  ∃ armed, sys.Sound armed ∧ ∀ s, sys.dispatching s = false → sys.Follows s

/-- At the start the system is steady. -/
theorem steady_initial (kinds : Fin m → RegionKind) : (initial kinds : System m n).Steady := by
  refine ⟨_, sound_initial kinds, ?_⟩
  intro s _
  simp [Follows, timeout, nextDeadline, initial, scheduler]

namespace Steady

/-- A system that is like a steady one is steady. -/
theorem of_alike (h : sys.Steady) (hab : sys.Alike sys') : sys'.Steady := by
  rcases h with ⟨armed, hsound, hfollows⟩
  refine ⟨armed, hsound.of_eq hab.timers hab.lists, ?_⟩
  intro s hs
  rw [hab.dispatching] at hs
  exact (hfollows s hs).of_eq (congrFun hab.timeout s) (nextDeadline_of_alike hab s)

/-- Commands lead from steady systems to steady ones. -/
theorem command (h : sys.Steady) (s : Fin m) (c : Command (Option (Fin n))) :
    (sys.command s c).2.Steady := by
  rcases h with ⟨armed, hsound, hfollows⟩
  rcases hsound.command s c with ⟨armed', hsound', hkept⟩
  refine ⟨armed', hsound', ?_⟩
  intro r hr
  rw [dispatching_command] at hr
  exact hkept r (hfollows r hr)

/-- Beginning a pass of `s` leaves the lists and the hardware of all other schedulers alone. -/
theorem begin (h : sys.Steady) (s : Fin m) (now : Timespec) : (sys.begin s now).2.Steady := by
  cases hs : sys.dispatching s with
  | true => exact h.of_alike (alike_begin_of_dispatching hs now)
  | false =>
    rcases h with ⟨armed, hsound, hfollows⟩
    rcases hsound.begin hs now with ⟨-, hbegun⟩
    rcases hbegun.sound with ⟨l, hsound'⟩
    refine ⟨_, hsound', ?_⟩
    intro r hr
    have hrs : r ≠ s := by
      rintro rfl
      simp [hbegun.dispatching] at hr
    rw [hbegun.dispatching, Function.update_of_ne hrs] at hr
    apply (hfollows r hr).of_eq (congrFun hbegun.timeout r)
    refine hsound.nextDeadline_congr hsound' (by rw [Function.update_of_ne hrs]) ?_
    intro u hu
    have hu' : u ∉ (armed s).takeWhile (Threaded.isDue sys.timers now) := fun hmem =>
      hrs (hsound.eq_of_mem hu (List.takeWhile_subset _ hmem))
    exact Timer.apply_eq_of_body_eq Timer.deadline_body (hbegun.body_of_notMem u hu')

/-- So does coming to a timer. -/
theorem visit (h : sys.Steady) (s : Fin m) (t : Fin n) : (sys.visit s t).2.Steady := by
  rcases h with ⟨armed, hsound, hfollows⟩
  refine ⟨armed, hsound.visit s t, ?_⟩
  intro r hr
  rw [dispatching_visit] at hr
  apply (hfollows r hr).of_eq (congrFun (timeout_visit sys s t) r)
  refine hsound.nextDeadline_congr (hsound.visit s t) rfl ?_
  intro u _
  exact apply_timer_visit sys s t u (φ := Timer.deadline) (by intro _; rfl)

/-- So does the end of a pass, which makes the hardware follow the list again. -/
theorem finish (h : sys.Steady) (s : Fin m) (now : Timespec) : (sys.finish s now).Steady := by
  rcases h with ⟨armed, hsound, hfollows⟩
  refine ⟨armed, hsound.of_eq (timers_finish sys s now) (lists_finish sys s now), ?_⟩
  intro r hr
  refine follows_finish sys s now fun hrs => hfollows r ?_
  rwa [dispatching_finish, Function.update_of_ne hrs] at hr

end Steady

end System

namespace Moment

variable {x y : Moment m n} {c : Cursor m n} {s : Fin m} {t : Fin n}

/-! ## A pass in control -/

/-- A pass that has no timer to come to ends. -/
theorem advance_finish (h : c.next = none) :
    x.advance c = { x with system := x.system.finish c.scheduler c.now, cursor := none } := by
  rw [advance, h]

/-- What a pass does to the system when it comes to a timer: it visits it, and calls it if it is
bound. -/
theorem system_advance (h : c.next = some t) :
    (x.advance c).system =
      match (x.system.timer t).callback with
      | some callback => (x.system.visit c.scheduler t).2.emit
          (.called c.scheduler t callback (x.system.timer t).arg)
      | none => (x.system.visit c.scheduler t).2 := by
  cases hcallback : (x.system.timer t).callback <;>
    simp [advance, h, System.visit_fst, hcallback]

/-- After coming to a timer, a pass stands before the one that the timer was linked to. -/
theorem passes_advance (h : c.next = some t) :
    (x.advance c).passes =
      { c with next := (x.system.timer t).firedNext } :: x.frames.map Frame.cursor := by
  cases hcallback : (x.system.timer t).callback <;>
    simp [advance, h, System.visit_fst, hcallback, passes, Frame.cursor]

/-- A call adds nothing to a visit but its record. -/
theorem alike_advance (h : c.next = some t) :
    (x.system.visit c.scheduler t).2.Alike (x.advance c).system := by
  rw [system_advance h]
  split
  · exact System.alike_emit _ _
  · exact .refl _

/-- Coming to a timer is noted, and then the call, if it is bound. -/
theorem course_advance (h : c.next = some t) :
    (x.advance c).system.course = x.system.course ++ .visited c.scheduler t ::
      ((x.system.timer t).callback.map fun callback =>
        .called c.scheduler t callback (x.system.timer t).arg).toList := by
  rw [system_advance h]
  cases (x.system.timer t).callback with
  | none => exact System.course_visit _ _ _
  | some callback =>
    rw [System.course_emit _ rfl, System.course_visit, List.append_assoc]
    rfl

/-! ## Every step keeps systems steady -/

/-- Steps lead from steady systems to steady ones. -/
theorem steady_step (h : x.system.Steady) (a : Action m n) : (x.step a).system.Steady := by
  rcases hcursor : x.cursor with _ | c
  · rw [step_of_no_cursor hcursor]
    cases a with
    | request s what =>
      cases what with
      | command c => exact (h.command s c).of_alike (System.alike_emit _ _)
      | query q =>
        exact (h.of_alike (System.alike_query _ s q)).of_alike (System.alike_emit _ _)
      | dispatch now =>
        have hbegin := h.begin s now
        simp only [act]
        split
        · next heq => rwa [heq] at hbegin
        · next heq => rwa [heq] at hbegin
    | ret =>
      simp only [act]
      split
      · exact h
      · exact h
  · rw [step_of_cursor hcursor]
    rcases hnext : c.next with _ | t
    · rw [advance_finish hnext]
      exact h.finish c.scheduler c.now
    · exact (h.visit c.scheduler t).of_alike (alike_advance hnext)

/-- At every reachable moment the system is steady. -/
theorem Reachable.steady (h : x.Reachable) : x.system.Steady :=
  h.induction (φ := fun x => x.system.Steady) System.steady_initial fun _ a hx => steady_step hx a

/-! ## What a step does -/

/-- What a step from `x` to `y` may be, with the events that it adds to the course. -/
inductive Change (x y : Moment m n) : List (Event m n) → Prop where
  /-- The code in control did something that concerns no pass. -/
  | other {es : List (Event m n)} (cursor : x.cursor = none)
      (events : es = [] ∨ ∃ s c reply, es = [.answered s (.command c) reply])
      (passes : y.passes = x.passes) (dispatching : y.system.dispatching = x.system.dispatching)
      (firedNext : ∀ u, (y.system.timer u).firedNext = (x.system.timer u).firedNext)
      (body : ∀ u, (y.system.timer u).body =
        es.foldl (fun t e => e.effect u t) (x.system.timer u).body) : Change x y es
  /-- The code in control dispatched a scheduler, and a pass began. -/
  | began {s : Fin m} {now : Timespec} {due : List (Fin n)} {armed : Fin m → List (Fin n)}
      (cursor : x.cursor = none) (idle : x.system.dispatching s = false) (nodup : due.Nodup)
      (passes : y.passes = ⟨s, now, due.head?⟩ :: x.passes)
      (begun : System.Begun s now due armed x.system y.system)
      (expired : ∀ t ∈ due,
        t ∈ x.system.armedTimers s ∧ (x.system.timer t).deadline ≤ now) :
      Change x y (.began s now :: due.map fun t => .detached s t (x.system.timer t).deadline)
  /-- The pass in control came to a timer. -/
  | visited {c : Cursor m n} {t : Fin n} (cursor : x.cursor = some c) (next : c.next = some t)
      (passes : y.passes =
        { c with next := (x.system.timer t).firedNext } :: x.frames.map Frame.cursor)
      (dispatching : y.system.dispatching = x.system.dispatching)
      (timer : ∀ u, y.system.timer u =
        if u = t then { x.system.timer t with firedNext := none } else x.system.timer u) :
      Change x y (.visited c.scheduler t ::
        ((x.system.timer t).callback.map fun callback =>
          .called c.scheduler t callback (x.system.timer t).arg).toList)
  /-- The pass in control ended. -/
  | finished {c : Cursor m n} (cursor : x.cursor = some c) (next : c.next = none)
      (passes : y.passes = x.frames.map Frame.cursor)
      (dispatching : y.system.dispatching =
        Function.update x.system.dispatching c.scheduler false)
      (timers : y.system.timers = x.system.timers) : Change x y [.finished c.scheduler]

/-- While no pass is in control, the passes under way are those that wait for callbacks. -/
theorem passes_of_no_cursor (h : x.cursor = none) : x.passes = x.frames.map Frame.cursor := by
  rw [passes, h]
  rfl

/-- A pass in control is the innermost one under way. -/
theorem passes_of_cursor (h : x.cursor = some c) :
    x.passes = c :: x.frames.map Frame.cursor := by
  rw [passes, h]
  rfl

/-- A command is a step of other code than passes. -/
theorem exists_change_command (h : x.system.Steady) (hcursor : x.cursor = none) (s : Fin m)
    (c : Command (Option (Fin n))) :
    ∃ es, (x.act (.request s (.command c))).system.course = x.system.course ++ es ∧
      Change x (x.act (.request s (.command c))) es := by
  rcases h with ⟨armed, hsound, -⟩
  refine ⟨[.answered s (.command c) (.ofOutcome (x.system.command s c).1)], ?_,
    .other hcursor (.inr ⟨s, c, _, rfl⟩) rfl ?_ ?_ ?_⟩
  · rw [← hsound.course_command s c]
    exact System.course_emit (x.system.command s c).2 rfl
  · exact System.dispatching_command x.system s c
  · exact System.firedNext_command x.system s c
  · intro u
    by_cases hu : c.timer = some u
    · rcases houtcome : (x.system.command s c).1 with cause | ⟨⟩
      · exact System.body_command_of_error houtcome u
      · simp only [Reply.ofOutcome, List.foldl_cons, List.foldl_nil, Event.effect,
          Event.revise_of_timer_eq hu]
        exact System.body_command_of_ok houtcome hu
    · have hnone : (Event.answered s (.command c) (.ofOutcome (x.system.command s c).1) :
          Event m n).commands u = false := by simpa [Event.commands] using hu
      rw [List.foldl_cons, List.foldl_nil, Event.effect_of_not_commands hnone]
      exact System.body_command_of_ne hu x.system s

/-- A query is a step of other code than passes. -/
theorem exists_change_query (hcursor : x.cursor = none) (s : Fin m) (q : Query (Option (Fin n))) :
    ∃ es, (x.act (.request s (.query q))).system.course = x.system.course ++ es ∧
      Change x (x.act (.request s (.query q))) es := by
  have halike := System.alike_query x.system s q
  have htimer : ∀ u, (x.act (.request s (.query q))).system.timer u = x.system.timer u :=
    fun u => congrArg (Table.get · u) halike.timers
  refine ⟨[], ?_, .other hcursor (.inl rfl) rfl halike.dispatching ?_ ?_⟩
  · rw [List.append_nil]
    exact (System.course_of_not_notable rfl rfl).trans (System.course_query x.system s q)
  · intro u
    rw [htimer]
  · intro u
    rw [htimer]
    rfl

/-- A dispatch that is ignored changes no more than the system. -/
theorem act_dispatch_of_dispatching {now : Timespec} (h : x.system.dispatching s = true) :
    x.act (.request s (.dispatch now)) = { x with system := (x.system.begin s now).2 } := by
  simp only [act, System.begin_of_dispatching h]

/-- A dispatch that begins a pass gives it control. -/
theorem act_dispatch_of_admitted {now : Timespec} {first : Option (Fin n)}
    (h : (x.system.begin s now).1 = .admitted first) :
    x.act (.request s (.dispatch now)) =
      { x with system := (x.system.begin s now).2, cursor := some ⟨s, now, first⟩ } := by
  rcases hbegin : x.system.begin s now with ⟨admission, system⟩
  rw [hbegin] at h
  obtain rfl : admission = .admitted first := h
  simp only [act, hbegin]

/-- A dispatch is ignored, or a pass begins. -/
theorem exists_change_dispatch (h : x.system.Steady) (hcursor : x.cursor = none) (s : Fin m)
    (now : Timespec) :
    ∃ es, (x.act (.request s (.dispatch now))).system.course = x.system.course ++ es ∧
      Change x (x.act (.request s (.dispatch now))) es := by
  cases hs : x.system.dispatching s with
  | true =>
    have halike := System.alike_begin_of_dispatching hs now
    have htimer : ∀ u, (x.system.begin s now).2.timer u = x.system.timer u :=
      fun u => congrArg (Table.get · u) halike.timers
    rw [act_dispatch_of_dispatching hs]
    refine ⟨[], ?_, .other hcursor (.inl rfl) rfl halike.dispatching ?_ ?_⟩
    · rw [List.append_nil]
      exact System.course_begin_of_dispatching hs now
    · intro u
      exact congrArg Timer.firedNext (htimer u)
    · intro u
      exact congrArg Timer.body (htimer u)
  | false =>
    rcases h with ⟨armed, hsound, -⟩
    rcases hsound.begin hs now with ⟨hfirst, hbegun⟩
    have hnd : ((armed s).takeWhile (Threaded.isDue x.system.timers now)).Nodup :=
      (hsound.holds s).nodup.sublist (List.takeWhile_sublist _)
    rw [act_dispatch_of_admitted hfirst]
    refine ⟨_, hbegun.course, .began hcursor hs hnd ?_ hbegun ?_⟩
    · rw [passes_of_no_cursor hcursor]
      rfl
    · intro t ht
      have hdue : Threaded.isDue x.system.timers now t = true := List.mem_takeWhile_imp ht
      rw [← hsound.eq_armedTimers]
      exact ⟨List.takeWhile_subset _ ht, of_decide_eq_true hdue⟩

/-- A pass in control comes to a timer, or ends. -/
theorem exists_change_advance (hcursor : x.cursor = some c) :
    ∃ es, (x.advance c).system.course = x.system.course ++ es ∧ Change x (x.advance c) es := by
  rcases hnext : c.next with _ | t
  · rw [advance_finish hnext]
    exact ⟨_, System.course_finish x.system c.scheduler c.now, .finished hcursor hnext rfl
      (System.dispatching_finish x.system c.scheduler c.now)
      (System.timers_finish x.system c.scheduler c.now)⟩
  · have halike := alike_advance (x := x) hnext
    refine ⟨_, course_advance hnext, .visited hcursor hnext (passes_advance hnext) ?_ ?_⟩
    · exact halike.dispatching.trans (System.dispatching_visit _ _ _)
    · intro u
      exact (congrArg (Table.get · u) halike.timers).trans (System.timer_visit _ _ _ _)

/-- What a step does, with the events that it adds to the course. -/
theorem exists_change (h : x.system.Steady) (a : Action m n) :
    ∃ es, (x.step a).system.course = x.system.course ++ es ∧ Change x (x.step a) es := by
  rcases hcursor : x.cursor with _ | c
  · rw [step_of_no_cursor hcursor]
    cases a with
    | request s what =>
      cases what with
      | command c => exact exists_change_command h hcursor s c
      | query q => exact exists_change_query hcursor s q
      | dispatch now => exact exists_change_dispatch h hcursor s now
    | ret =>
      simp only [act]
      split
      · exact ⟨[], by simp, .other hcursor (.inl rfl) rfl rfl (fun _ => rfl) fun _ => rfl⟩
      · next frame frames hframes =>
        refine ⟨[], by simp, .other hcursor (.inl rfl) ?_ rfl (fun _ => rfl) fun _ => rfl⟩
        rw [passes_of_no_cursor hcursor, hframes]
        rfl
  · rw [step_of_cursor hcursor]
    exact exists_change_advance hcursor

/-- No step adds a fault. -/
theorem Change.ne_fault {es : List (Event m n)} (h : Change x y es) (s : Fin m) (fault : Fault) :
    .fault s fault ∉ es := by
  cases h with
  | other cursor events =>
    rcases events with rfl | ⟨r, c, reply, rfl⟩ <;> simp
  | began => simp
  | visited => simp
  | finished => simp

/-- At a reachable moment no assertion was ever broken. -/
theorem Reachable.fault_notMem (h : x.Reachable) (s : Fin m) (fault : Fault) :
    .fault s fault ∉ x.system.trace := by
  have hcourse : x.system.Steady ∧ .fault s fault ∉ x.system.course := by
    refine h.induction (φ := fun x => x.system.Steady ∧ .fault s fault ∉ x.system.course) ?_ ?_
    · exact fun kinds => ⟨System.steady_initial kinds, List.not_mem_nil⟩
    · rintro x a ⟨hx, hnone⟩
      rcases exists_change hx a with ⟨es, hes, hchange⟩
      refine ⟨steady_step hx a, ?_⟩
      rw [hes, List.mem_append, not_or]
      exact ⟨hnone, hchange.ne_fault s fault⟩
  exact fun hmem => hcourse.2 (System.mem_course.2 ⟨hmem, rfl⟩)

end Moment

/-! ## Lists, counts, marks and links -/

namespace System

variable {sys : System m n} {armed : Fin m → List (Fin n)}

/-- The list of every scheduler, its count, the marks of the timers and their links agree. -/
structure Intact (sys : System m n) : Prop where
  /-- Following `next` from the head comes to the armed timers one by one, and ends. -/
  forwards : ∀ s,
    Trail (fun t => (sys.timer t).next) (sys.scheduler s).list.head (sys.armedTimers s)
  /-- Following `prev` from the tail comes to them in reverse. -/
  backwards : ∀ s,
    Trail (fun t => (sys.timer t).prev) (sys.scheduler s).list.tail (sys.armedTimers s).reverse
  nodup : ∀ s, (sys.armedTimers s).Nodup
  len_eq : ∀ s, (sys.scheduler s).list.len = (sys.armedTimers s).length
  /-- The count that a client hears is their number. -/
  count_eq : ∀ s, (sys.query s .armedCount).1 = .count (sys.armedTimers s).length
  /-- The deadline that a client hears is their least one. -/
  least : ∀ s, ∃ earliest, (sys.query s .nextDeadline).1 = .time earliest ∧
    (earliest = none ↔ sys.armedTimers s = []) ∧
    ∀ d, earliest = some d → (∃ t ∈ sys.armedTimers s, (sys.timer t).deadline = d) ∧
      ∀ t ∈ sys.armedTimers s, d ≤ (sys.timer t).deadline
  mem_iff : ∀ s t, t ∈ sys.armedTimers s ↔
    (sys.timer t).armed = true ∧ (sys.timer t).owner = some s
  apart : ∀ s r t, t ∈ sys.armedTimers s → t ∈ sys.armedTimers r → s = r
  ascending : ∀ s, (sys.armedTimers s).Pairwise fun t u =>
    (sys.timer t).deadline ≤ (sys.timer u).deadline
  bound : ∀ t, (sys.timer t).armed = true → ∃ callback, (sys.timer t).callback = some callback
  unlinked : ∀ t, (sys.timer t).armed = false →
    (sys.timer t).prev = none ∧ (sys.timer t).next = none

/-- The query for the next deadline answers with that of the head of the list. -/
theorem query_nextDeadline (sys : System m n) (s : Fin m) :
    (sys.query s .nextDeadline).1 = .time (sys.nextDeadline s) := by
  have hnext : (sys.enter s).2.nextDeadline s = sys.nextDeadline s :=
    nextDeadline_of_alike (alike_enter sys s) s
  exact congrArg Answer.time hnext

/-- The query for the number of armed timers answers with the count of the list. -/
theorem query_armedCount (sys : System m n) (s : Fin m) :
    (sys.query s .armedCount).1 = .count (sys.scheduler s).list.len := by
  have hlen : (sys.enter s).2.lists s = sys.lists s := congrFun (lists_enter sys s) s
  exact congrArg (fun l => Answer.count (TimerList.len l)) hlen

/-- The deadline of the head is the least one. -/
theorem Sound.least (h : sys.Sound armed) (s : Fin m) :
    (sys.nextDeadline s = none ↔ armed s = []) ∧
      ∀ d, sys.nextDeadline s = some d → (∃ t ∈ armed s, (sys.timer t).deadline = d) ∧
        ∀ t ∈ armed s, d ≤ (sys.timer t).deadline := by
  have hascending := (h.holds s).ascending
  rw [h.nextDeadline_eq]
  rcases harmed : armed s with _ | ⟨t, l⟩
  · simp
  · rw [harmed] at hascending
    refine ⟨by simp, ?_⟩
    intro d hd
    obtain rfl : (sys.timer t).deadline = d := by simpa using hd
    refine ⟨⟨t, List.mem_cons_self, rfl⟩, ?_⟩
    intro u hu
    rcases List.mem_cons.1 hu with rfl | hu
    · exact Std.le_refl _
    · exact List.rel_of_pairwise_cons hascending hu

/-- In a sound system lists, counts, marks and links agree with each other. -/
theorem intact_of_sound (h : sys.Sound armed) : sys.Intact := by
  obtain rfl := h.eq_armedTimers
  have hlen : ∀ s, (sys.scheduler s).list.len = (sys.armedTimers s).length :=
    fun s => (h.holds s).len_eq
  refine ⟨?_, ?_, ?_, hlen, ?_, ?_, h.mem_iff, ?_, ?_, ?_, ?_⟩
  · exact fun s => (h.holds s).forwards.trail
  · exact fun s => (h.holds s).backwards.trail
  · exact fun s => (h.holds s).nodup
  · intro s
    rw [query_armedCount, hlen]
  · exact fun s => ⟨_, query_nextDeadline sys s, h.least s⟩
  · exact fun s r t => h.eq_of_mem
  · exact fun s => (h.holds s).ascending
  · exact fun t => (h.settled t).bound
  · exact fun t => (h.settled t).unlinked

end System

/-- Two timers armed on one scheduler, the one that is due later first. -/
def Machine.twoArmed (s : Fin m) (t u : Fin n) : Machine m n :=
  (initial fun _ => .counting).run
    [.request s (.command (.init (some t) (some 0) .none)),
      .request s (.command (.init (some u) (some 1) .none)),
      .request s (.command (.arm (some t) .precise (some (.new 2 0)) none)),
      .request s (.command (.arm (some u) .precise (some (.new 1 0)) none))]

namespace Moment

variable {x : Moment m n} {s : Fin m}

/-- At every reachable moment the lists, counts, marks and links agree, and until then no assertion
was broken: no timer was to be unlinked that was not linked, no list was to count below zero, and
no region was to be left out of order. -/
theorem Reachable.intact (h : x.Reachable) :
    x.system.Intact ∧ ∀ s fault, .fault s fault ∉ x.system.trace := by
  rcases h.steady with ⟨armed, hsound, -⟩
  exact ⟨System.intact_of_sound hsound, h.fault_notMem⟩

/-- A machine with two armed timers is a reachable moment. -/
theorem reachable_twoArmed (s : Fin m) (t u : Fin n) :
    (ofMachine (.twoArmed s t u)).Reachable :=
  Reachable.ofMachine ⟨_, _, rfl⟩

/-- Two timers are armed, and the list, the count and the links agree. -/
theorem intact_twoArmed :
    let x : Machine 1 2 := .twoArmed 0 0 1
    (ofMachine x).Reachable ∧ x.system.armedTimers 0 = [1, 0] ∧
      x.system.Intact ∧ ∀ s fault, .fault s fault ∉ x.system.trace := by
  intro x
  have hx : (ofMachine x).Reachable := reachable_twoArmed 0 0 1
  have hcontents : (Machine.twoArmed (0 : Fin 1) (0 : Fin 2) 1).system.armedTimers 0 = [1, 0] := by
    decide
  exact ⟨hx, hcontents, hx.intact⟩

/-- At every reachable moment, what is pending for a scheduler without a pass is the deadline of
the head of its list, and nothing is pending exactly when it has no armed timer. -/
theorem Reachable.pending_eq (h : x.Reachable) (hidle : x.system.dispatching s = false) :
    (x.system.timeout s).pending =
        (x.system.armedTimers s).head?.map (fun t => (x.system.timer t).deadline) ∧
      ((x.system.timeout s).pending = none ↔
        ∀ t, ¬ ((x.system.timer t).armed = true ∧ (x.system.timer t).owner = some s)) := by
  rcases h.steady with ⟨armed, hsound, hfollows⟩
  have hpending : (x.system.timeout s).pending = x.system.nextDeadline s := hfollows s hidle
  rw [hpending, ← hsound.eq_armedTimers]
  refine ⟨hsound.nextDeadline_eq s, ?_⟩
  rw [(hsound.least s).1, List.eq_nil_iff_forall_not_mem]
  exact forall_congr' fun t => not_congr (hsound.mem_iff s t)

/-- Two timers are armed, and the earlier deadline is pending. -/
theorem pending_twoArmed :
    let x : Machine 1 2 := .twoArmed 0 0 1
    (ofMachine x).Reachable ∧ x.system.dispatching 0 = false ∧
      (x.system.timeout 0).pending = some (.new 1 0) := by
  intro x
  have hx : (ofMachine x).Reachable := reachable_twoArmed 0 0 1
  have hidle : (Machine.twoArmed (0 : Fin 1) (0 : Fin 2) 1).system.dispatching 0 = false := by
    decide
  have hhead : ((Machine.twoArmed (0 : Fin 1) (0 : Fin 2) 1).system.armedTimers 0).head?.map
      (fun t => ((Machine.twoArmed (0 : Fin 1) (0 : Fin 2) 1).system.timer t).deadline) =
        some (.new 1 0) := by
    decide
  exact ⟨hx, hidle, (hx.pending_eq hidle).1.trans hhead⟩

end Moment
end SoftTimer
