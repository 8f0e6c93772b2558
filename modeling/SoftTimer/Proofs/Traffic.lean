import SoftTimer.Proofs.Record

/-!
# Traffic on the hardware timeouts

Every call on a hardware timeout is one of a few that belong together: the timeout is canceled and
then, if a timer is armed, set to the earliest deadline.  This file says which steps make calls, and
which ones, and that no hardware timeout is ever set while something is pending on it.

Main definitions:

- `System.traffic`: the calls on the hardware timeouts, in the order of time.
- `Moment.sends`: the calls that a step makes.
- `Moment.ownSends`: the calls that a pass makes by itself.

Main results:

- Theorem `Moment.sends_advance`: a pass in control calls the hardware when it ends, and then only.
- Theorem `Moment.ownSends_eq`: a pass makes its calls at its end.
- Theorem `System.cleared_traffic`: each setting follows at once on a cancellation.
- Theorem `Moment.Reachable.exact_traffic`: which calls are made, and that none is made while
  something is pending.
-/

namespace SoftTimer

variable {m n : Nat}

/-! ## Calls in a row of events -/

/-- The call on a hardware timeout that an event tells of, with its scheduler. -/
def Event.signal : Event m n → Option (Fin m × TimeoutEvent)
  | .timeout s call => some (s, call)
  | _ => none

/-- The calls that some events tell of. -/
def signals (es : List (Event m n)) : List (Fin m × TimeoutEvent) :=
  es.filterMap Event.signal

/-- The calls on the hardware timeout of one scheduler. -/
def callsOn (s : Fin m) (calls : List (Fin m × TimeoutEvent)) : List TimeoutEvent :=
  calls.filterMap fun call => if call.1 = s then some call.2 else none

/-- A cancellation, and a setting to a deadline if there is one. -/
def retuned (s : Fin m) (deadline : Option Timespec) : List (Fin m × TimeoutEvent) :=
  (s, .canceled) :: deadline.toList.map fun deadline => (s, .armed deadline)

section Signals

variable (es fs : List (Event m n)) (s : Fin m) (deadline : Option Timespec)

@[simp]
theorem signals_nil : signals ([] : List (Event m n)) = [] :=
  rfl

@[simp]
theorem signals_append : signals (es ++ fs) = signals es ++ signals fs :=
  List.filterMap_append

/-- The call of the first event comes first, if it tells of one. -/
theorem signals_cons (e : Event m n) : signals (e :: es) = e.signal.toList ++ signals es := by
  cases h : e.signal <;> simp [signals, h]

@[simp]
theorem signals_retiming :
    signals (retiming s deadline : List (Event m n)) = retuned s deadline := by
  cases deadline <;> rfl

/-- The calls on one timeout are those that the events tell of it. -/
theorem callsOn_signals : callsOn s (signals es) = es.filterMap (Event.callOn s) := by
  rw [callsOn, signals, List.filterMap_filterMap]
  congr 1
  funext e
  cases e <;> rfl

@[simp]
theorem callsOn_append (calls more : List (Fin m × TimeoutEvent)) :
    callsOn s (calls ++ more) = callsOn s calls ++ callsOn s more :=
  List.filterMap_append

end Signals

/-! ## What the operations send -/

namespace System

variable {sys : System m n} {s : Fin m} {t : Fin n} {now : Timespec}

/-- The calls on the hardware timeouts, in the order of time. -/
def traffic (sys : System m n) : List (Fin m × TimeoutEvent) :=
  signals sys.history

/-- The traffic grows by the calls that the recorded events tell of. -/
theorem Recorded.traffic {es : List (Event m n)} {a b : System m n} (h : Recorded es a b) :
    b.traffic = a.traffic ++ signals es := by
  rw [System.traffic, h.history, signals_append, System.traffic]

/-- Disarming the head points the hardware at the timer after it, and disarming another one calls
nothing. -/
theorem signals_disarming (sys : System m n) (s : Fin m) (t : Fin n) :
    signals (sys.disarming s t) =
      if (sys.armedTimers s).head? = some t then
        retuned s ((sys.armedTimers s)[1]?.map fun u => (sys.timer u).deadline)
      else [] := by
  unfold disarming
  split <;> simp

/-- Scheduling a timer before all others points the hardware at its deadline, and otherwise calls
nothing. -/
theorem signals_scheduling (sys : System m n) (s : Fin m) (t : Fin n) (deadline : Timespec) :
    signals (sys.scheduling s t deadline) =
      if ∀ u ∈ sys.armedTimers s, deadline < (sys.timer u).deadline then retuned s (some deadline)
      else [] := by
  rw [scheduling, signals_cons]
  simp only [List.all_eq_true, decide_eq_true_eq]
  split <;> simp [Event.signal]

/-- Disarming calls nothing, or points a timeout anew. -/
theorem signals_disarming_cases (sys : System m n) (s : Fin m) (t : Fin n) :
    signals (sys.disarming s t) = [] ∨
      ∃ r deadline, signals (sys.disarming s t) = retuned r deadline := by
  rw [signals_disarming]
  split
  · exact .inr ⟨_, _, rfl⟩
  · exact .inl rfl

/-- Scheduling calls nothing, or points a timeout anew. -/
theorem signals_scheduling_cases (sys : System m n) (s : Fin m) (t : Fin n) (deadline : Timespec) :
    signals (sys.scheduling s t deadline) = [] ∨
      ∃ r deadline', signals (sys.scheduling s t deadline) = retuned r deadline' := by
  rw [signals_scheduling]
  split
  · exact .inr ⟨_, _, rfl⟩
  · exact .inl rfl

/-- Around its work, a command makes no calls. -/
theorem signals_commanding_of_ok {c : Command (Option (Fin n))} (h : (sys.command s c).1 = .ok ())
    (ht : c.timer = some t) : signals (sys.commanding s c) = signals (sys.working s t c) := by
  simp [commanding, h, ht, signals_cons, Event.signal]

/-- A command that is refused calls nothing. -/
theorem signals_commanding_of_error {c : Command (Option (Fin n))} {cause : Refusal}
    (h : (sys.command s c).1 = .error cause) : signals (sys.commanding s c) = [] := by
  cases cause <;> simp [commanding, h, signals_cons, Event.signal]

/-- Rearming calls nothing. -/
theorem signals_renewing (s : Fin m) (t : Fin n) (c : Timer m n) :
    signals (renewing s t c) = [] := by
  unfold renewing
  split
  · rfl
  · split <;> rfl

/-- Collecting calls nothing. -/
theorem signals_collecting (sys : System m n) (s : Fin m) (due : List (Fin n)) :
    signals (due.map fun t => .detached s t (sys.timer t).deadline) = [] ∧
      signals (due.flatMap fun t => renewing s t (sys.timer t)) = [] := by
  constructor
  · simp [signals, Event.signal]
  · rw [signals, List.filterMap_eq_nil_iff]
    intro e he
    rcases List.mem_flatMap.1 he with ⟨t, -, he⟩
    exact List.filterMap_eq_nil_iff.1 (signals_renewing s t _) e he

/-- However many timers are taken out and rearmed, the beginning of a pass makes no calls. -/
theorem signals_beginning (sys : System m n) (s : Fin m) (now : Timespec) :
    signals (sys.beginning s now) = [] := by
  unfold beginning
  split
  · rfl
  · rcases signals_collecting sys s (sys.due s now) with ⟨hout, hback⟩
    simp only [List.cons_append, signals_cons, signals_append, hout, hback]
    rfl

/-- The end of a pass points the hardware at the head of the list. -/
theorem signals_finishing (sys : System m n) (s : Fin m) (now : Timespec) :
    signals (sys.finishing s now) = retuned s (sys.nextDeadline s) := by
  simp [finishing, signals_cons, Event.signal]

/-- When the head is disarmed, the timer after it has the earliest deadline. -/
theorem Sound.nextDeadline_release {armed : Fin m → List (Fin n)} (h : sys.Sound armed)
    {c : Command (Option (Fin n))} (hc : c = .cancel (some t) ∨ c = .deinit (some t))
    (hok : (sys.command s c).1 = .ok ()) (hhead : (armed s).head? = some t) :
    (sys.command s c).2.nextDeadline s =
      (sys.armedTimers s)[1]?.map fun u => (sys.timer u).deadline := by
  have henter : (sys.enter s).2.Sound armed := h.of_eq rfl (lists_enter sys s)
  have hlist : (sys.enter s).2.armedTimers s = sys.armedTimers s :=
    armedTimers_congr (timers_enter sys s) (lists_enter sys s) s
  rcases command_of_ok hok with ⟨t', ht', hadmits, heq⟩
  rw [heq, nextDeadline_of_alike (alike_leave _ s _)]
  rcases hc with rfl | rfl
  · obtain rfl : t = t' := Option.some.inj ht'
    have hnext := henter.nextDeadline_disarm hadmits hhead
    rw [hlist] at hnext
    exact hnext
  · obtain rfl : t = t' := Option.some.inj ht'
    have hnext := henter.nextDeadline_disarm hadmits hhead
    rw [hlist] at hnext
    have hdisarmed := henter.disarm hadmits
    have hunbound := hdisarmed.modifyTimer (armed_disarm _ s t)
      (f := fun c => c.reset none .none) rfl ⟨rfl, rfl⟩
    refine (hdisarmed.nextDeadline_congr hunbound rfl ?_).trans hnext
    -- the timer itself is off the list by now
    intro u hu
    have hut : u ≠ t := fun hut =>
      hdisarmed.notMem_of_not_armed (armed_disarm _ s t) s (hut ▸ hu)
    rw [timer_modifyTimer_of_ne _ hut]

end System

/-! ## What a step sends -/

namespace Moment

variable {x : Moment m n} {s r : Fin m} {t : Fin n} {c : Cursor m n}

/-- The calls on hardware timeouts that a step makes. -/
def sends (x : Moment m n) (a : Action m n) : List (Fin m × TimeoutEvent) :=
  (x.step a).system.traffic.drop x.system.traffic.length

/-- The calls of a step are those that its record tells of. -/
theorem sends_eq (hx : x.system.Steady) (a : Action m n) : x.sends a = signals (x.record a) := by
  rw [sends, (recorded_step hx a).traffic, List.drop_left]

/-- A step adds its calls to the traffic. -/
theorem traffic_step (hx : x.system.Steady) (a : Action m n) :
    (x.step a).system.traffic = x.system.traffic ++ x.sends a := by
  rw [sends_eq hx, (recorded_step hx a).traffic]

/-- The calls of a command are those of its work. -/
theorem sends_command (hx : x.system.Steady) (hcursor : x.cursor = none) (s : Fin m)
    (c : Command (Option (Fin n))) :
    x.sends (.request s (.command c)) = signals (x.system.commanding s c) := by
  rw [sends_eq hx, record_command hcursor, signals_append]
  exact List.append_nil _

/-- A command that is refused makes no call. -/
theorem sends_refused (hx : x.system.Steady) (hcursor : x.cursor = none)
    {c : Command (Option (Fin n))} {cause : Refusal}
    (h : (x.system.command s c).1 = .error cause) : x.sends (.request s (.command c)) = [] := by
  rw [sends_command hx hcursor, System.signals_commanding_of_error h]

/-- A timer that is armed brings the hardware forward if it is due before all others. -/
theorem sends_arm (hx : x.system.Steady) (hcursor : x.cursor = none) {priority : PriorityClass}
    {deadline : Timespec} {period : Option Timespec}
    (h : (x.system.command s (.arm (some t) priority (some deadline) period)).1 = .ok ()) :
    x.sends (.request s (.command (.arm (some t) priority (some deadline) period))) =
      if ∀ u ∈ x.system.armedTimers s, deadline < (x.system.timer u).deadline then
        retuned s (some deadline)
      else [] := by
  rw [sends_command hx hcursor, System.signals_commanding_of_ok h rfl]
  exact System.signals_scheduling x.system s t deadline

/-- What disarms a timer moves the hardware on if the timer was the head. -/
theorem sends_release (hx : x.system.Steady) (hcursor : x.cursor = none)
    {c : Command (Option (Fin n))} (hc : c = .cancel (some t) ∨ c = .deinit (some t))
    (h : (x.system.command s c).1 = .ok ()) :
    x.sends (.request s (.command c)) =
      if (x.system.armedTimers s).head? = some t then
        retuned s ((x.step (.request s (.command c))).system.nextDeadline s)
      else [] := by
  have ht : c.timer = some t := by rcases hc with rfl | rfl <;> rfl
  have hworking : x.system.working s t c = x.system.disarming s t := by
    rcases hc with rfl | rfl <;> rfl
  rw [sends_command hx hcursor, System.signals_commanding_of_ok h ht, hworking,
    System.signals_disarming, step_of_no_cursor hcursor]
  rcases hx with ⟨armed, hsound, -⟩
  rw [← hsound.eq_armedTimers]
  by_cases hhead : (armed s).head? = some t
  · have hnext : (x.act (.request s (.command c))).system.nextDeadline s =
        (x.system.command s c).2.nextDeadline s := rfl
    rw [if_pos hhead, if_pos hhead, hnext, hsound.nextDeadline_release hc h hhead,
      ← hsound.eq_armedTimers]
  · rw [if_neg hhead, if_neg hhead]

/-- What disarms a timer that is not armed leaves the hardware alone. -/
theorem sends_release_of_not_armed (hx : x.system.Steady) (hcursor : x.cursor = none)
    {c : Command (Option (Fin n))} (hc : c = .cancel (some t) ∨ c = .deinit (some t))
    (harmed : (x.system.timer t).armed = false) : x.sends (.request s (.command c)) = [] := by
  cases h : (x.system.command s c).1 with
  | error cause => exact sends_refused hx hcursor h
  | ok done =>
    rw [sends_release hx hcursor hc h]
    apply if_neg
    intro hhead
    rcases hx with ⟨armed, hsound, -⟩
    rw [← hsound.eq_armedTimers] at hhead
    exact hsound.notMem_of_not_armed harmed s (List.mem_of_head? hhead)

/-- Binding a timer makes no call. -/
theorem sends_init (hx : x.system.Steady) (hcursor : x.cursor = none) (s : Fin m)
    (timer : Option (Fin n)) (callback : Option CallbackId) (arg : CallbackArg) :
    x.sends (.request s (.command (.init timer callback arg))) = [] := by
  cases h : (x.system.command s (.init timer callback arg)).1 with
  | ok done =>
    rcases System.command_of_ok h with ⟨t, ht, -⟩
    rw [sends_command hx hcursor, System.signals_commanding_of_ok h ht]
    rfl
  | error cause => exact sends_refused hx hcursor h

/-- A query makes no call. -/
theorem sends_query (hx : x.system.Steady) (hcursor : x.cursor = none) (s : Fin m)
    (q : Query (Option (Fin n))) : x.sends (.request s (.query q)) = [] := by
  rw [sends_eq hx, record_query hcursor]
  split <;> rfl

/-- A dispatch makes no call before its pass comes to a timer. -/
theorem sends_dispatch (hx : x.system.Steady) (hcursor : x.cursor = none) (s : Fin m)
    (now : Timespec) : x.sends (.request s (.dispatch now)) = [] := by
  rw [sends_eq hx, record_dispatch hcursor]
  exact System.signals_beginning x.system s now

/-- Returning from a callback makes no call. -/
theorem sends_ret (hx : x.system.Steady) (hcursor : x.cursor = none) : x.sends .ret = [] := by
  rw [sends_eq hx, record_ret hcursor]
  rfl

/-- A pass in control calls the hardware when it ends, and then only. -/
theorem sends_advance (hx : x.system.Steady) (hcursor : x.cursor = some c) (a : Action m n) :
    x.sends a =
      if c.next = none then retuned c.scheduler (x.system.nextDeadline c.scheduler) else [] := by
  rw [sends_eq hx]
  rcases hnext : c.next with _ | t
  · rw [record_finish hcursor hnext, if_pos rfl]
    exact System.signals_finishing x.system c.scheduler c.now
  · rw [record_visit hcursor hnext, if_neg (by simp)]
    cases (x.system.timer t).callback <;> rfl

/-! ## What a pass sends -/

/-- The calls that the pass of `s` makes by itself during some actions. -/
def ownSends (s : Fin m) (x : Moment m n) (actions : List (Action m n)) :
    List (Fin m × TimeoutEvent) :=
  ownAlong Moment.step sends s x actions

/-- By a step that ends it a pass makes its calls, and by no other step. -/
theorem ownStep_sends (hx : x.system.Steady) (hs : x.system.dispatching s = true) (a : Action m n) :
    ownStep sends s x a =
      if (x.step a).system.dispatching s then []
      else retuned s ((x.step a).system.nextDeadline s) := by
  have hstays : (x.step a).system.dispatching = x.system.dispatching →
      (x.step a).system.dispatching s = true := fun h => (congrFun h s).trans hs
  rcases exists_change hx a with ⟨es, -, hchange⟩
  cases hchange with
  | other hcursor _ _ hdispatching _ _ =>
    rw [ownStep, hcursor, if_pos (hstays hdispatching)]
    rfl
  | @began r now due armed hcursor _ _ _ hbegun _ =>
    have hmarked : (x.step a).system.dispatching s = true := by
      rw [hbegun.dispatching]
      by_cases hr : s = r
      · rw [hr, Function.update_self]
      · rw [Function.update_of_ne hr, hs]
    rw [ownStep, hcursor, if_pos hmarked]
    rfl
  | @visited c t hcursor hnext _ hdispatching _ =>
    have hnone : ¬c.next = none := by simp [hnext]
    rw [ownStep, if_pos (hstays hdispatching), sends_advance hx hcursor, if_neg hnone]
    exact ite_self _
  | @finished c hcursor hnext _ hdispatching htimers =>
    by_cases hr : c.scheduler = s
    · subst hr
      have hover : (x.step a).system.dispatching c.scheduler = false := by
        rw [hdispatching, Function.update_self]
      have hlists : (x.step a).system.lists = x.system.lists := by
        rw [step_of_cursor hcursor, advance_finish hnext]
        exact System.lists_finish _ _ _
      have hsame : (x.step a).system.nextDeadline c.scheduler =
          x.system.nextDeadline c.scheduler := by
        rw [System.nextDeadline_eq, System.nextDeadline_eq, hlists, htimers]
      have hself : x.cursor.map Cursor.scheduler = some c.scheduler := by rw [hcursor]; rfl
      rw [ownStep, if_pos hself, sends_advance hx hcursor, if_pos hnext, hover, hsame]
      rfl
    · have hmarked : (x.step a).system.dispatching s = true := by
        rw [hdispatching, Function.update_of_ne (Ne.symm hr), hs]
      rw [ownStep, hcursor, if_pos hmarked, if_neg (by simpa using hr)]

/-- As long as it is under way a pass makes no calls, however many timers it takes out, rearms and
calls, and whatever the callbacks do.  Its calls are made by its last step. -/
theorem ownSends_eq {actions : List (Action m n)} (hx : x.system.Steady)
    (hs : x.system.dispatching s = true) (hrun : Throughout s x actions) :
    ownSends s x actions =
      if (x.run actions).system.dispatching s then []
      else retuned s ((x.run actions).system.nextDeadline s) := by
  induction actions generalizing x with
  | nil =>
    have hnil : (x.run []).system.dispatching s = true := hs
    rw [if_pos hnil]
    rfl
  | cons a actions ih =>
    have hone := ownStep_sends hx hs a
    cases actions with
    | nil =>
      rw [ownSends, ownAlong, ownAlong, List.append_nil]
      exact hone
    | cons b actions =>
      -- the pass is still under way before the next step
      have hnext : (x.step a).system.dispatching s = true := hrun.2.1
      rw [if_pos hnext] at hone
      rw [ownSends, ownAlong, hone, List.nil_append]
      exact ih (steady_step hx a) hnext hrun.2

end Moment

/-! ## Settings follow on cancellations -/

/-- Every setting of a hardware timeout follows at once on its cancellation. -/
def Cleared (calls : List (Fin m × TimeoutEvent)) : Prop :=
  ∀ before after s deadline, calls = before ++ (s, .armed deadline) :: after →
    ∃ earlier, before = earlier ++ [(s, .canceled)]

/-- Without calls there is nothing to follow on a cancellation. -/
theorem Cleared.nil : Cleared ([] : List (Fin m × TimeoutEvent)) := by
  intro before after s deadline h
  simp at h

/-- Two rows of calls in which settings follow on cancellations make up such a row. -/
theorem Cleared.append {calls more : List (Fin m × TimeoutEvent)} (h : Cleared calls)
    (hmore : Cleared more) : Cleared (calls ++ more) := by
  intro before after s deadline hsplit
  rcases List.append_eq_append_iff.1 hsplit with ⟨rest, hbefore, hrest⟩ | ⟨rest, hcalls, hrest⟩
  · obtain ⟨earlier, rfl⟩ := hmore rest after s deadline hrest
    exact ⟨calls ++ earlier, by rw [hbefore, List.append_assoc]⟩
  · cases rest with
    | nil =>
      obtain ⟨earlier, hearlier⟩ := hmore [] after s deadline (by simpa using hrest.symm)
      simp at hearlier
    | cons call rest =>
      obtain ⟨rfl, -⟩ := List.cons.inj hrest
      exact h before rest s deadline hcalls

/-- To point a timeout anew is to cancel it first. -/
theorem cleared_retuned (s : Fin m) (deadline : Option Timespec) :
    Cleared (retuned s deadline) := by
  intro before after r d hsplit
  cases deadline with
  | none =>
    cases before with
    | nil => simp [retuned] at hsplit
    | cons call before => simp [retuned] at hsplit
  | some deadline =>
    cases before with
    | nil => simp [retuned] at hsplit
    | cons call before =>
      cases before with
      | nil =>
        simp only [retuned, Option.toList_some, List.map_cons, List.map_nil, List.cons_append,
          List.nil_append, List.cons.injEq, Prod.mk.injEq] at hsplit
        obtain ⟨rfl, ⟨rfl, -⟩, -⟩ := hsplit
        exact ⟨[], rfl⟩
      | cons call' before => simp [retuned] at hsplit

/-- A timeout that was just canceled has nothing pending. -/
theorem Cleared.pending_eq_none {calls before after : List (Fin m × TimeoutEvent)} {s : Fin m}
    {deadline : Timespec} (h : Cleared calls)
    (hsplit : calls = before ++ (s, .armed deadline) :: after) (timeout : RecordingTimeout) :
    ((callsOn s before).foldl RecordingTimeout.apply timeout).pending = none := by
  obtain ⟨earlier, rfl⟩ := h before after s deadline hsplit
  have hlast : callsOn s [(s, TimeoutEvent.canceled)] = [.canceled] := by simp [callsOn]
  rw [callsOn_append, hlast, List.foldl_append]
  rfl

namespace Moment

variable {x : Moment m n} {s : Fin m}

/-- What a step sends is nothing, or one cancellation with the setting that belongs to it. -/
theorem sends_cases (hx : x.system.Steady) (a : Action m n) :
    x.sends a = [] ∨ ∃ s deadline, x.sends a = retuned s deadline := by
  rcases hcursor : x.cursor with _ | c
  · cases a with
    | request s what =>
      cases what with
      | command c =>
        cases h : (x.system.command s c).1 with
        | error cause => exact .inl (sends_refused hx hcursor h)
        | ok done =>
          rcases System.command_of_ok h with ⟨t, ht, -⟩
          rw [sends_command hx hcursor, System.signals_commanding_of_ok h ht]
          cases c with
          | init timer callback arg => exact .inl rfl
          | deinit timer => exact System.signals_disarming_cases x.system s t
          | arm timer priority deadline period =>
            exact System.signals_scheduling_cases x.system s t _
          | cancel timer => exact System.signals_disarming_cases x.system s t
      | query q => exact .inl (sends_query hx hcursor s q)
      | dispatch now => exact .inl (sends_dispatch hx hcursor s now)
    | ret => exact .inl (sends_ret hx hcursor)
  · rw [sends_advance hx hcursor]
    split
    · exact .inr ⟨_, _, rfl⟩
    · exact .inl rfl

/-- In the calls of a step settings follow on cancellations. -/
theorem cleared_sends (hx : x.system.Steady) (a : Action m n) : Cleared (x.sends a) := by
  rcases sends_cases hx a with h | ⟨s, deadline, h⟩
  · rw [h]
    exact .nil
  · rw [h]
    exact cleared_retuned s deadline

/-- What is known of the traffic up to a moment: settings follow on cancellations, and the hardware
timeouts are what the calls made of them. -/
structure Traced (x : Moment m n) : Prop where
  steady : x.system.Steady
  cleared : Cleared x.system.traffic
  timeout : ∀ s,
    x.system.timeout s = (callsOn s x.system.traffic).foldl RecordingTimeout.apply {}

/-- At the start there was no traffic, and nothing is pending. -/
theorem traced_initial (kinds : Fin m → RegionKind) :
    Traced (ofMachine (.initial kinds) : Moment m n) := by
  refine ⟨System.steady_initial kinds, .nil, ?_⟩
  intro s
  have hfresh : (System.initial kinds : System m n).timeout s = {} := by
    simp [System.timeout, System.scheduler, System.initial]
  exact hfresh

/-- A step keeps what is known of the traffic. -/
theorem Traced.step (h : x.Traced) (a : Action m n) : (x.step a).Traced := by
  refine ⟨steady_step h.steady a, ?_, ?_⟩
  · rw [traffic_step h.steady]
    exact h.cleared.append (cleared_sends h.steady a)
  · intro s
    rw [traffic_step h.steady, callsOn_append, List.foldl_append, ← h.timeout s,
      sends_eq h.steady, callsOn_signals]
    exact (recorded_step h.steady a).timeout s

/-- It is known at every reachable moment. -/
theorem Reachable.traced (hx : x.Reachable) : x.Traced :=
  hx.induction traced_initial fun _ a h => h.step a

/-- Which calls are made on the hardware timeouts. -/
structure ExactTraffic (x : Moment m n) : Prop where
  /-- A step adds its calls to those before. -/
  step : ∀ a, (x.step a).system.traffic = x.system.traffic ++ x.sends a
  /-- An arm that is carried out sets the timeout of its scheduler to the deadline if that comes before
  all deadlines armed there. -/
  arm : x.cursor = none → ∀ s t priority deadline period,
    (x.system.command s (.arm (some t) priority (some deadline) period)).1 = .ok () →
      x.sends (.request s (.command (.arm (some t) priority (some deadline) period))) =
        if ∀ u ∈ x.system.armedTimers s, deadline < (x.system.timer u).deadline then
          [(s, .canceled), (s, .armed deadline)]
        else []
  /-- A cancel or deinit that is carried out on the head of the list moves the timeout to the new
  head, if there is one. -/
  release : x.cursor = none → ∀ s t c, c = .cancel (some t) ∨ c = .deinit (some t) →
    (x.system.command s c).1 = .ok () →
      x.sends (.request s (.command c)) =
        if (x.system.armedTimers s).head? = some t then
          retuned s ((x.step (.request s (.command c))).system.nextDeadline s)
        else []
  /-- A cancel or deinit of a timer that is not armed makes no call. -/
  disarmed : x.cursor = none → ∀ s t c, c = .cancel (some t) ∨ c = .deinit (some t) →
    (x.system.timer t).armed = false → x.sends (.request s (.command c)) = []
  init : x.cursor = none → ∀ s timer callback arg,
    x.sends (.request s (.command (.init timer callback arg))) = []
  refused : x.cursor = none → ∀ s c cause, (x.system.command s c).1 = .error cause →
    x.sends (.request s (.command c)) = []
  query : x.cursor = none → ∀ s q, x.sends (.request s (.query q)) = []
  /-- A dispatch makes no call before its pass comes to a timer, and none if it is ignored. -/
  dispatch : x.cursor = none → ∀ s now, x.sends (.request s (.dispatch now)) = []
  ret : x.cursor = none → x.sends .ret = []
  /-- A pass in control makes no call when it comes to a timer, and points the timeout at the head of
  the list when it ends. -/
  advance : ∀ c, x.cursor = some c → ∀ a, x.sends a =
    if c.next = none then retuned c.scheduler (x.system.nextDeadline c.scheduler) else []
  /-- However many timers a pass took out, rearmed and called, it makes no call while it is under way,
  and when it is over it has pointed the timeout at the head that the list has by then. -/
  pass : x.cursor = none → ∀ s now actions, x.system.dispatching s = false →
    Throughout s (x.step (.request s (.dispatch now))) actions →
      ownSends s (x.step (.request s (.dispatch now))) actions =
        if ((x.step (.request s (.dispatch now))).run actions).system.dispatching s then []
        else
          retuned s (((x.step (.request s (.dispatch now))).run actions).system.nextDeadline s)
  /-- The timeouts are what the calls made of them. -/
  timeout : ∀ s,
    x.system.timeout s = (callsOn s x.system.traffic).foldl RecordingTimeout.apply {}
  /-- Whenever a timeout was set, the calls on it until then had left nothing pending. -/
  clear : ∀ before after s deadline, x.system.traffic = before ++ (s, .armed deadline) :: after →
    ((callsOn s before).foldl RecordingTimeout.apply {}).pending = none

/-- At every reachable moment, whatever the callbacks did and do: hardware timeouts are called when
the head of a list changes by a command and when a pass ends, and not otherwise, and none is ever set
while something is pending on it. -/
theorem Reachable.exact_traffic (hx : x.Reachable) : x.ExactTraffic where
  step := traffic_step hx.steady
  arm hcursor _ _ _ _ _ hok := sends_arm hx.steady hcursor hok
  release hcursor _ _ _ hc hok := sends_release hx.steady hcursor hc hok
  disarmed hcursor _ _ _ hc harmed := sends_release_of_not_armed hx.steady hcursor hc harmed
  init hcursor := sends_init hx.steady hcursor
  refused hcursor _ _ _ herror := sends_refused hx.steady hcursor herror
  query hcursor := sends_query hx.steady hcursor
  dispatch hcursor := sends_dispatch hx.steady hcursor
  ret hcursor := sends_ret hx.steady hcursor
  advance _ hcursor := sends_advance hx.steady hcursor
  pass hcursor s now _ _ hrun :=
    ownSends_eq (steady_step hx.steady _) (dispatching_step_dispatch hcursor s now hx.steady) hrun
  timeout := hx.traced.timeout
  clear _ _ _ _ hsplit := hx.traced.cleared.pending_eq_none hsplit {}

/-- Two timers are armed, and cancelling the head points the hardware at the other one. -/
theorem traffic_twoArmed :
    let x : Moment 1 2 := ofMachine (.twoArmed 0 0 1)
    x.Reachable ∧ x.ExactTraffic ∧
      x.sends (.request 0 (.command (.cancel (some 1)))) =
        [(0, .canceled), (0, .armed (.new 2 0))] := by
  intro x
  have hx : x.Reachable := reachable_twoArmed 0 0 1
  have hexact : x.ExactTraffic := hx.exact_traffic
  refine ⟨hx, hexact, ?_⟩
  rw [hexact.release rfl 0 1 (.cancel (some 1)) (.inl rfl) (by decide)]
  decide

end Moment

end SoftTimer
