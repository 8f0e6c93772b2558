import SoftTimer.Proofs.Reentrancy
import SoftTimer.Proofs.Schedule
import SoftTimer.Proofs.Traffic

/-!
# The log of dispatches

A dispatch that is not ignored warns of each timer that it gives up, before it calls any, and at its
very end it tells how many timers are armed.  In between its pass writes nothing, whatever the
callbacks write.  A dispatch that is ignored writes one warning, and that is all.

The lines of nested passes and of commands in callbacks stand between those of a pass.  What a pass
writes by itself are the lines of the steps in which it is in control.

Main definitions:

- `journal`: the entries of the log that some events tell of, with their level and wording.
- `Moment.news`: the events that a step adds to the history.
- `Moment.ownNews`: the events that a pass adds by itself.
- `Moment.Serves`: the time that the pass of a scheduler serves.
- `Moment.Told`: what a pass has told of by itself.
- `Moment.ExactJournal`: what dispatches write to the log.

Main results:

- Theorem `System.journal_beginning`: the warnings with which a pass begins.
- Theorem `Moment.Reachable.told`: a pass writes nothing by itself until it ends.
- Theorem `Moment.Reachable.exact_journal`: the log of dispatches is complete and true.
-/

namespace SoftTimer

variable {m n : Nat}

/-! ## Entries of the log -/

/-- The entry of the log that an event tells of. -/
def Event.entry? : Event m n → Option (LogLevel × String)
  | .logged _ line => some (line.level, line.text)
  | _ => none

/-- The entries of the log that some events tell of. -/
def journal (es : List (Event m n)) : List (LogLevel × String) :=
  es.filterMap Event.entry?

section Journal

variable (es fs : List (Event m n)) (s : Fin m) (t : Fin n)

@[simp]
theorem journal_append : journal (es ++ fs) = journal es ++ journal fs :=
  List.filterMap_append

/-- The entry of the first event comes first, if it has one. -/
theorem journal_cons (e : Event m n) : journal (e :: es) = e.entry?.toList ++ journal es := by
  cases h : e.entry? <;> simp [journal, h]

@[simp]
theorem journal_retiming (deadline : Option Timespec) :
    journal (retiming s deadline : List (Event m n)) = [] := by
  cases deadline <;> rfl

end Journal

/-! ## What the operations write -/

/-- Whether a timer is periodic and its next deadline would be after the greatest time. -/
def Timer.givesUp (c : Timer m n) : Bool :=
  decide (0 < c.period.nanos ∧ Timespec.latest.nanos < c.deadline.nanos + c.period.nanos)

/-- The warning that a timer is given up. -/
def Timer.warning (c : Timer m n) : LogLevel × String :=
  (.warn, "periodic timer stopped: deadline overflow after " ++ c.deadline.text)

/-- The deadline at which a timer stops is given exactly if the timer is given up. -/
theorem Timer.overflow?_eq_ite (c : Timer m n) :
    c.overflow? = if c.givesUp then some c.deadline else none := by
  have hmax : Timespec.latest.nanos = Timespec.maxNanos := by decide
  simp only [givesUp, hmax, decide_eq_true_eq]
  by_cases hpos : 0 < c.period.nanos
  · rw [overflow?_eq hpos]
    exact if_congr (and_iff_right hpos).symm rfl rfl
  · have honce : c.isPeriodic = false := by
      rw [← Bool.not_eq_true, isPeriodic_iff]
      exact hpos
    have hnot : ¬(0 < c.period.nanos ∧
        Timespec.maxNanos < c.deadline.nanos + c.period.nanos) := fun hboth => hpos hboth.1
    rw [if_neg hnot, overflow?, honce]
    rfl

namespace System

variable {sys : System m n} {s : Fin m} {now : Timespec}

/-- Rearming writes a warning if the timer is given up, and otherwise nothing. -/
theorem journal_renewing (s : Fin m) (t : Fin n) (c : Timer m n) :
    journal (renewing s t c) = if c.givesUp then [c.warning] else [] := by
  have hoverflow : journal (renewing s t c) = (c.overflow?.map fun deadline =>
      (LogLevel.warn, (LogLine.overflow deadline).text)).toList := by
    unfold renewing Timer.overflow?
    cases c.renewal? with
    | some deadline =>
      rw [Option.isNone_some, Bool.and_false]
      rfl
    | none => cases c.isPeriodic <;> rfl
  rw [hoverflow, Timer.overflow?_eq_ite]
  cases c.givesUp <;> rfl

/-- A dispatch that is ignored writes one warning, which names its time. -/
theorem journal_beginning_of_dispatching (h : sys.dispatching s = true) :
    journal (sys.beginning s now) =
      [(.warn, "timer dispatch re-entered at " ++ now.text ++ ", ignoring")] := by
  rw [beginning, if_pos h]
  rfl

/-- A pass begins with a warning for each timer that it gives up, in the order in which they were
taken out. -/
theorem journal_beginning (h : sys.dispatching s = false) :
    journal (sys.beginning s now) =
      ((sys.due s now).filter fun t => (sys.timer t).givesUp).map fun t =>
        (sys.timer t).warning := by
  have hout : journal ((sys.due s now).map fun t =>
      (.detached s t (sys.timer t).deadline : Event m n)) = [] := by
    simp [journal, Event.entry?]
  have hback : journal ((sys.due s now).flatMap fun t => renewing s t (sys.timer t)) =
      ((sys.due s now).filter fun t => (sys.timer t).givesUp).map fun t =>
        (sys.timer t).warning := by
    induction sys.due s now with
    | nil => rfl
    | cons t due ih =>
      rw [List.flatMap_cons, journal_append, journal_renewing, ih,
        List.filter_cons]
      cases (sys.timer t).givesUp <;> rfl
  rw [beginning, if_neg (Bool.eq_false_iff.1 h), journal_append, journal_cons, journal_cons,
    journal_append, hout, hback]
  exact List.append_nil _

/-- No callback is called before the pass comes to its first timer. -/
theorem called_notMem_beginning (r : Fin m) (t : Fin n) (callback : CallbackId)
    (arg : CallbackArg) : .called r t callback arg ∉ sys.beginning s now := by
  have hback : ∀ u, .called r t callback arg ∉ renewing s u (sys.timer u) := by
    intro u
    unfold renewing
    split
    · simp
    · split <;> simp
  unfold beginning
  split
  · simp
  · simp [hback]

/-- At the end of a pass one line is written. -/
theorem journal_finishing (sys : System m n) (s : Fin m) (now : Timespec) :
    journal (sys.finishing s now) =
      [(.trace, "timer dispatch at " ++ now.text ++ " done, " ++
        (sys.armedTimers s).length.repr ++ " armed")] := by
  rw [finishing, journal_append, journal_cons, journal_append, journal_retiming]
  rfl

/-- The end of a pass tells of the list as it is left. -/
theorem finishing_finish (sys : System m n) (s r : Fin m) (now now' : Timespec) :
    (sys.finish r now').finishing s now = sys.finishing s now := by
  have harmed : (sys.finish r now').armedTimers s = sys.armedTimers s :=
    armedTimers_congr (timers_finish sys r now') (lists_finish sys r now') s
  have hnext : (sys.finish r now').nextDeadline s = sys.nextDeadline s := by
    rw [nextDeadline_eq, nextDeadline_eq, lists_finish, timers_finish]
  rw [finishing, finishing, harmed, hnext]

/-- The timers armed on a scheduler are as many as the list has. -/
theorem Sound.card_armed {armed : Fin m → List (Fin n)} (h : sys.Sound armed) (s : Fin m) :
    (Finset.univ.filter fun t =>
      (sys.timer t).armed = true ∧ (sys.timer t).owner = some s).card =
        (sys.armedTimers s).length := by
  have hnodup : (sys.armedTimers s).Nodup := by
    rw [← h.eq_armedTimers]
    exact (h.holds s).nodup
  rw [← List.toFinset_card_of_nodup hnodup]
  refine congrArg Finset.card (Finset.ext fun t => ?_)
  rw [Finset.mem_filter, List.mem_toFinset, h.mem_armedTimers]
  simp

end System

namespace Moment

variable {x y : Moment m n} {s : Fin m} {now : Timespec} {es : List (Event m n)}
  {a : Action m n} {actions : List (Action m n)}

/-! ## What a pass writes -/

/-- The events that a step adds to the history. -/
def news (x : Moment m n) (a : Action m n) : List (Event m n) :=
  (x.step a).system.history.drop x.system.history.length

/-- The events that a step adds to the history are those that it records. -/
theorem news_eq (hx : x.system.Steady) (a : Action m n) : x.news a = x.record a := by
  rw [news, (recorded_step hx a).history, List.drop_left]

/-- A step adds its events at the end of the history. -/
theorem history_step (hx : x.system.Steady) (a : Action m n) :
    (x.step a).system.history = x.system.history ++ x.news a := by
  rw [news_eq hx, (recorded_step hx a).history]

/-- The events that the pass of `s` adds to the history by itself during some actions. -/
def ownNews (s : Fin m) (x : Moment m n) (actions : List (Action m n)) : List (Event m n) :=
  ownAlong Moment.step news s x actions

/-- A pass of `s` is under way that serves the time `now`. -/
def Serves (s : Fin m) (now : Timespec) (x : Moment m n) : Prop :=
  ∃ c ∈ x.passes, c.scheduler = s ∧ c.now = now

/-- A pass serves one time for as long as it is under way. -/
theorem Change.serves (h : Change x y es) (hserves : Serves s now x)
    (hs : y.system.dispatching s = true) : Serves s now y := by
  rcases hserves with ⟨c, hc, rfl, rfl⟩
  cases h with
  | other _ _ hpasses => exact ⟨c, hpasses ▸ hc, rfl, rfl⟩
  | began _ _ _ hpasses => exact ⟨c, hpasses ▸ List.mem_cons_of_mem _ hc, rfl, rfl⟩
  | @visited d t hcursor _ hpasses =>
    rw [passes_of_cursor hcursor] at hc
    rcases List.mem_cons.1 hc with rfl | hc
    · rw [Serves, hpasses]
      exact ⟨_, List.mem_cons_self, rfl, rfl⟩
    · exact ⟨c, hpasses ▸ List.mem_cons_of_mem _ hc, rfl, rfl⟩
  | @finished d hcursor _ hpasses hdispatching =>
    rw [passes_of_cursor hcursor] at hc
    rcases List.mem_cons.1 hc with rfl | hc
    · rw [hdispatching, Function.update_self] at hs
      cases hs
    · exact ⟨c, hpasses ▸ hc, rfl, rfl⟩

/-- A pass serves one time from step to step, as long as it is under way. -/
theorem Serves.step (hx : x.system.Steady) (hserves : Serves s now x) (a : Action m n)
    (hs : (x.step a).system.dispatching s = true) : Serves s now (x.step a) := by
  rcases exists_change hx a with ⟨es, -, hchange⟩
  exact hchange.serves hserves hs

/-- The pass in control serves the time of the dispatch that began it. -/
theorem Serves.now_eq (hserves : Serves s now x) (hx : x.Stacked) {c : Cursor m n}
    (hcursor : x.cursor = some c) (hc : c.scheduler = s) : c.now = now := by
  rcases hserves with ⟨d, hd, hs, rfl⟩
  have hmem : c ∈ x.passes := passes_of_cursor hcursor ▸ List.mem_cons_self
  rw [hx.eq_of_scheduler_eq hmem hd (hc.trans hs.symm)]

/-- When a dispatch that is not ignored has begun, its pass serves its time. -/
theorem serves_dispatch (hcursor : x.cursor = none) (hs : x.system.dispatching s = false)
    (now : Timespec) : Serves s now (x.step (.request s (.dispatch now))) := by
  have hbegin : x.system.begin s now = _ := System.begin_of_not_dispatching hs
  rw [step_of_no_cursor hcursor, act_dispatch_of_admitted (congrArg Prod.fst hbegin)]
  exact ⟨_, List.mem_cons_self, rfl, rfl⟩

/-- A pass of `s` that serves `now` was left by a step, which it either made in silence, or used to
end. -/
inductive Quiet (s : Fin m) (now : Timespec) (y : Moment m n) (es : List (Event m n)) : Prop
  | underway (dispatching : y.system.dispatching s = true) (silent : journal es = [])
      (calm : signals es = [])
  | ended (dispatching : y.system.dispatching s = false)
      (closing : es = y.system.finishing s now)

/-- A pass that is in control makes its step in silence, or ends. -/
theorem quiet_advance (hx : x.Reachable) (hserves : Serves s now x) {c : Cursor m n}
    (hcursor : x.cursor = some c) (hc : c.scheduler = s) (a : Action m n) :
    Quiet s now (x.step a) (x.news a) := by
  subst hc
  have hnow := hserves.now_eq hx.stacked hcursor rfl
  have hmem : c ∈ x.passes := passes_of_cursor hcursor ▸ List.mem_cons_self
  have hmarked : x.system.dispatching c.scheduler = true :=
    (hx.stacked.dispatching_iff _).2 (List.mem_map_of_mem hmem)
  rw [news_eq hx.steady]
  rcases hnext : c.next with _ | t
  · have hstep : (x.step a).system = x.system.finish c.scheduler c.now := by
      rw [step_of_cursor hcursor, advance_finish hnext]
    rw [record_finish hcursor hnext, hnow]
    refine .ended ?_ ?_
    · rw [hstep, System.dispatching_finish, Function.update_self]
    · rw [hstep, System.finishing_finish]
  · have hstays : (x.step a).system.dispatching = x.system.dispatching := by
      rw [step_of_cursor hcursor, (alike_advance hnext).dispatching, System.dispatching_visit]
    rw [record_visit hcursor hnext]
    refine .underway (by rw [hstays]; exact hmarked) ?_ ?_
    · cases (x.system.timer t).callback <;> rfl
    · cases (x.system.timer t).callback <;> rfl

/-- While another pass or other code is in control, the pass of `s` stays under way. -/
theorem dispatching_step_of_other (hx : x.Reachable) (hs : x.system.dispatching s = true)
    (hother : ¬x.cursor.map Cursor.scheduler = some s) (a : Action m n) :
    (x.step a).system.dispatching s = true := by
  rcases exists_change hx.steady a with ⟨es, -, hchange⟩
  cases hchange with
  | other _ _ _ hdispatching => rw [hdispatching, hs]
  | @began r _ _ _ _ _ _ _ hbegun =>
    rw [hbegun.dispatching]
    by_cases hr : s = r
    · rw [hr, Function.update_self]
    · rw [Function.update_of_ne hr, hs]
  | visited _ _ _ hdispatching => rw [hdispatching, hs]
  | @finished c hcursor _ _ hdispatching =>
    have hne : s ≠ c.scheduler := fun heq => hother (by rw [hcursor, heq]; rfl)
    rw [hdispatching, Function.update_of_ne hne, hs]

/-- What the pass of `s` that serves `now` adds to the history by itself during some actions.  As
long as it is under way it is silent.  When it is over, it has made its calls on the hardware and
written its line, and nothing happened since. -/
inductive Told (s : Fin m) (now : Timespec) (x : Moment m n) (actions : List (Action m n)) : Prop
  | underway (dispatching : (x.run actions).system.dispatching s = true)
      (silent : journal (ownNews s x actions) = []) (calm : signals (ownNews s x actions) = [])
  | ended (es : List (Event m n)) (dispatching : (x.run actions).system.dispatching s = false)
      (silent : journal es = []) (calm : signals es = [])
      (own : ownNews s x actions = es ++ (x.run actions).system.finishing s now)
      (last : ∃ earlier, (x.run actions).system.history =
        earlier ++ (x.run actions).system.finishing s now)

/-- A step of other code before it changes nothing about what a pass tells. -/
theorem Told.other (h : Told s now (x.step a) actions)
    (hother : ¬x.cursor.map Cursor.scheduler = some s) : Told s now x (a :: actions) := by
  cases h with
  | underway hmarked hsilent hcalm =>
    rw [ownNews, ← ownAlong_cons_of_other hother] at hsilent hcalm
    exact .underway hmarked hsilent hcalm
  | ended es hover hsilent hcalm hown hlast =>
    rw [ownNews, ← ownAlong_cons_of_other hother] at hown
    exact .ended es hover hsilent hcalm hown hlast

/-- Nor does a silent step of its own. -/
theorem Told.own (h : Told s now (x.step a) actions)
    (hcontrol : x.cursor.map Cursor.scheduler = some s) (hsilent : journal (x.news a) = [])
    (hcalm : signals (x.news a) = []) : Told s now x (a :: actions) := by
  cases h with
  | underway hmarked hsilent' hcalm' =>
    rw [ownNews] at hsilent' hcalm'
    refine .underway hmarked ?_ ?_
    · rw [ownNews, ownAlong_cons_of_own hcontrol, journal_append, hsilent, hsilent',
        List.append_nil]
    · rw [ownNews, ownAlong_cons_of_own hcontrol, signals_append, hcalm, hcalm', List.append_nil]
  | ended es hover hsilent' hcalm' hown hlast =>
    refine .ended (x.news a ++ es) hover ?_ ?_ ?_ hlast
    · rw [journal_append, hsilent, hsilent', List.append_nil]
    · rw [signals_append, hcalm, hcalm', List.append_nil]
    · rw [ownNews] at hown ⊢
      rw [ownAlong_cons_of_own hcontrol, hown, List.append_assoc]
      rfl

/-- The last step of a pass. -/
theorem told_last (hx : x.system.Steady) (hcontrol : x.cursor.map Cursor.scheduler = some s)
    (hover : (x.step a).system.dispatching s = false)
    (hclosing : x.news a = (x.step a).system.finishing s now) : Told s now x [a] := by
  refine .ended [] hover rfl rfl ?_ ⟨x.system.history, ?_⟩
  · rw [ownNews, ownAlong_cons_of_own hcontrol, hclosing]
    exact List.append_nil _
  · have hadded := history_step hx a
    rw [hclosing] at hadded
    exact hadded

/-- A pass writes nothing by itself until it ends, whatever the callbacks do. -/
theorem Reachable.told (hx : x.Reachable) (hserves : Serves s now x)
    (hs : x.system.dispatching s = true) (hrun : Throughout s x actions) :
    Told s now x actions := by
  induction actions generalizing x with
  | nil => exact .underway hs rfl rfl
  | cons a actions ih =>
    have hrest : (x.step a).system.dispatching s = true → Told s now (x.step a) actions :=
      fun hstill => ih (hx.run [a]) (hserves.step hx.steady a hstill) hstill hrun.2
    by_cases hcontrol : x.cursor.map Cursor.scheduler = some s
    · rcases Option.map_eq_some_iff.1 hcontrol with ⟨c, hcursor, hc⟩
      cases quiet_advance hx hserves hcursor hc a with
      | underway hstill hsilent hcalm => exact (hrest hstill).own hcontrol hsilent hcalm
      | ended hover hclosing =>
        cases actions with
        | nil => exact told_last hx.steady hcontrol hover hclosing
        | cons b actions =>
          -- the pass is not under way any more, so there are no further actions
          have hmarked : (x.step a).system.dispatching s = true := hrun.2.1
          simp [hover] at hmarked
    · exact (hrest (dispatching_step_of_other hx hs hcontrol a)).other hcontrol

/-! ## The log of dispatches -/

/-- What dispatches write to the log. -/
structure ExactJournal (x : Moment m n) : Prop where
  /-- A dispatch that is ignored writes one warning, which names its own time, and begins no
  pass. -/
  ignored : x.cursor = none → ∀ s now, x.system.dispatching s = true →
    journal (x.news (.request s (.dispatch now))) =
        [(.warn, "timer dispatch re-entered at " ++ now.text ++ ", ignoring")] ∧
      (x.step (.request s (.dispatch now))).passes = x.passes
  /-- Any other one begins a pass, and warns of each timer that it took out and gives up, in the
  order in which it took them out. -/
  warned : x.cursor = none → ∀ s now, x.system.dispatching s = false →
    taken (x.news (.request s (.dispatch now))) = x.system.due s now ∧
      journal (x.news (.request s (.dispatch now))) =
        ((taken (x.news (.request s (.dispatch now)))).filter fun t =>
          (x.system.timer t).givesUp).map fun t => (x.system.timer t).warning
  /-- It has called no callback by then. -/
  uncalled : x.cursor = none → ∀ s now r t callback arg,
    .called r t callback arg ∉ x.news (.request s (.dispatch now))
  /-- From then on, the pass by itself writes nothing as long as it is under way. -/
  silent : x.cursor = none → ∀ s now actions, x.system.dispatching s = false →
    Throughout s (x.step (.request s (.dispatch now))) actions →
    ((x.step (.request s (.dispatch now))).run actions).system.dispatching s = true →
      journal (ownNews s (x.step (.request s (.dispatch now))) actions) = []
  /-- Coming back from a callback to its pass writes nothing either. -/
  returned : x.cursor = none → x.news .ret = []
  /-- When it is over, all its callbacks have returned, it has then pointed the hardware at the head
  of the list, and after that it has written one line, which names its time and the number of timers
  armed, and nothing else but leaving the region has happened since. -/
  closed : x.cursor = none → ∀ s now actions, x.system.dispatching s = false →
    Throughout s (x.step (.request s (.dispatch now))) actions →
    ∀ y, y = (x.step (.request s (.dispatch now))).run actions → y.system.dispatching s = false →
      ∃ es armed, journal es = [] ∧ signals es = [] ∧
        ownNews s (x.step (.request s (.dispatch now))) actions =
          es ++ (.entered s :: (retiming s (y.system.nextDeadline s) ++
            [.logged s (.finished now armed), .finished s]) ++ [.left s]) ∧
        journal (ownNews s (x.step (.request s (.dispatch now))) actions) =
          [(.trace, "timer dispatch at " ++ now.text ++ " done, " ++ armed.repr ++ " armed")] ∧
        armed = (Finset.univ.filter fun t => (y.system.timer t).armed = true ∧
          (y.system.timer t).owner = some s).card ∧
        (y.system.query s .armedCount).1 = .count armed ∧
        (∀ f ∈ y.frames, f.scheduler ≠ s) ∧
        ∃ earlier, y.system.history =
          earlier ++ (.entered s :: (retiming s (y.system.nextDeadline s) ++
            [.logged s (.finished now armed), .finished s]) ++ [.left s])

/-- A dispatch adds what its beginning records. -/
theorem news_dispatch (hx : x.Reachable) (hcursor : x.cursor = none) (s : Fin m)
    (now : Timespec) :
    x.news (.request s (.dispatch now)) = x.system.beginning s now := by
  rw [news_eq hx.steady, record_dispatch hcursor]

/-- A dispatch that begins a pass takes out what is due. -/
theorem taken_dispatch (hx : x.Reachable) (hcursor : x.cursor = none)
    (hs : x.system.dispatching s = false) (now : Timespec) :
    taken (x.news (.request s (.dispatch now))) = x.system.due s now := by
  rw [news_eq hx.steady, taken_record, expiring_of_idle hcursor hs, List.map_map]
  exact List.map_id' _

/-- What the pass that a dispatch began tells of by itself. -/
theorem told_dispatch (hx : x.Reachable) (hcursor : x.cursor = none)
    (hs : x.system.dispatching s = false)
    (hrun : Throughout s (x.step (.request s (.dispatch now))) actions) :
    Told s now (x.step (.request s (.dispatch now))) actions :=
  (hx.run [.request s (.dispatch now)]).told (serves_dispatch hcursor hs now)
    (dispatching_step_dispatch hcursor s now hx.steady) hrun

/-- At every reachable moment, whatever the callbacks did and do: the log of dispatches is complete
and true. -/
theorem Reachable.exact_journal (hx : x.Reachable) : x.ExactJournal where
  ignored hcursor s now hs := by
    rw [news_dispatch hx hcursor, System.journal_beginning_of_dispatching hs,
      step_of_no_cursor hcursor, act_dispatch_of_dispatching hs]
    exact ⟨rfl, rfl⟩
  warned hcursor s now hs := by
    have htaken := taken_dispatch hx hcursor hs now
    refine ⟨htaken, ?_⟩
    rw [htaken, news_dispatch hx hcursor, System.journal_beginning hs]
  uncalled hcursor s now r t callback arg := by
    rw [news_dispatch hx hcursor]
    exact System.called_notMem_beginning r t callback arg
  silent hcursor s now actions hs hrun hmarked := by
    cases told_dispatch hx hcursor hs hrun with
    | underway _ hsilent => exact hsilent
    | ended _ hover => simp [hover] at hmarked
  returned hcursor := by
    rw [news_eq hx.steady, record_ret hcursor]
  closed hcursor s now actions hs hrun y hy hover := by
    subst hy
    have hend : ((x.step (.request s (.dispatch now))).run actions).Reachable :=
      hx.run (.request s (.dispatch now) :: actions)
    rcases hend.steady with ⟨armed, hsound, -⟩
    cases told_dispatch hx hcursor hs hrun with
    | underway hmarked => simp [hover] at hmarked
    | ended es _ hjournal hsignals hown hlast =>
      refine ⟨es, _, hjournal, hsignals, hown, ?_, (hsound.card_armed s).symm,
        hend.intact.1.count_eq s, ?_, hlast⟩
      · rw [hown, journal_append, hjournal, System.journal_finishing]
        rfl
      · intro f hf
        have hmem : f.cursor ∈ ((x.step (.request s (.dispatch now))).run actions).passes :=
          List.mem_append_right _ (List.mem_map_of_mem hf)
        exact (hend.stacked.ne_of_idle hover hmem).symm

/-- Two timers on one scheduler.  The first is periodic and armed for the last second, so it has no
next deadline; the second is armed for the greatest time. -/
def lastSecond (s : Fin m) (t u : Fin n) : Moment m n :=
  (ofMachine (.initial fun _ => .counting)).run
    [.request s (.command (.init (some t) (some 0) .none)),
      .request s (.command (.init (some u) (some 0) .none)),
      .request s (.command (.arm (some t) .precise (some (.new 4294967295 0)) (some (.new 1 0)))),
      .request s (.command (.arm (some u) .precise (some .latest) none))]

/-- In the last second the first timer is given up.  Its callback dispatches again, which is
ignored; this warning is not one of the pass, which writes one line at its end. -/
theorem exact_journal_lastSecond :
    let x : Moment 1 2 := lastSecond 0 0 1
    let dispatch : Action 1 2 := .request 0 (.dispatch (.new 4294967295 0))
    let actions : List (Action 1 2) := [.ret, dispatch, .ret, .ret]
    x.Reachable ∧ x.ExactJournal ∧ taken (x.news dispatch) = [0] ∧
      (journal (x.news dispatch)).length = 1 ∧
      Throughout 0 (x.step dispatch) actions ∧
      ((x.step dispatch).run actions).system.dispatching 0 = false ∧
      (((x.step dispatch).run actions).system.query 0 .armedCount).1 = .count 1 ∧
      (journal (ownNews 0 (x.step dispatch) actions)).length = 1 ∧
      (journal ((x.step dispatch).records actions)).length = 2 := by
  intro x dispatch actions
  have hx : x.Reachable := ⟨_, _, rfl⟩
  exact ⟨hx, hx.exact_journal, by decide +kernel, by decide +kernel, by decide +kernel,
    by decide +kernel, by decide +kernel, by decide +kernel, by decide +kernel⟩

end Moment
end SoftTimer
