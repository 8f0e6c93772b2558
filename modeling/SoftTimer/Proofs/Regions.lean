import SoftTimer.Proofs.Pass

/-!
# Uses of the critical regions

Every piece of work on a system is done inside the region of one scheduler, or in no region at all.
This file tells for each command, each query and each step of a pass how often it enters and leaves
a region, and what it records inside.  None of this depends on the state being sound.

Main definitions:

- `Region.used`: a region after it was entered and left once more.
- `System.Grows`: what work inside a region does to the regions and to the trace.
- `System.Crossed`: a region was entered and left once around such work.
- `System.Noted`: nothing was done inside but to write a line to the log.
- `Request.lacks`: a request misses an argument that it requires.

Main results:

- Theorem `System.crossed_leave`: work that uses no region itself crosses the region around it once.
- Theorems `System.command_cases` and `System.query_cases`: a request enters the region of its
  scheduler once, or not at all if an argument is missing.
- Theorems `System.crossed_begin`, `System.crossed_visit` and `System.crossed_finish`: so does each
  step of a pass.
-/

namespace SoftTimer

variable {m n : Nat}

/-! ## Using a region once -/

/-- The counters of a region after it was entered and left once more. -/
def CountingRegion.used (r : CountingRegion) : CountingRegion :=
  { r with
    maxDepth := max r.maxDepth (r.depth + 1)
    enterCount := r.enterCount + 1
    exitCount := r.exitCount + 1 }

/-- A region after it was entered and left once more. -/
def Region.used : Region → Region
  | counting r => counting r.used
  | interruptMask => interruptMask

/-- A region that is entered can be left with its restore value, and was then used once more. -/
theorem Region.exit?_enter (r : Region) : r.enter.2.exit? r.enter.1 = some r.used := by
  cases r with
  | counting r => simp [Region.enter, Region.exit?, CountingRegion.exit?_enter, used,
      CountingRegion.used]
  | interruptMask => rfl

/-! ## What is recorded -/

/-- Whether an event is something else than a use of a region. -/
def Event.isInner : Event m n → Bool
  | .entered _ => false
  | .left _ => false
  | .fault _ .regionOrder => false
  | _ => true

/-- Whether an event is neither a use of a region nor a line of the log. -/
def Event.isQuiet : Event m n → Bool
  | .logged _ _ => false
  | e => e.isInner

/-- An event that is neither a use of a region nor a line of the log is no use of a region. -/
theorem Event.isInner_of_isQuiet {e : Event m n} (h : e.isQuiet = true) : e.isInner = true := by
  cases e <;> first | rfl | exact h

/-! ## Requests that miss an argument -/

/-- Whether a command misses an argument that it requires. -/
def Command.lacks {ρ : Type} : Command (Option ρ) → Bool
  | .init timer callback _ => timer.isNone || callback.isNone
  | .deinit timer => timer.isNone
  | .arm timer _ deadline _ => timer.isNone || deadline.isNone
  | .cancel timer => timer.isNone

/-- Whether a query misses the timer that it is about. -/
def Query.lacks {ρ : Type} : Query (Option ρ) → Bool
  | .isArmed timer => timer.isNone
  | .isInitialized timer => timer.isNone
  | .deadline timer => timer.isNone
  | .period timer => timer.isNone
  | .priority timer => timer.isNone
  | .callbackArg timer => timer.isNone
  | .nextDeadline => false
  | .armedCount => false
  | .summary => false

/-- Whether a request misses an argument that it requires. -/
def Request.lacks {ρ : Type} : Request (Option ρ) → Bool
  | .command c => c.lacks
  | .query q => q.lacks
  | .dispatch _ => false

namespace System

variable {sys sys' a b c : System m n} {s : Fin m} {t : Fin n} {p q : Event m n → Bool}

/-! ## Work inside a region -/

/-- From `a` to `b` no region was used, and the events that were recorded all satisfy `p`. -/
structure Grows (p : Event m n → Bool) (a b : System m n) : Prop where
  region : b.region = a.region
  trace : ∃ es, b.trace = es ++ a.trace ∧ ∀ e ∈ es, p e = true

namespace Grows

/-- Where regions and trace are the same, no region was used and nothing was recorded. -/
theorem of_eq (hregion : b.region = a.region) (htrace : b.trace = a.trace) : Grows p a b :=
  ⟨hregion, [], htrace, by simp⟩

/-- At first no region is used. -/
theorem refl (a : System m n) : Grows p a a :=
  .of_eq rfl rfl

/-- Parts of a way along which no region is used make up such a way. -/
theorem trans (hab : Grows p a b) (hbc : Grows p b c) : Grows p a c := by
  rcases hab with ⟨hregion, es, hes, hp⟩
  rcases hbc with ⟨hregion', es', hes', hp'⟩
  refine ⟨hregion'.trans hregion, es' ++ es, by rw [hes', hes, List.append_assoc], ?_⟩
  intro e he
  exact (List.mem_append.1 he).elim (hp' e) (hp e)

/-- What holds of all events recorded may be replaced by something weaker. -/
theorem mono (h : Grows p a b) (hpq : ∀ e, p e = true → q e = true) : Grows q a b := by
  rcases h with ⟨hregion, es, hes, hp⟩
  exact ⟨hregion, es, hes, fun e he => hpq e (hp e he)⟩

/-- Work that is quiet uses no region. -/
theorem inner (h : Grows Event.isQuiet a b) : Grows Event.isInner a b :=
  h.mono fun _ => Event.isInner_of_isQuiet

/-- Emitting an event of the kind allowed uses no region. -/
theorem emit (h : Grows p a b) {e : Event m n} (he : p e = true) : Grows p a (b.emit e) :=
  h.trans ⟨rfl, [e], rfl, by simpa using he⟩

/-- Changing the cells of a timer uses no region and records nothing. -/
theorem modifyTimer (h : Grows p a b) (t : Fin n) (f : Timer m n → Timer m n) :
    Grows p a (b.modifyTimer t f) :=
  h.trans (.of_eq rfl rfl)

/-- Programming the hardware is quiet. -/
theorem program (h : Grows Event.isQuiet a b) (s : Fin m) :
    Grows Event.isQuiet a (b.program s) := by
  refine h.trans ⟨region_program b s, (b.nextDeadline s).toList.map (fun deadline =>
    .timeout s (.armed deadline)) ++ [.timeout s .canceled], by simp [trace_program], ?_⟩
  cases b.nextDeadline s <;> simp [Event.isQuiet, Event.isInner]

/-- Linking a timer is quiet. -/
theorem link (h : Grows Event.isQuiet a b) (s : Fin m) (t : Fin n) :
    Grows Event.isQuiet a (b.link s t).2 :=
  h.trans ⟨region_link b s t, [_], trace_link b s t, by simp [Event.isQuiet, Event.isInner]⟩

/-- Checking that a timer is linked is quiet. -/
theorem expectLinked (h : Grows Event.isQuiet a b) (s : Fin m) (t : Fin n) :
    Grows Event.isQuiet a (b.expectLinked s t) := by
  unfold System.expectLinked
  dsimp only
  split <;> split
  · exact h.emit rfl
  · exact h
  · exact (h.emit rfl).emit rfl
  · exact h.emit rfl

/-- Putting a list and its cells back uses no region and records nothing. -/
theorem setThreaded (h : Grows p a b) (s : Fin m) (x : Threaded m n) :
    Grows p a (b.setThreaded s x) :=
  h.trans (.of_eq (region_setThreaded b s x) rfl)

/-- Unlinking a timer is quiet. -/
theorem unlink (h : Grows Event.isQuiet a b) (s : Fin m) (t : Fin n) :
    Grows Event.isQuiet a (b.unlink s t).2 :=
  (h.expectLinked s t).setThreaded s _

/-- Disarming a timer is quiet. -/
theorem disarm (h : Grows Event.isQuiet a b) (s : Fin m) (t : Fin n) :
    Grows Event.isQuiet a (b.disarm s t) := by
  cases harmed : (b.timer t).armed with
  | false => rwa [disarm_of_not_armed b s t harmed]
  | true =>
    have hunlink := (h.modifyTimer t fun c => { c with armed := false }).unlink s t
    rw [disarm_of_armed b s t harmed]
    dsimp only
    split
    · exact hunlink.program s
    · exact hunlink

/-- Scheduling a timer is quiet. -/
theorem schedule (h : Grows Event.isQuiet a b) (s : Fin m) (t : Fin n) (priority : PriorityClass)
    (deadline period : Timespec) :
    Grows Event.isQuiet a (b.schedule s t priority deadline period) := by
  have hlink := (h.modifyTimer t fun c =>
    { c with deadline, period, priority, armed := true, owner := some s }).link s t
  rw [schedule_eq]
  dsimp only
  split
  · exact hlink.program s
  · exact hlink

/-! ### Collecting -/

/-- Taking out the head is quiet. -/
theorem unlinkExpired (h : Grows Event.isQuiet a b) {now : Timespec}
    (hexpired : b.unlinkExpired s now = some (t, c)) : Grows Event.isQuiet a c := by
  rcases Option.map_eq_some_iff.1 hexpired with ⟨⟨u, x⟩, -, heq⟩
  rcases Prod.mk.inj heq with ⟨-, hc⟩
  rw [← hc]
  exact (h.expectLinked s u).setThreaded s x

/-- Taking out timers uses no region. -/
theorem detachExpired (h : Grows Event.isInner a b) (s : Fin m) (now : Timespec) (limit : Nat) :
    Grows Event.isInner a (b.detachExpired s now limit).2 := by
  induction limit generalizing b with
  | zero => exact h
  | succ limit ih =>
    rw [System.detachExpired]
    split
    · exact h
    · next t sys hexpired =>
      have hunlink := h.trans (Grows.refl b |>.unlinkExpired hexpired).inner
      exact ih ((hunlink.modifyTimer t _).emit rfl)

/-- Chaining timers up uses no region and records nothing. -/
theorem chain (h : Grows p a b) (timers : List (Fin n)) : Grows p a (b.chain timers) := by
  rcases exists_chain_eq timers b with ⟨cells, hchain⟩
  rw [hchain]
  exact h.trans (.of_eq rfl rfl)

/-- Rearming a timer uses no region; it may be logged. -/
theorem rearm (h : Grows Event.isInner a b) (s : Fin m) (t : Fin n) :
    Grows Event.isInner a (b.rearm s t) := by
  unfold System.rearm
  split
  · split
    · exact h.trans (((Grows.refl b).modifyTimer t _).link s t).inner
    · exact h.emit rfl
  · exact h

/-- Rearming timers uses no region. -/
theorem rearm_all (h : Grows Event.isInner a b) (s : Fin m) (timers : List (Fin n)) :
    Grows Event.isInner a (timers.foldl (System.rearm s) b) := by
  induction timers generalizing b with
  | nil => exact h
  | cons t timers ih => exact ih (h.rearm s t)

/-- Collecting uses no region. -/
theorem collect (h : Grows Event.isInner a b) (s : Fin m) (now : Timespec) :
    Grows Event.isInner a (b.collect s now).2 :=
  ((h.detachExpired s now n).chain _).rearm_all s _

end Grows

/-! ## Crossing a region -/

/-- From `a` to `b` the region of `s` was entered and left once, no other region was used, and the
events recorded inside all satisfy `p`. -/
structure Crossed (s : Fin m) (p : Event m n → Bool) (a b : System m n) : Prop where
  region : b.region = Function.update a.region s (a.region s).used
  trace : ∃ es, b.trace = .left s :: (es ++ .entered s :: a.trace) ∧ ∀ e ∈ es, p e = true

/-- From `a` to `b` the region of `s` was entered and left once, and nothing was done inside but to
write a line to the log. -/
structure Noted (s : Fin m) (line : LogLine) (a b : System m n) : Prop where
  alike : a.Alike b
  region : b.region = Function.update a.region s (a.region s).used
  trace : b.trace = .left s :: .logged s line :: .entered s :: a.trace

/-- What holds of all events recorded inside may be replaced by something weaker. -/
theorem Crossed.mono (h : Crossed s p a b) (hpq : ∀ e, p e = true → q e = true) :
    Crossed s q a b := by
  rcases h with ⟨hregion, es, hes, hp⟩
  exact ⟨hregion, es, hes, fun e he => hpq e (hp e he)⟩

/-- Work inside one region leaves the others as they are. -/
theorem Crossed.region_of_ne {r : Fin m} (h : Crossed s p a b) (hr : r ≠ s) :
    b.region r = a.region r := by
  rw [h.region, Function.update_of_ne hr]

/-- Around quiet work nothing is logged. -/
theorem Crossed.unlogged (h : Crossed s Event.isQuiet a b) :
    ∃ es, b.trace = es ++ a.trace ∧ ∀ r line, .logged r line ∉ es := by
  rcases h.trace with ⟨es, hes, hquiet⟩
  refine ⟨.left s :: (es ++ [.entered s]), by simp [hes], ?_⟩
  intro r line hmem
  have hline : Event.logged r line ∈ es := by simpa using hmem
  cases hquiet _ hline

/-- Writing a line inside a region is work inside it. -/
theorem Noted.crossed {line : LogLine} (h : Noted s line a b) : Crossed s Event.isInner a b :=
  ⟨h.region, [.logged s line], h.trace, by simp [Event.isInner]⟩

/-- Entering a region changes that region. -/
theorem region_enter (sys : System m n) (s : Fin m) :
    (sys.enter s).2.region = Function.update sys.region s (sys.region s).enter.2 := by
  funext r
  by_cases hr : r = s
  · subst hr
    simp [region, enter, emit, scheduler, modifyScheduler]
  · rw [Function.update_of_ne hr]
    exact congrArg Scheduler.region (scheduler_modifyScheduler_of_ne sys hr _)

/-- Leaving the region that was entered leaves it used once. -/
theorem region_leave {after : System m n} (h : after.region = (sys.enter s).2.region) :
    (after.leave s (sys.enter s).1).region =
      Function.update sys.region s (sys.region s).used := by
  have hself : after.region s = (sys.region s).enter.2 := by
    rw [h, region_enter, Function.update_self]
  have hexit : (after.scheduler s).region.exit? (sys.enter s).1 = some (sys.region s).used := by
    have hregion : (after.scheduler s).region = (sys.region s).enter.2 := hself
    rw [hregion]
    exact Region.exit?_enter (sys.region s)
  funext r
  simp only [leave, hexit]
  by_cases hr : r = s
  · subst hr
    simp [region, emit, scheduler, modifyScheduler]
  · have hother : ((after.modifyScheduler s fun c =>
        { c with region := (sys.region s).used }).emit (.left s)).region r = after.region r :=
      congrArg Scheduler.region (scheduler_modifyScheduler_of_ne after hr _)
    rw [hother, h, region_enter, Function.update_of_ne hr, Function.update_of_ne hr]

/-- Work that uses no region itself crosses the region around it once. -/
theorem crossed_leave {after : System m n} (h : Grows p (sys.enter s).2 after) :
    Crossed s p sys (after.leave s (sys.enter s).1) := by
  rcases h with ⟨hregion, es, hes, hp⟩
  refine ⟨region_leave hregion, es, ?_, hp⟩
  rw [trace_leave_of_region_eq sys s (congrFun hregion s), hes, trace_enter]

/-- A line that is written between entering and leaving is all that is done. -/
theorem noted_log (sys : System m n) (s : Fin m) (line : LogLine) :
    Noted s line sys (((sys.enter s).2.log s line).leave s (sys.enter s).1) :=
  ⟨((alike_enter sys s).trans (alike_emit _ _)).trans (alike_leave _ s _), region_leave rfl,
    trace_leave_of_region_eq sys s rfl⟩

/-! ## Commands and queries -/

/-- What a piece of work of a command comes to: it is done without a line in the log, or it is
refused and nothing is done but to log why. -/
theorem perform_cases {work : System m n → Except Conflict (System m n)}
    (hwork : ∀ b, work (sys.enter s).2 = .ok b → Grows Event.isQuiet (sys.enter s).2 b) :
    ((sys.perform s work).1 = .ok () ∧ Crossed s Event.isQuiet sys (sys.perform s work).2) ∨
      ∃ cause, (sys.perform s work).1 = .error (.conflict cause) ∧
        Noted s (.rejected cause) sys (sys.perform s work).2 := by
  cases hresult : work (sys.enter s).2 with
  | ok b =>
    rw [perform_of_ok hresult]
    exact .inl ⟨rfl, crossed_leave (hwork b hresult)⟩
  | error cause =>
    rw [perform_of_error hresult]
    exact .inr ⟨cause, rfl, noted_log sys s _⟩

/-- What a command comes to.  If an argument is missing it is refused at once.  Otherwise it is
carried out without a line in the log, or it is refused and nothing is done but to log why. -/
theorem command_cases (sys : System m n) (s : Fin m) (c : Command (Option (Fin n))) :
    (c.lacks = true ∧ sys.command s c = (.error .absent, sys)) ∨
      c.lacks = false ∧
        (((sys.command s c).1 = .ok () ∧ Crossed s Event.isQuiet sys (sys.command s c).2) ∨
          ∃ cause, (sys.command s c).1 = .error (.conflict cause) ∧
            Noted s (.rejected cause) sys (sys.command s c).2) := by
  cases c with
  | init timer callback arg =>
    cases timer <;> cases callback <;> try exact .inl ⟨rfl, rfl⟩
    refine .inr ⟨rfl, perform_cases fun b hok => ?_⟩
    rcases tryInit_eq_ok_iff.1 hok with ⟨-, -, rfl⟩
    exact (Grows.refl _).modifyTimer _ _
  | deinit timer =>
    cases timer <;> try exact .inl ⟨rfl, rfl⟩
    refine .inr ⟨rfl, perform_cases fun b hok => ?_⟩
    rcases tryDeinit_eq_ok_iff.1 hok with ⟨-, rfl⟩
    exact ((Grows.refl _).disarm s _).modifyTimer _ _
  | arm timer priority deadline period =>
    cases timer <;> cases deadline <;> try exact .inl ⟨rfl, rfl⟩
    refine .inr ⟨rfl, perform_cases fun b hok => ?_⟩
    rcases tryArm_eq_ok_iff.1 hok with ⟨-, -, -, rfl⟩
    exact (Grows.refl _).schedule s _ _ _ _
  | cancel timer =>
    cases timer <;> try exact .inl ⟨rfl, rfl⟩
    refine .inr ⟨rfl, perform_cases fun b hok => ?_⟩
    rcases tryCancel_eq_ok_iff.1 hok with ⟨-, rfl⟩
    exact (Grows.refl _).disarm s _

/-- Looking at a system is quiet work inside the region. -/
theorem crossed_inspect {α : Type} (sys : System m n) (s : Fin m) (view : System m n → α) :
    Crossed s Event.isQuiet sys (sys.inspect s view).2 :=
  crossed_leave (.refl _)

/-- Looking at a timer is quiet work inside the region, and without a timer nothing at all. -/
theorem look_cases {α : Type} (sys : System m n) (s : Fin m) (timer : Option (Fin n)) (absent : α)
    (view : Timer m n → α) :
    (timer.isNone = true ∧ (sys.look s timer absent view).2 = sys) ∨
      timer.isNone = false ∧ Crossed s Event.isQuiet sys (sys.look s timer absent view).2 := by
  cases timer with
  | none => exact .inl ⟨rfl, rfl⟩
  | some t => exact .inr ⟨rfl, crossed_inspect sys s _⟩

/-- A query about a timer that is not named does nothing; every other one enters the region. -/
theorem query_cases (sys : System m n) (s : Fin m) (q : Query (Option (Fin n))) :
    (q.lacks = true ∧ (sys.query s q).2 = sys) ∨
      q.lacks = false ∧ Crossed s Event.isQuiet sys (sys.query s q).2 := by
  cases q <;> first
    | exact look_cases sys s _ _ _
    | exact .inr ⟨rfl, crossed_inspect sys s _⟩

/-! ## The course of a pass -/

/-- A dispatch that is ignored enters the region, writes a line and leaves. -/
theorem noted_begin {now : Timespec} (h : sys.dispatching s = true) :
    Noted s (.reentered now) sys (sys.begin s now).2 := by
  rw [begin_of_dispatching h]
  exact noted_log sys s _

/-- A dispatch enters the region once and leaves it before the pass comes to its first timer. -/
theorem crossed_begin (sys : System m n) (s : Fin m) (now : Timespec) :
    Crossed s Event.isInner sys (sys.begin s now).2 := by
  cases hs : sys.dispatching s with
  | true => exact (noted_begin hs).crossed
  | false =>
    have hcollecting : Grows Event.isInner (sys.enter s).2 (sys.collecting s now) :=
      (Grows.of_eq (region_modifyScheduler _ s (by intro _; rfl)) rfl).emit rfl
    rw [begin_of_not_dispatching hs]
    exact crossed_leave (hcollecting.collect s now)

/-- Coming to a timer enters the region once and leaves it. -/
theorem crossed_visit (sys : System m n) (s : Fin m) (t : Fin n) :
    Crossed s Event.isInner sys (sys.visit s t).2 :=
  crossed_leave (((Grows.refl _).modifyTimer t _).emit rfl)

/-- The end of a pass enters the region once and leaves it. -/
theorem crossed_finish (sys : System m n) (s : Fin m) (now : Timespec) :
    Crossed s Event.isInner sys (sys.finish s now) := by
  have hunmarked : Grows Event.isQuiet (sys.enter s).2 ((sys.enter s).2.modifyScheduler s fun c =>
      { c with dispatching := false }) :=
    .of_eq (region_modifyScheduler _ s (by intro _; rfl)) rfl
  rw [finish_eq]
  exact crossed_leave (((hunmarked.program s).inner.emit rfl).emit rfl)

end System
end SoftTimer
