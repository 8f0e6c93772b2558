import Mathlib.Logic.Function.Basic
import SoftTimer.Proofs.Threaded
import SoftTimer.System.Command
import SoftTimer.System.Query

/-!
# Parts of a system

A system is made of its timers, and for each scheduler of a list, a mark that a pass is under way,
a critical region and a hardware timeout.  This file says for each basic operation which parts it
changes.  The rest of the theory reads systems through these parts only.

Main results:

- Theorem `System.trace_locked`: work that leaves its region alone is framed by entering and
  leaving that region, and leaving succeeds.
- Theorem `System.pending_timeout_program`: after programming, the earliest deadline is pending.
- Theorems `System.body_disarm` and `System.body_schedule`: of the cells other than links, disarming
  and scheduling change those of one timer.
-/

namespace SoftTimer
namespace System

variable {m n : Nat}

/-! ## Parts of the schedulers -/

/-- The ends and the length of the list of each scheduler. -/
def lists (sys : System m n) (s : Fin m) : TimerList n :=
  (sys.scheduler s).list

/-- Whether a pass of each scheduler is under way. -/
def dispatching (sys : System m n) (s : Fin m) : Bool :=
  (sys.scheduler s).dispatching

/-- The critical region of each scheduler. -/
def region (sys : System m n) (s : Fin m) : Region :=
  (sys.scheduler s).region

/-- The hardware timeout of each scheduler. -/
def timeout (sys : System m n) (s : Fin m) : RecordingTimeout :=
  (sys.scheduler s).timeout

section Schedulers

variable (sys : System m n) (s : Fin m) {f : Scheduler n → Scheduler n}

/-- A reading that a change of schedulers respects is the same after changing any one of them. -/
theorem apply_scheduler_modifyScheduler {β : Type} {φ : Scheduler n → β}
    (h : ∀ c, φ (f c) = φ c) (r : Fin m) :
    φ ((sys.modifyScheduler s f).scheduler r) = φ (sys.scheduler r) :=
  Table.apply_get_modify h _ _ _

/-- A change that keeps the list of a scheduler keeps all lists. -/
theorem lists_modifyScheduler (h : ∀ c, (f c).list = c.list) :
    (sys.modifyScheduler s f).lists = sys.lists :=
  funext (apply_scheduler_modifyScheduler sys s h)

/-- A change that keeps the mark of a scheduler keeps all marks. -/
theorem dispatching_modifyScheduler (h : ∀ c, (f c).dispatching = c.dispatching) :
    (sys.modifyScheduler s f).dispatching = sys.dispatching :=
  funext (apply_scheduler_modifyScheduler sys s h)

/-- A change that keeps the region of a scheduler keeps all regions. -/
theorem region_modifyScheduler (h : ∀ c, (f c).region = c.region) :
    (sys.modifyScheduler s f).region = sys.region :=
  funext (apply_scheduler_modifyScheduler sys s h)

/-- Marking a scheduler changes its mark and no other. -/
theorem dispatching_mark (mark : Bool) :
    (sys.modifyScheduler s fun c => { c with dispatching := mark }).dispatching =
      Function.update sys.dispatching s mark := by
  funext r
  by_cases hr : r = s
  · subst hr
    simp [dispatching]
  · rw [Function.update_of_ne hr]
    exact congrArg Scheduler.dispatching (scheduler_modifyScheduler_of_ne sys hr _)

/-- A change that keeps the timeout of a scheduler keeps all timeouts. -/
theorem timeout_modifyScheduler (h : ∀ c, (f c).timeout = c.timeout) :
    (sys.modifyScheduler s f).timeout = sys.timeout :=
  funext (apply_scheduler_modifyScheduler sys s h)

end Schedulers

section Cells

variable (sys : System m n) (s : Fin m) (t u : Fin n) (e : Event m n)
  (f : Timer m n → Timer m n) (g : Scheduler n → Scheduler n)

@[simp] theorem timers_emit : (sys.emit e).timers = sys.timers := rfl
@[simp] theorem lists_emit : (sys.emit e).lists = sys.lists := rfl
@[simp] theorem dispatching_emit : (sys.emit e).dispatching = sys.dispatching := rfl
@[simp] theorem region_emit : (sys.emit e).region = sys.region := rfl
@[simp] theorem timeout_emit : (sys.emit e).timeout = sys.timeout := rfl
@[simp] theorem trace_emit : (sys.emit e).trace = e :: sys.trace := rfl

@[simp] theorem timers_modifyTimer : (sys.modifyTimer t f).timers = sys.timers.modify t f := rfl
@[simp] theorem lists_modifyTimer : (sys.modifyTimer t f).lists = sys.lists := rfl
@[simp] theorem dispatching_modifyTimer :
    (sys.modifyTimer t f).dispatching = sys.dispatching := rfl
@[simp] theorem region_modifyTimer : (sys.modifyTimer t f).region = sys.region := rfl
@[simp] theorem timeout_modifyTimer : (sys.modifyTimer t f).timeout = sys.timeout := rfl
@[simp] theorem trace_modifyTimer : (sys.modifyTimer t f).trace = sys.trace := rfl

@[simp] theorem timers_modifyScheduler : (sys.modifyScheduler s g).timers = sys.timers := rfl
@[simp] theorem trace_modifyScheduler : (sys.modifyScheduler s g).trace = sys.trace := rfl

/-- The cells of timers after those of one were changed. -/
theorem timer_modifyTimer :
    (sys.modifyTimer t f).timer u = if u = t then f (sys.timer t) else sys.timer u :=
  Table.get_modify _ _ _ _

/-- A reading that a change of cells respects is the same after changing any timer. -/
theorem apply_timer_modifyTimer {β : Type} {φ : Timer m n → β} {f : Timer m n → Timer m n}
    (h : ∀ c, φ (f c) = φ c) : φ ((sys.modifyTimer t f).timer u) = φ (sys.timer u) :=
  Table.apply_get_modify h _ _ _

end Cells

/-! ## The critical region -/

section Region

variable (sys : System m n) (s : Fin m) (restore : Nat)

@[simp] theorem timers_enter : (sys.enter s).2.timers = sys.timers := rfl

@[simp]
theorem lists_enter : (sys.enter s).2.lists = sys.lists :=
  lists_modifyScheduler sys s (by intro _; rfl)

@[simp]
theorem dispatching_enter : (sys.enter s).2.dispatching = sys.dispatching :=
  dispatching_modifyScheduler sys s (by intro _; rfl)

@[simp]
theorem timeout_enter : (sys.enter s).2.timeout = sys.timeout :=
  timeout_modifyScheduler sys s (by intro _; rfl)

@[simp] theorem trace_enter : (sys.enter s).2.trace = .entered s :: sys.trace := rfl

@[simp]
theorem timers_leave : (sys.leave s restore).timers = sys.timers := by
  unfold leave
  split <;> rfl

@[simp]
theorem lists_leave : (sys.leave s restore).lists = sys.lists := by
  unfold leave
  split
  · exact lists_modifyScheduler sys s (by intro _; rfl)
  · rfl

@[simp]
theorem dispatching_leave : (sys.leave s restore).dispatching = sys.dispatching := by
  unfold leave
  split
  · exact dispatching_modifyScheduler sys s (by intro _; rfl)
  · rfl

@[simp]
theorem timeout_leave : (sys.leave s restore).timeout = sys.timeout := by
  unfold leave
  split
  · exact timeout_modifyScheduler sys s (by intro _; rfl)
  · rfl

/-- The region just entered can be left with the value handed out, whatever was done inside. -/
theorem trace_leave_of_region_eq {after : System m n}
    (h : after.region s = (sys.enter s).2.region s) :
    (after.leave s (sys.enter s).1).trace = .left s :: after.trace := by
  have hexit : ((after.scheduler s).region.exit? (sys.enter s).1).isSome := by
    have hregion : (after.scheduler s).region = (sys.scheduler s).region.enter.2 := by
      apply h.trans
      simp [region, enter, emit, scheduler, modifyScheduler]
    rw [hregion]
    cases hkind : (sys.scheduler s).region with
    | counting r => simp [enter, hkind, Region.enter, Region.exit?, CountingRegion.exit?_enter]
    | interruptMask => rfl
  rcases Option.isSome_iff_exists.1 hexit with ⟨region, hregion⟩
  simp only [leave, hregion]
  rfl

/-- Work that leaves its region alone is framed by entering and leaving that region. -/
theorem trace_locked {α : Type} {work : System m n → α × System m n}
    (h : (work (sys.enter s).2).2.region = (sys.enter s).2.region) :
    (sys.locked s work).2.trace = .left s :: (work (sys.enter s).2).2.trace :=
  trace_leave_of_region_eq sys s (congrFun h s)

end Region

/-! ## The hardware timeout -/

section Timeout

variable (sys : System m n) (s : Fin m) (call : TimeoutEvent)

@[simp] theorem timers_callTimeout : (sys.callTimeout s call).timers = sys.timers := rfl

@[simp]
theorem lists_callTimeout : (sys.callTimeout s call).lists = sys.lists :=
  lists_modifyScheduler sys s (by intro _; rfl)

@[simp]
theorem dispatching_callTimeout : (sys.callTimeout s call).dispatching = sys.dispatching :=
  dispatching_modifyScheduler sys s (by intro _; rfl)

@[simp]
theorem region_callTimeout : (sys.callTimeout s call).region = sys.region :=
  region_modifyScheduler sys s (by intro _; rfl)

@[simp]
theorem timeout_callTimeout :
    (sys.callTimeout s call).timeout =
      Function.update sys.timeout s ((sys.timeout s).apply call) := by
  funext r
  by_cases hr : r = s
  · subst hr
    simp [timeout, callTimeout, emit, modifyScheduler, scheduler]
  · rw [Function.update_of_ne hr]
    exact congrArg Scheduler.timeout (scheduler_modifyScheduler_of_ne sys hr _)

@[simp]
theorem trace_callTimeout :
    (sys.callTimeout s call).trace = .timeout s call :: sys.trace :=
  rfl

/-- The next deadline of a scheduler is that of the head of its list. -/
theorem nextDeadline_eq :
    sys.nextDeadline s = (sys.lists s).head.map fun t => (sys.timers.get t).deadline :=
  rfl

/-- Programming cancels the hardware timeout, and sets it to the next deadline if there is one. -/
theorem program_eq :
    sys.program s =
      match sys.nextDeadline s with
      | some deadline => (sys.callTimeout s .canceled).callTimeout s (.armed deadline)
      | none => sys.callTimeout s .canceled := by
  have hnext : (sys.callTimeout s .canceled).nextDeadline s = sys.nextDeadline s := by
    simp [nextDeadline_eq]
  cases hdeadline : sys.nextDeadline s <;> simp only [program, hnext, hdeadline]

@[simp]
theorem timers_program : (sys.program s).timers = sys.timers := by
  rw [program_eq]
  split <;> simp

@[simp]
theorem lists_program : (sys.program s).lists = sys.lists := by
  rw [program_eq]
  split <;> simp

@[simp]
theorem dispatching_program : (sys.program s).dispatching = sys.dispatching := by
  rw [program_eq]
  split <;> simp

@[simp]
theorem region_program : (sys.program s).region = sys.region := by
  rw [program_eq]
  split <;> simp

/-- After programming, the earliest deadline is pending. -/
theorem pending_timeout_program :
    ((sys.program s).timeout s).pending = sys.nextDeadline s := by
  rw [program_eq]
  split
  · next heq => simp [heq, RecordingTimeout.apply]
  · next heq => simp [heq, RecordingTimeout.apply]

/-- Programming one timeout leaves the others as they are. -/
theorem timeout_program_of_ne {r : Fin m} (h : r ≠ s) :
    (sys.program s).timeout r = sys.timeout r := by
  rw [program_eq]
  split <;> simp [h]

/-- What programming adds to the trace. -/
theorem trace_program :
    (sys.program s).trace =
      (sys.nextDeadline s).toList.map (fun deadline => .timeout s (.armed deadline)) ++
        .timeout s .canceled :: sys.trace := by
  rw [program_eq]
  split
  · next heq => simp [heq]
  · next heq => simp [heq]

end Timeout

/-! ## Linking and unlinking -/

section Link

variable (sys : System m n) (s : Fin m) (t u : Fin n) (x : Threaded m n)

@[simp] theorem timers_setThreaded : (sys.setThreaded s x).timers = x.cells := rfl

@[simp]
theorem lists_setThreaded :
    (sys.setThreaded s x).lists = Function.update sys.lists s x.list := by
  funext r
  by_cases hr : r = s
  · subst hr
    simp [lists, setThreaded, scheduler]
  · rw [Function.update_of_ne hr]
    exact congrArg Scheduler.list (Table.get_modify_of_ne _ hr _)

@[simp]
theorem dispatching_setThreaded : (sys.setThreaded s x).dispatching = sys.dispatching :=
  funext fun _ => Table.apply_get_modify (φ := Scheduler.dispatching) (by intro _; rfl) _ _ _

@[simp]
theorem region_setThreaded : (sys.setThreaded s x).region = sys.region :=
  funext fun _ => Table.apply_get_modify (φ := Scheduler.region) (by intro _; rfl) _ _ _

@[simp]
theorem timeout_setThreaded : (sys.setThreaded s x).timeout = sys.timeout :=
  funext fun _ => Table.apply_get_modify (φ := Scheduler.timeout) (by intro _; rfl) _ _ _

@[simp] theorem trace_setThreaded : (sys.setThreaded s x).trace = sys.trace := rfl

/-- What the list operations see of a system is the list of the scheduler and the cells of all
timers. -/
theorem threaded_eq : sys.threaded s = ⟨sys.lists s, sys.timers⟩ := rfl

@[simp]
theorem timers_link : (sys.link s t).2.timers = ((sys.threaded s).insert t).2.cells := rfl

@[simp]
theorem lists_link :
    (sys.link s t).2.lists =
      Function.update sys.lists s ((sys.threaded s).insert t).2.list :=
  lists_setThreaded sys s _

@[simp]
theorem dispatching_link : (sys.link s t).2.dispatching = sys.dispatching :=
  dispatching_setThreaded sys s _

@[simp]
theorem region_link : (sys.link s t).2.region = sys.region :=
  region_setThreaded sys s _

@[simp]
theorem timeout_link : (sys.link s t).2.timeout = sys.timeout :=
  timeout_setThreaded sys s _

/-- Linking a timer is noted with its deadline. -/
theorem trace_link :
    (sys.link s t).2.trace = .inserted s t (sys.timer t).deadline :: sys.trace :=
  rfl

/-- Linking reports a new head exactly if the insertion does. -/
theorem link_fst : (sys.link s t).1 = ((sys.threaded s).insert t).1 := rfl

/-- A timer that is linked into a list that counts it meets the expectation. -/
theorem expectLinked_eq (hlinked : (sys.threaded s).isLinked t = true)
    (hlen : (sys.lists s).len ≠ 0) : sys.expectLinked s t = sys := by
  have hlen' : (sys.scheduler s).list.len ≠ 0 := hlen
  simp [expectLinked, hlinked, hlen']

/-- Checking that a timer is linked changes the trace and nothing else. -/
theorem exists_expectLinked_eq : ∃ trace, sys.expectLinked s t = { sys with trace } := by
  unfold expectLinked
  dsimp only
  split <;> split <;> exact ⟨_, rfl⟩

/-- Unlinking is checking that the timer is linked, and then the list operation. -/
theorem unlink_snd :
    (sys.unlink s t).2 =
      (sys.expectLinked s t).setThreaded s ((sys.threaded s).remove t).2 :=
  rfl

@[simp]
theorem timers_unlink : (sys.unlink s t).2.timers = ((sys.threaded s).remove t).2.cells := rfl

@[simp]
theorem lists_unlink :
    (sys.unlink s t).2.lists =
      Function.update sys.lists s ((sys.threaded s).remove t).2.list := by
  rcases exists_expectLinked_eq sys s t with ⟨trace, h⟩
  rw [unlink_snd, h, lists_setThreaded]
  rfl

@[simp]
theorem dispatching_unlink : (sys.unlink s t).2.dispatching = sys.dispatching := by
  rcases exists_expectLinked_eq sys s t with ⟨trace, h⟩
  rw [unlink_snd, h, dispatching_setThreaded]
  rfl

@[simp]
theorem region_unlink : (sys.unlink s t).2.region = sys.region := by
  rcases exists_expectLinked_eq sys s t with ⟨trace, h⟩
  rw [unlink_snd, h, region_setThreaded]
  rfl

@[simp]
theorem timeout_unlink : (sys.unlink s t).2.timeout = sys.timeout := by
  rcases exists_expectLinked_eq sys s t with ⟨trace, h⟩
  rw [unlink_snd, h, timeout_setThreaded]
  rfl

end Link

/-! ## Cells other than links -/

section Bodies

variable (sys : System m n) (s : Fin m) (t u : Fin n) (priority : PriorityClass)
  (deadline period : Timespec)

/-- Linking changes no cells but links. -/
theorem body_link : ((sys.link s t).2.timer u).body = (sys.timer u).body :=
  Threaded.body_insert _ _ _

/-- Unlinking changes no cells but links. -/
theorem body_unlink : ((sys.unlink s t).2.timer u).body = (sys.timer u).body :=
  Threaded.body_remove _ _ _

/-- Programming changes no timer. -/
theorem timer_program : (sys.program s).timer u = sys.timer u :=
  congrArg (Table.get · u) (timers_program sys s)

/-- Disarming an armed timer unlinks it, and programs the hardware if it was the head. -/
theorem disarm_of_armed (h : (sys.timer t).armed = true) :
    sys.disarm s t =
      let sys' := (sys.modifyTimer t fun c => { c with armed := false }).unlink s t
      if sys'.1 then sys'.2.program s else sys'.2 :=
  if_pos h

/-- Disarming a timer that is not armed does nothing. -/
theorem disarm_of_not_armed (h : (sys.timer t).armed = false) : sys.disarm s t = sys :=
  if_neg (Bool.eq_false_iff.1 h)

/-- Scheduling arms the timer and links it, and programs the hardware if it became the head. -/
theorem schedule_eq :
    sys.schedule s t priority deadline period =
      let sys' := (sys.modifyTimer t fun c =>
        { c with deadline, period, priority, armed := true, owner := some s }).link s t
      if sys'.1 then sys'.2.program s else sys'.2 :=
  rfl

/-- Disarming changes one mark, links apart. -/
theorem body_disarm :
    ((sys.disarm s t).timer u).body =
      if u = t then { (sys.timer t).body with armed := false } else (sys.timer u).body := by
  cases h : (sys.timer t).armed with
  | true =>
    have hunlink : (((sys.modifyTimer t fun c => { c with armed := false }).unlink s t).2.timer
        u).body =
          if u = t then { (sys.timer t).body with armed := false } else (sys.timer u).body := by
      rw [body_unlink, timer_modifyTimer]
      split <;> rfl
    rw [disarm_of_armed sys s t h]
    dsimp only
    split
    · rw [timer_program, hunlink]
    · exact hunlink
  | false =>
    rw [disarm_of_not_armed sys s t h]
    split
    · next heq =>
      subst heq
      simp [Timer.body, h]
    · rfl

/-- Scheduling gives one timer its schedule and its owner, links apart. -/
theorem body_schedule :
    ((sys.schedule s t priority deadline period).timer u).body =
      if u = t then
        { (sys.timer t).body with deadline, period, priority, armed := true, owner := some s }
      else (sys.timer u).body := by
  have hlink : (((sys.modifyTimer t fun c =>
      { c with deadline, period, priority, armed := true, owner := some s }).link s t).2.timer
        u).body = if u = t then
          { (sys.timer t).body with deadline, period, priority, armed := true, owner := some s }
        else (sys.timer u).body := by
    rw [body_link, timer_modifyTimer]
    split <;> rfl
  rw [schedule_eq]
  dsimp only
  split
  · rw [timer_program, hlink]
  · exact hlink

/-- Disarming leaves the links of passes alone. -/
theorem firedNext_disarm :
    ((sys.disarm s t).timer u).firedNext = (sys.timer u).firedNext := by
  have hbody := congrArg Timer.firedNext (body_disarm sys s t u)
  rw [Timer.firedNext_body] at hbody
  rw [hbody]
  split
  · next heq => rw [heq, Timer.firedNext_body]
  · rfl

/-- Scheduling leaves the links of passes alone. -/
theorem firedNext_schedule :
    ((sys.schedule s t priority deadline period).timer u).firedNext =
      (sys.timer u).firedNext := by
  have hbody := congrArg Timer.firedNext (body_schedule sys s t u priority deadline period)
  rw [Timer.firedNext_body] at hbody
  rw [hbody]
  split
  · next heq => rw [heq, Timer.firedNext_body]
  · rfl

end Bodies

/-! ## Parts that commands leave alone -/

section Work

variable (sys : System m n) (s : Fin m) (t : Fin n) (priority : PriorityClass)
  (deadline period : Timespec)

/-- Disarming changes no marks. -/
theorem dispatching_disarm : (sys.disarm s t).dispatching = sys.dispatching := by
  unfold disarm
  dsimp only
  split
  · split <;> simp
  · rfl

/-- Disarming enters and leaves no region. -/
theorem region_disarm : (sys.disarm s t).region = sys.region := by
  unfold disarm
  dsimp only
  split
  · split <;> simp
  · rfl

/-- Scheduling changes no marks. -/
theorem dispatching_schedule :
    (sys.schedule s t priority deadline period).dispatching = sys.dispatching := by
  rw [schedule_eq]
  dsimp only
  split <;> simp

/-- Scheduling enters and leaves no region. -/
theorem region_schedule :
    (sys.schedule s t priority deadline period).region = sys.region := by
  rw [schedule_eq]
  dsimp only
  split <;> simp

/-- Disarming through one scheduler leaves the timeouts of the others as they are. -/
theorem timeout_disarm_of_ne {r : Fin m} (h : r ≠ s) :
    (sys.disarm s t).timeout r = sys.timeout r := by
  unfold disarm
  dsimp only
  split
  · split
    · rw [timeout_program_of_ne _ s h, timeout_unlink, timeout_modifyTimer]
    · rw [timeout_unlink, timeout_modifyTimer]
  · rfl

/-- Scheduling through one scheduler leaves the timeouts of the others as they are. -/
theorem timeout_schedule_of_ne {r : Fin m} (h : r ≠ s) :
    (sys.schedule s t priority deadline period).timeout r = sys.timeout r := by
  rw [schedule_eq]
  dsimp only
  split
  · rw [timeout_program_of_ne _ s h, timeout_link, timeout_modifyTimer]
  · rw [timeout_link, timeout_modifyTimer]

end Work

end System
end SoftTimer
