import SoftTimer.Proofs.Insertion

/-!
# Recasting

A recast changes the arguments of callbacks, the classes of timers and the links of passes, and puts
the record of another past before what is recorded.  This file shows that every operation on a
system does the same to a recast system, and gives the recast results: none of them looks at
arguments, classes or the past, and links are looked at only by the visits of a pass.

Main definitions:

- `Recast`: what is put in place of arguments, classes and links, and the past.
- `Recast.system`, `Recast.command`, `Recast.reply`, `Recast.event`: what becomes of systems,
  requests, replies and events.
- `Recast.settle`: the recast that leaves the links of some more timers alone.

Main results:

- Theorems `Recast.command_system` and `Recast.query_system`: commands and queries.
- Theorem `Recast.begin_system`: beginning a pass settles the links of the timers it takes out.
- Theorem `Recast.visit_system`: coming to a timer whose link is settled.
-/

namespace SoftTimer

variable {m n : Nat}

/-- Other arguments, classes and links in place of those of the timers, and another past. -/
structure Recast (m n : Nat) where
  /-- What is put in place of an argument. -/
  arg : CallbackArg → CallbackArg
  /-- What is put in place of a class. -/
  priority : PriorityClass → PriorityClass
  /-- What is put in place of the link of a timer in the chain of a pass. -/
  link : Fin n → Option (Fin n) → Option (Fin n)
  /-- What had happened before, the latest first. -/
  past : List (Event m n)
  /-- No argument stays none. -/
  arg_none : arg .none = .none
  /-- The class of timers that were not told another one stays. -/
  priority_standard : priority .standard = .standard

namespace Recast

variable (R : Recast m n)

/-! ## What becomes of the data -/

/-- The cells of the timer `t`, recast. -/
def timer (t : Fin n) (c : Timer m n) : Timer m n :=
  { c with
    arg := R.arg c.arg
    priority := R.priority c.priority
    firedNext := R.link t c.firedNext }

/-- A command, recast. -/
def command {ρ : Type} : Command ρ → Command ρ
  | .init timer callback arg => .init timer callback (R.arg arg)
  | .arm timer priority deadline period => .arm timer (R.priority priority) deadline period
  | c => c

/-- A request, recast. -/
def request {ρ : Type} : Request ρ → Request ρ
  | .command c => .command (R.command c)
  | what => what

/-- An answer, recast. -/
def answer : Answer → Answer
  | .priority value => .priority (value.map R.priority)
  | .arg value => .arg (value.map R.arg)
  | a => a

/-- A reply, recast. -/
def reply : Reply n → Reply n
  | .answered a => .answered (R.answer a)
  | .calling callback timer arg => .calling callback timer (R.arg arg)
  | r => r

/-- An event, recast. -/
def event : Event m n → Event m n
  | .answered s what reply => .answered s (R.request what) (R.reply reply)
  | .called s t callback arg => .called s t callback (R.arg arg)
  | e => e

/-- The cells of all timers, recast. -/
def cells (c : Cells m n) : Cells m n :=
  .ofFn fun t => R.timer t (c.get t)

/-- A list with its cells, recast. -/
def threaded (x : Threaded m n) : Threaded m n :=
  ⟨x.list, R.cells x.cells⟩

/-- A system, recast. -/
def system (sys : System m n) : System m n where
  schedulers := sys.schedulers
  timers := R.cells sys.timers
  trace := sys.trace.map R.event ++ R.past

/-! ## Cells -/

section Cells

variable (sys : System m n) (c : Cells m n) (x : Threaded m n) (s : Fin m) (t : Fin n)

@[simp]
theorem get_cells : (R.cells c).get t = R.timer t (c.get t) :=
  Table.get_ofFn _ t

/-- A change of cells that a recast respects may be made before or after it. -/
theorem modify_cells {f g : Timer m n → Timer m n} (h : ∀ c, g (R.timer t c) = R.timer t (f c)) :
    (R.cells c).modify t g = R.cells (c.modify t f) := by
  refine Table.ext fun u => ?_
  rw [Table.get_modify, get_cells, get_cells, get_cells, Table.get_modify]
  by_cases hu : u = t
  · rw [if_pos hu, if_pos hu, h, hu]
  · rw [if_neg hu, if_neg hu]

@[simp]
theorem timer_system : (R.system sys).timer t = R.timer t (sys.timer t) :=
  R.get_cells _ t

@[simp]
theorem scheduler_system : (R.system sys).scheduler s = sys.scheduler s :=
  rfl

@[simp]
theorem threaded_system : (R.system sys).threaded s = R.threaded (sys.threaded s) :=
  rfl

@[simp]
theorem emit_system (e : Event m n) : (R.system sys).emit (R.event e) = R.system (sys.emit e) :=
  rfl

/-- Most events do not show what is recast. -/
theorem emit_system_of_eq {e : Event m n} (h : R.event e = e) :
    (R.system sys).emit e = R.system (sys.emit e) := by
  rw [← R.emit_system, h]

@[simp]
theorem log_system (line : LogLine) : (R.system sys).log s line = R.system (sys.log s line) :=
  rfl

@[simp]
theorem modifyScheduler_system (f : Scheduler n → Scheduler n) :
    (R.system sys).modifyScheduler s f = R.system (sys.modifyScheduler s f) :=
  rfl

/-- A change of a timer that a recast respects may be made before or after it. -/
theorem modifyTimer_system {f g : Timer m n → Timer m n}
    (h : ∀ c, g (R.timer t c) = R.timer t (f c)) :
    (R.system sys).modifyTimer t g = R.system (sys.modifyTimer t f) := by
  simp only [System.modifyTimer, system, modify_cells R sys.timers t h]

@[simp]
theorem setThreaded_system :
    (R.system sys).setThreaded s (R.threaded x) = R.system (sys.setThreaded s x) :=
  rfl

end Cells

/-! ## The list -/

section Threaded

variable (x : Threaded m n) (t : Fin n) (place next prev : Option (Fin n)) (now : Timespec)

@[simp]
theorem list_threaded : (R.threaded x).list = x.list :=
  rfl

@[simp]
theorem get_cells_threaded : (R.threaded x).cells.get t = R.timer t (x.cells.get t) :=
  R.get_cells _ t

@[simp]
theorem follower_threaded : (R.threaded x).follower place = x.follower place := by
  cases place with
  | none => rfl
  | some p => exact (congrArg Timer.next (R.get_cells x.cells p)).trans rfl

@[simp]
theorem setFollower_threaded :
    (R.threaded x).setFollower place next = R.threaded (x.setFollower place next) := by
  cases place with
  | none => rfl
  | some p => exact congrArg (Threaded.mk x.list) (R.modify_cells _ p fun _ => rfl)

@[simp]
theorem setLeader_threaded :
    (R.threaded x).setLeader place prev = R.threaded (x.setLeader place prev) := by
  cases place with
  | none => rfl
  | some p => exact congrArg (Threaded.mk x.list) (R.modify_cells _ p fun _ => rfl)

@[simp]
theorem setLinks_threaded :
    (R.threaded x).setLinks t prev next = R.threaded (x.setLinks t prev next) :=
  congrArg (Threaded.mk x.list) (R.modify_cells _ t fun _ => rfl)

/-- The walk back reads deadlines and list links only, so a recast leads it to the same place. -/
theorem seekBack_cells (c : Cells m n) (deadline : Timespec) (steps : Nat) :
    Threaded.seekBack (R.cells c) deadline steps place =
      Threaded.seekBack c deadline steps place := by
  induction steps generalizing place with
  | zero => cases place <;> rfl
  | succ steps ih =>
    cases place with
    | none => rfl
    | some p =>
      rw [Threaded.seekBack, Threaded.seekBack, get_cells, ih]
      rfl

@[simp]
theorem lastBy_threaded (deadline : Timespec) :
    (R.threaded x).lastBy deadline = x.lastBy deadline :=
  R.seekBack_cells _ _ _ _

/-- Insertion commutes with a recast, and reports the same. -/
theorem insert_threaded :
    (R.threaded x).insert t = ((x.insert t).1, R.threaded (x.insert t).2) := by
  have hdeadline : (R.timer t (x.cells.get t)).deadline = (x.cells.get t).deadline := rfl
  simp only [Threaded.insert, get_cells_threaded, hdeadline, lastBy_threaded, follower_threaded,
    setFollower_threaded, setLinks_threaded, setLeader_threaded]
  rfl

/-- Removal commutes with a recast, and reports the same. -/
theorem remove_threaded :
    (R.threaded x).remove t = ((x.remove t).1, R.threaded (x.remove t).2) := by
  have hprev : (R.timer t (x.cells.get t)).prev = (x.cells.get t).prev := rfl
  have hnext : (R.timer t (x.cells.get t)).next = (x.cells.get t).next := rfl
  simp only [Threaded.remove, get_cells_threaded, hprev, hnext, setLinks_threaded,
    setFollower_threaded, setLeader_threaded]
  rfl

@[simp]
theorem isLinked_threaded : (R.threaded x).isLinked t = x.isLinked t := by
  simp only [Threaded.isLinked, get_cells_threaded, list_threaded]
  rfl

/-- Popping the head commutes with a recast, and hands out the same timer. -/
theorem popExpired_threaded :
    (R.threaded x).popExpired now = (x.popExpired now).map fun (t, y) => (t, R.threaded y) := by
  have hexpired : (R.threaded x).expired? now = x.expired? now := by
    simp only [Threaded.expired?, get_cells_threaded, list_threaded]
    rfl
  simp only [Threaded.popExpired, hexpired, Option.map_map, remove_threaded]
  rfl

end Threaded

/-! ## Parts of the work -/

section Parts

variable (sys : System m n) (s : Fin m) (t : Fin n) (now : Timespec)

/-- Entering a region commutes with a recast, with the same restore value. -/
theorem enter_system :
    (R.system sys).enter s = ((sys.enter s).1, R.system (sys.enter s).2) :=
  rfl

@[simp]
theorem leave_system (restore : Nat) :
    (R.system sys).leave s restore = R.system (sys.leave s restore) := by
  simp only [System.leave, scheduler_system]
  split <;> rfl

/-- Work inside the region that does the same to recast systems does so with the region around
it. -/
theorem locked_system {α : Type} {work work' : System m n → α × System m n} {f : α → α}
    {R' : Recast m n}
    (h : ∀ a, work' (R.system a) = (f (work a).1, R'.system (work a).2)) :
    System.locked s work' (R.system sys) =
      (f (System.locked s work sys).1, R'.system (System.locked s work sys).2) := by
  simp only [System.locked, enter_system, h, leave_system]

@[simp]
theorem callTimeout_system (call : TimeoutEvent) :
    (R.system sys).callTimeout s call = R.system (sys.callTimeout s call) :=
  rfl

@[simp]
theorem nextDeadline_system : (R.system sys).nextDeadline s = sys.nextDeadline s := by
  simp only [System.nextDeadline, scheduler_system, timer_system]
  rfl

@[simp]
theorem program_system : (R.system sys).program s = R.system (sys.program s) := by
  simp only [System.program, callTimeout_system, nextDeadline_system]
  split <;> rfl

/-- Linking a timer commutes with a recast. -/
theorem link_system :
    (R.system sys).link s t = ((sys.link s t).1, R.system (sys.link s t).2) := by
  simp only [System.link, threaded_system, insert_threaded, timer_system]
  rfl

@[simp]
theorem expectLinked_system :
    (R.system sys).expectLinked s t = R.system (sys.expectLinked s t) := by
  have hemit : ∀ (a : System m n) (fault : Fault),
      (R.system a).emit (.fault s fault) = R.system (a.emit (.fault s fault)) :=
    fun a _ => R.emit_system_of_eq a rfl
  simp only [System.expectLinked, threaded_system, isLinked_threaded, hemit, ← apply_ite R.system,
    scheduler_system]

/-- Unlinking a timer commutes with a recast. -/
theorem unlink_system :
    (R.system sys).unlink s t = ((sys.unlink s t).1, R.system (sys.unlink s t).2) := by
  simp only [System.unlink, threaded_system, remove_threaded, expectLinked_system,
    setThreaded_system]

/-- Taking out the head commutes with a recast. -/
theorem unlinkExpired_system :
    (R.system sys).unlinkExpired s now =
      (sys.unlinkExpired s now).map fun (t, a) => (t, R.system a) := by
  simp only [System.unlinkExpired, threaded_system, popExpired_threaded, Option.map_map,
    Function.comp_def, expectLinked_system, setThreaded_system]

end Parts

/-! ## Commands -/

section Commands

variable (sys : System m n) (s : Fin m) (t : Fin n)

/-- A timer is blanked with the recast argument. -/
theorem reset_timer (c : Timer m n) (callback : Option CallbackId) (arg : CallbackArg) :
    (R.timer t c).reset callback (R.arg arg) = R.timer t (c.reset callback arg) := by
  simp only [Timer.reset, timer, R.priority_standard]

@[simp]
theorem heldByOther_timer (c : Timer m n) : (R.timer t c).heldByOther s = c.heldByOther s :=
  rfl

@[simp]
theorem armed_timer (c : Timer m n) : (R.timer t c).armed = c.armed :=
  rfl

@[simp]
theorem callback_timer (c : Timer m n) : (R.timer t c).callback = c.callback :=
  rfl

@[simp]
theorem deadline_timer (c : Timer m n) : (R.timer t c).deadline = c.deadline :=
  rfl

@[simp]
theorem disarm_system : (R.system sys).disarm s t = R.system (sys.disarm s t) := by
  have hmark := R.modifyTimer_system sys t (f := fun c => { c with armed := false })
    (g := fun c => { c with armed := false }) fun _ => rfl
  simp only [System.disarm, timer_system, armed_timer, hmark, unlink_system, program_system,
    ← apply_ite R.system]

/-- Scheduling a timer commutes with a recast, given the recast class. -/
theorem schedule_system (priority : PriorityClass) (deadline period : Timespec) :
    (R.system sys).schedule s t (R.priority priority) deadline period =
      R.system (sys.schedule s t priority deadline period) := by
  have hmark := R.modifyTimer_system sys t
    (f := fun c => { c with deadline, period, priority, armed := true, owner := some s })
    (g := fun c =>
      { c with deadline, period, priority := R.priority priority, armed := true, owner := some s })
    fun _ => rfl
  simp only [System.schedule, hmark, link_system, program_system, ← apply_ite R.system]

/-- Binding a timer commutes with a recast, given the recast argument, also in its refusals. -/
theorem tryInit_system (callback : CallbackId) (arg : CallbackArg) :
    (R.system sys).tryInit s t callback (R.arg arg) =
      (sys.tryInit s t callback arg).map R.system := by
  have hreset := R.modifyTimer_system sys t (f := fun c => c.reset (some callback) arg)
    (g := fun c => c.reset (some callback) (R.arg arg)) fun c => R.reset_timer t c _ _
  simp only [System.tryInit, timer_system, heldByOther_timer, armed_timer, hreset]
  split <;> (try split) <;> rfl

/-- Releasing a timer commutes with a recast, also in its refusals. -/
theorem tryDeinit_system :
    (R.system sys).tryDeinit s t = (sys.tryDeinit s t).map R.system := by
  have hreset := R.modifyTimer_system (sys.disarm s t) t (f := fun c => c.reset none .none)
    (g := fun c => c.reset none .none) fun c => by
      have hreset := R.reset_timer t c none .none
      rwa [R.arg_none] at hreset
  simp only [System.tryDeinit, timer_system, heldByOther_timer, disarm_system, hreset]
  split <;> rfl

/-- Cancelling a timer commutes with a recast, also in its refusals. -/
theorem tryCancel_system :
    (R.system sys).tryCancel s t = (sys.tryCancel s t).map R.system := by
  simp only [System.tryCancel, timer_system, heldByOther_timer, disarm_system]
  split <;> rfl

/-- Arming a timer commutes with a recast, given the recast class, also in its refusals. -/
theorem tryArm_system (priority : PriorityClass) (deadline period : Timespec) :
    (R.system sys).tryArm s t (R.priority priority) deadline period =
      (sys.tryArm s t priority deadline period).map R.system := by
  simp only [System.tryArm, timer_system, heldByOther_timer, armed_timer, deadline_timer,
    callback_timer, schedule_system]
  split <;> (try split) <;> (try split) <;> rfl

/-- Carrying work out inside the region commutes with a recast if the work does. -/
theorem perform_system (work work' : System m n → Except Conflict (System m n))
    (h : ∀ a, work' (R.system a) = (work a).map R.system) :
    System.perform s work' (R.system sys) =
      ((System.perform s work sys).1, R.system (System.perform s work sys).2) := by
  refine R.locked_system sys s (f := id) fun a => ?_
  simp only [h, id]
  cases work a <;> rfl

/-- A command does the same to a recast system. -/
theorem command_system (c : Command (Option (Fin n))) :
    (R.system sys).command s (R.command c) =
      ((sys.command s c).1, R.system (sys.command s c).2) := by
  cases c with
  | init timer callback arg =>
    rcases timer with _ | t <;> rcases callback with _ | callback <;> try rfl
    exact R.perform_system sys s (fun a => a.tryInit s t callback arg)
      (fun a => a.tryInit s t callback (R.arg arg))
      fun a => R.tryInit_system a s t callback arg
  | deinit timer =>
    rcases timer with _ | t <;> try rfl
    exact R.perform_system sys s (fun a => a.tryDeinit s t)
      (fun a => a.tryDeinit s t) fun a => R.tryDeinit_system a s t
  | arm timer priority deadline period =>
    rcases timer with _ | t <;> rcases deadline with _ | deadline <;> try rfl
    exact R.perform_system sys s (fun a => a.tryArm s t priority deadline (period.getD .zero))
      (fun a => a.tryArm s t (R.priority priority) deadline (period.getD .zero))
      fun a => R.tryArm_system a s t priority deadline _
  | cancel timer =>
    rcases timer with _ | t <;> try rfl
    exact R.perform_system sys s (fun a => a.tryCancel s t)
      (fun a => a.tryCancel s t) fun a => R.tryCancel_system a s t

/-! ## Queries -/

/-- Looking at a recast system shows the recast answer if the view does. -/
theorem inspect_system (view : System m n → Answer)
    (h : ∀ a, view (R.system a) = R.answer (view a)) :
    System.inspect s view (R.system sys) =
      (R.answer (System.inspect s view sys).1, R.system (System.inspect s view sys).2) := by
  refine R.locked_system sys s (f := R.answer) fun a => ?_
  rw [h]

/-- Looking at a recast timer shows the recast answer if the view does. -/
theorem look_system (timer : Option (Fin n)) (absent : Answer) (view : Timer m n → Answer)
    (habsent : R.answer absent = absent) (h : ∀ t c, view (R.timer t c) = R.answer (view c)) :
    System.look s timer absent view (R.system sys) =
      (R.answer (System.look s timer absent view sys).1,
        R.system (System.look s timer absent view sys).2) := by
  cases timer with
  | none => exact congrArg (·, R.system sys) habsent.symm
  | some t =>
    refine R.inspect_system sys s (fun a => view (a.timer t)) fun a => ?_
    rw [timer_system, h]

/-- The class of an armed timer is recast. -/
theorem priority?_timer (c : Timer m n) :
    (R.timer t c).priority? = c.priority?.map R.priority := by
  cases harmed : c.armed <;> simp [Timer.priority?, timer, harmed]

/-- The argument of a bound timer is recast. -/
theorem arg?_timer (c : Timer m n) : (R.timer t c).arg? = c.arg?.map R.arg := by
  simp only [Timer.arg?, callback_timer, Option.map_map]
  rfl

/-- A query has the recast answer. -/
theorem query_system (q : Query (Option (Fin n))) :
    (R.system sys).query s q = (R.answer (sys.query s q).1, R.system (sys.query s q).2) := by
  cases q with
  | isArmed timer =>
    exact R.look_system sys s timer (.flag false) (fun t => .flag t.armed) rfl fun _ _ => rfl
  | isInitialized timer =>
    exact R.look_system sys s timer (.flag false) (fun t => .flag t.callback.isSome) rfl
      fun _ _ => rfl
  | deadline timer =>
    exact R.look_system sys s timer (.time none) (fun t => .time t.deadline?) rfl fun _ _ => rfl
  | period timer =>
    exact R.look_system sys s timer (.time none) (fun t => .time t.period?) rfl fun _ _ => rfl
  | priority timer =>
    exact R.look_system sys s timer (.priority none) (fun t => .priority t.priority?) rfl
      fun t c => congrArg Answer.priority (R.priority?_timer t c)
  | callbackArg timer =>
    exact R.look_system sys s timer (.arg none) (fun t => .arg t.arg?) rfl
      fun t c => congrArg Answer.arg (R.arg?_timer t c)
  | nextDeadline =>
    exact R.inspect_system sys s (fun a => .time (a.nextDeadline s))
      fun a => congrArg Answer.time (R.nextDeadline_system a s)
  | armedCount =>
    exact R.inspect_system sys s (fun a => .count (a.scheduler s).list.len) fun _ => rfl
  | summary =>
    refine R.inspect_system sys s (fun a => .summary (a.summary s)) fun a => ?_
    refine congrArg Answer.summary ?_
    simp only [System.summary, nextDeadline_system, scheduler_system]

end Commands

/-! ## Passes -/

section Passes

variable (sys : System m n) (s : Fin m) (t : Fin n) (now : Timespec)

/-- Taking timers out commutes with a recast, and takes out the same ones. -/
theorem detachExpired_system (limit : Nat) :
    (R.system sys).detachExpired s now limit =
      ((sys.detachExpired s now limit).1, R.system (sys.detachExpired s now limit).2) := by
  induction limit generalizing sys with
  | zero => rfl
  | succ limit ih =>
    rw [System.detachExpired, System.detachExpired, unlinkExpired_system]
    cases hexpired : sys.unlinkExpired s now with
    | none => rfl
    | some found =>
      rcases found with ⟨t, a⟩
      have hmark := R.modifyTimer_system a t (f := fun c => { c with armed := false })
        (g := fun c => { c with armed := false }) fun _ => rfl
      have hemit : ∀ (b : System m n) d, (R.system b).emit (.detached s t d) =
          R.system (b.emit (.detached s t d)) := fun b d => R.emit_system_of_eq b rfl
      simp only [Option.map_some, hmark, timer_system, deadline_timer, hemit, ih]

/-- The recast that leaves the links of some more timers alone. -/
def settle (timers : List (Fin n)) : Recast m n :=
  { R with link := fun t next => if t ∈ timers then next else R.link t next }

/-- Where no timers are to be left alone the recast is as it was. -/
theorem settle_nil : R.settle [] = R := by
  simp [settle]

/-- Timers may be left alone in two parts. -/
theorem settle_settle (timers more : List (Fin n)) :
    (R.settle timers).settle more = R.settle (timers ++ more) := by
  simp only [settle, List.mem_append]
  congr
  funext u next
  by_cases hu : u ∈ more
  · simp [hu]
  · simp [hu]

/-- Setting a link settles it. -/
theorem relink_system (next : Option (Fin n)) :
    (R.system sys).modifyTimer t (fun c => { c with firedNext := next }) =
      (R.settle [t]).system (sys.modifyTimer t fun c => { c with firedNext := next }) := by
  refine congrArg (fun timers : Cells m n =>
    (⟨sys.schedulers, timers, sys.trace.map R.event ++ R.past⟩ : System m n)) ?_
  refine Table.ext fun u => ?_
  have hcells : (R.system sys).timers = R.cells sys.timers := rfl
  rw [hcells, Table.get_modify, get_cells, get_cells, get_cells, System.timers_modifyTimer,
    Table.get_modify]
  by_cases hu : u = t
  · subst hu
    simp [timer, settle]
  · simp [hu, timer, settle]

/-- Chaining settles the links of the chain. -/
theorem chain_system (timers : List (Fin n)) :
    (R.system sys).chain timers = (R.settle timers).system (sys.chain timers) := by
  induction timers generalizing R sys with
  | nil => rw [settle_nil, System.chain, System.chain]
  | cons t timers ih =>
    rw [System.chain, System.chain, relink_system, ih, settle_settle, List.singleton_append]

/-- Rearming a timer commutes with a recast. -/
theorem rearm_system :
    (R.system sys).rearm s t = R.system (sys.rearm s t) := by
  have hcell : (R.timer t (sys.timer t)).renewal? = (sys.timer t).renewal? := rfl
  cases hrenewal : (sys.timer t).renewal? with
  | some deadline =>
    have hmark := R.modifyTimer_system sys t (f := fun c => { c with deadline, armed := true })
      (g := fun c => { c with deadline, armed := true }) fun _ => rfl
    rw [System.rearm_of_some hrenewal,
      System.rearm_of_some ((congrArg _ (R.timer_system sys t)).trans (hcell.trans hrenewal)),
      hmark, link_system]
  | none =>
    rw [System.rearm_of_none hrenewal,
      System.rearm_of_none ((congrArg _ (R.timer_system sys t)).trans (hcell.trans hrenewal)),
      timer_system, apply_ite R.system]
    rfl

/-- Rearming timers commutes with a recast. -/
theorem rearm_all_system (timers : List (Fin n)) :
    timers.foldl (System.rearm s) (R.system sys) =
      R.system (timers.foldl (System.rearm s) sys) := by
  induction timers generalizing sys with
  | nil => rfl
  | cons t timers ih => rw [List.foldl_cons, List.foldl_cons, rearm_system, ih]

/-- Collecting commutes with a recast, but for the links of the timers chained up, which are new. -/
theorem collect_system :
    (R.system sys).collect s now = ((sys.collect s now).1,
      (R.settle (sys.detachExpired s now n).1).system (sys.collect s now).2) := by
  simp only [System.collect, detachExpired_system, chain_system, rearm_all_system]

/-- A dispatch that is ignored does the same to a recast system. -/
theorem begin_system_of_dispatching (h : sys.dispatching s = true) :
    (R.system sys).begin s now = ((sys.begin s now).1, R.system (sys.begin s now).2) := by
  have hrecast : (R.system sys).dispatching s = true := h
  rw [System.begin_of_dispatching h, System.begin_of_dispatching hrecast, enter_system, log_system,
    leave_system]

/-- A pass that begins settles the links of the timers that it takes out. -/
theorem begin_system (h : sys.dispatching s = false) :
    (R.system sys).begin s now = ((sys.begin s now).1,
      (R.settle ((sys.collecting s now).detachExpired s now n).1).system (sys.begin s now).2) := by
  have hrecast : (R.system sys).dispatching s = false := h
  have hcollecting : (R.system sys).collecting s now = R.system (sys.collecting s now) := rfl
  rw [System.begin_of_not_dispatching h, System.begin_of_not_dispatching hrecast, enter_system,
    hcollecting, collect_system, leave_system]

/-- Coming to a timer whose link is settled does the same to a recast system. -/
theorem visit_system (h : ∀ next, R.link t next = next) :
    (R.system sys).visit s t =
      (⟨(sys.visit s t).1.next, (sys.visit s t).1.binding.map fun (callback, arg) =>
        (callback, R.arg arg)⟩, R.system (sys.visit s t).2) := by
  have hunlink := R.modifyTimer_system (sys.enter s).2 t
    (f := fun c => { c with firedNext := none }) (g := fun c => { c with firedNext := none })
    fun c => by simp only [timer, h]
  refine Prod.ext ?_ ?_
  · simp only [System.visit_fst, timer_system, callback_timer, Option.map_map]
    exact congrArg (System.Visit.mk · _) (h _)
  · rw [System.visit_snd, System.visit_snd, enter_system]
    dsimp only
    rw [hunlink, R.emit_system_of_eq _ rfl, leave_system]

/-- The end of a pass. -/
theorem finish_system :
    (R.system sys).finish s now = R.system (sys.finish s now) := by
  have hprogrammed : (R.system sys).programmed s = R.system (sys.programmed s) := by
    simp only [System.programmed, enter_system, modifyScheduler_system, program_system]
  rw [System.finish_eq, System.finish_eq, hprogrammed, enter_system, log_system, scheduler_system,
    R.emit_system_of_eq _ rfl, leave_system]

end Passes

end Recast
end SoftTimer
