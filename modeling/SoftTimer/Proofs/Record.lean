import SoftTimer.Proofs.Discipline
import SoftTimer.Proofs.Insertion

/-!
# What is recorded

Every step adds a row of events to the record.  This file says which row, for each operation and
then for each step, and shows that the state of the hardware timeouts is what their recorded calls
make of it.

Main definitions:

- `System.history`: what happened, in the order of time.
- `System.Recorded`: the events that were recorded from one system to another.
- `retiming`: the calls that point a hardware timeout at a deadline, or at nothing.
- `Moment.record`, `Moment.records`: the events that a step and a row of steps record.

Main results:

- Theorem `System.Sound.recorded_disarm`: disarming calls the hardware exactly for the head.
- Theorem `System.Sound.recorded_schedule`: scheduling calls the hardware exactly for a deadline
  before all others.
- Theorem `System.Sound.recorded_begin`: a pass begins without a call of the hardware.
- Theorems `Moment.recorded_step` and `Moment.recorded_run`: what a step and a run record.
-/

namespace SoftTimer

instance : Std.LawfulOrderLT Timespec where
  lt_iff a b := by
    simp only [Timespec.lt_iff_nanos_lt, Timespec.le_iff_nanos_le]
    omega

variable {m n : Nat}

/-- The call on the hardware timeout of `s` that an event tells of. -/
def Event.callOn (s : Fin m) : Event m n → Option TimeoutEvent
  | .timeout r call => if r = s then some call else none
  | _ => none

/-- The calls that point the hardware timeout of `s` at a deadline, or at nothing. -/
def retiming (s : Fin m) (deadline : Option Timespec) : List (Event m n) :=
  .timeout s .canceled :: deadline.toList.map fun deadline => .timeout s (.armed deadline)

namespace System

variable {sys sys' a b c : System m n} {armed : Fin m → List (Fin n)} {s r : Fin m} {t u : Fin n}
  {now : Timespec} {e : Event m n} {es fs : List (Event m n)}

/-- What happened, in the order of time. -/
def history (sys : System m n) : List (Event m n) :=
  sys.trace.reverse

/-- From `a` to `b` the events `es` were recorded, and the hardware timeouts were called as they
tell, and not otherwise. -/
structure Recorded (es : List (Event m n)) (a b : System m n) : Prop where
  history : b.history = a.history ++ es
  timeout : ∀ s,
    b.timeout s = (es.filterMap (Event.callOn s)).foldl RecordingTimeout.apply (a.timeout s)

namespace Recorded

/-- Nothing is recorded where nothing happens. -/
theorem refl (a : System m n) : Recorded [] a a :=
  ⟨(List.append_nil _).symm, fun _ => rfl⟩

/-- What is recorded on two parts of a way is recorded one after the other. -/
theorem trans (h : Recorded es a b) (h' : Recorded fs b c) : Recorded (es ++ fs) a c := by
  constructor
  · rw [h'.history, h.history, List.append_assoc]
  · intro s
    rw [h'.timeout, h.timeout, List.filterMap_append, List.foldl_append]

/-- Nothing is recorded of work on other parts. -/
theorem of_eq (htrace : b.trace = a.trace) (htimeout : b.timeout = a.timeout) :
    Recorded [] a b := by
  constructor
  · rw [System.history, htrace, List.append_nil, System.history]
  · intro s
    rw [htimeout]
    rfl

/-- A change that keeps trace and timeouts records nothing. -/
theorem unchanged (h : Recorded es a b) (htrace : c.trace = b.trace)
    (htimeout : c.timeout = b.timeout) : Recorded es a c := by
  simpa using h.trans (of_eq htrace htimeout)

/-- An event that is no call of a hardware timeout. -/
theorem of_trace (htrace : b.trace = e :: a.trace) (htimeout : b.timeout = a.timeout)
    (he : ∀ s, e.callOn s = none) : Recorded [e] a b := by
  constructor
  · rw [System.history, htrace, List.reverse_cons, System.history]
  · intro s
    rw [htimeout, List.filterMap_cons_none (he s)]
    rfl

/-- Emitting an event that tells of no call records it. -/
theorem emit (h : Recorded es a b) (he : ∀ s, e.callOn s = none) :
    Recorded (es ++ [e]) a (b.emit e) :=
  h.trans (of_trace rfl rfl he)

/-- Changing the cells of a timer records nothing. -/
theorem modifyTimer (h : Recorded es a b) (t : Fin n) (f : Timer m n → Timer m n) :
    Recorded es a (b.modifyTimer t f) :=
  h.unchanged rfl rfl

end Recorded

/-! ## The critical region -/

/-- Entering a region is recorded. -/
theorem recorded_enter (sys : System m n) (s : Fin m) :
    Recorded [.entered s] sys (sys.enter s).2 :=
  .of_trace (trace_enter sys s) (timeout_enter sys s) fun _ => rfl

/-- What was recorded inside the region stands between entering and leaving it. -/
theorem recorded_leave (h : Recorded es (sys.enter s).2 sys')
    (hregion : sys'.region s = (sys.enter s).2.region s) :
    Recorded (.entered s :: es ++ [.left s]) sys (sys'.leave s (sys.enter s).1) := by
  have hleave : Recorded [.left s] sys' (sys'.leave s (sys.enter s).1) :=
    .of_trace (trace_leave_of_region_eq sys s hregion) (timeout_leave _ s _) fun _ => rfl
  exact ((recorded_enter sys s).trans h).trans hleave

/-! ## The hardware timeout -/

/-- A call on a hardware timeout is recorded. -/
theorem recorded_callTimeout (sys : System m n) (s : Fin m) (call : TimeoutEvent) :
    Recorded [.timeout s call] sys (sys.callTimeout s call) := by
  constructor
  · rw [history, trace_callTimeout, List.reverse_cons, history]
  · intro r
    rw [timeout_callTimeout]
    by_cases hr : s = r
    · subst hr
      simp [Event.callOn]
    · simp [Event.callOn, hr, Function.update_of_ne (Ne.symm hr)]

/-- Programming points the hardware timeout at the earliest deadline, or at nothing. -/
theorem recorded_program (sys : System m n) (s : Fin m) :
    Recorded (retiming s (sys.nextDeadline s)) sys (sys.program s) := by
  rw [program_eq]
  cases sys.nextDeadline s with
  | none => exact recorded_callTimeout sys s .canceled
  | some deadline =>
    exact (recorded_callTimeout sys s .canceled).trans (recorded_callTimeout _ s (.armed deadline))

/-! ## The list -/

/-- Linking a timer is recorded with its deadline. -/
theorem recorded_link (sys : System m n) (s : Fin m) (t : Fin n) :
    Recorded [.inserted s t (sys.timer t).deadline] sys (sys.link s t).2 :=
  .of_trace (trace_link sys s t) (timeout_link sys s t) fun _ => rfl

/-- Unlinking a timer of the list records nothing. -/
theorem recorded_unlink {l : List (Fin n)} (h : (sys.threaded s).Holds l) (ht : t ∈ l) :
    Recorded [] sys (sys.unlink s t).2 := by
  rw [unlink_snd, expectLinked_of_holds h ht]
  exact .of_eq rfl (timeout_setThreaded sys s _)

/-- The armed timers are a matter of the timers and the lists. -/
theorem armedTimers_congr (htimers : sys'.timers = sys.timers) (hlists : sys'.lists = sys.lists)
    (s : Fin m) : sys'.armedTimers s = sys.armedTimers s := by
  rw [armedTimers, armedTimers, threaded_eq, threaded_eq, htimers, hlists]

/-! ## Commands -/

/-- What disarming a timer records: if it is the head, the hardware moves on to the timer after it. -/
def disarming (sys : System m n) (s : Fin m) (t : Fin n) : List (Event m n) :=
  if (sys.armedTimers s).head? = some t then
    retiming s ((sys.armedTimers s)[1]?.map fun u => (sys.timer u).deadline)
  else []

/-- What scheduling a timer records: it is put into the list, and if its deadline comes before all
others, the hardware follows. -/
def scheduling (sys : System m n) (s : Fin m) (t : Fin n) (deadline : Timespec) :
    List (Event m n) :=
  .inserted s t deadline ::
    if (sys.armedTimers s).all fun u => deadline < (sys.timer u).deadline then
      retiming s (some deadline)
    else []

/-- What the work of a command on a timer records. -/
def working (sys : System m n) (s : Fin m) (t : Fin n) : Command (Option (Fin n)) →
    List (Event m n)
  | .init _ _ _ => []
  | .deinit _ => sys.disarming s t
  | .arm _ _ deadline _ => sys.scheduling s t (deadline.getD .zero)
  | .cancel _ => sys.disarming s t

/-- What a command records. -/
def commanding (sys : System m n) (s : Fin m) (c : Command (Option (Fin n))) : List (Event m n) :=
  match (sys.command s c).1, c.timer with
  | .ok _, some t => .entered s :: sys.working s t c ++ [.left s]
  | .error (.conflict cause), _ => [.entered s, .logged s (.rejected cause), .left s]
  | _, _ => []

namespace Sound

/-- A timer takes the first place exactly if all others are due after it. -/
theorem head?_placed_iff (h : sys.Sound armed) (ht : t ∉ armed s) (deadline : Timespec) :
    (placed (Threaded.isDue sys.timers deadline) t (armed s)).head? = some t ↔
      ∀ u ∈ armed s, deadline < (sys.timer u).deadline := by
  have hascending := (h.holds s).ascending
  cases hl : armed s with
  | nil => simp [placed]
  | cons v l =>
    rw [hl] at hascending ht
    have hvt : v ≠ t := fun heq => ht (heq ▸ List.mem_cons_self)
    by_cases hv : Threaded.isDue sys.timers deadline v = true
    · have hle : (sys.timer v).deadline ≤ deadline := of_decide_eq_true hv
      simp only [placed, List.takeWhile_cons_of_pos hv, List.cons_append, List.head?_cons,
        Option.some.injEq]
      refine ⟨fun heq => absurd heq hvt, fun hall => ?_⟩
      exact absurd hle (Std.not_le.2 (hall v List.mem_cons_self))
    · have hlt : deadline < (sys.timer v).deadline :=
        Std.not_le.1 fun hle => hv (decide_eq_true hle)
      simp only [placed, List.takeWhile_cons_of_neg hv, List.nil_append, List.head?_cons, true_iff]
      intro u hu
      rcases List.mem_cons.1 hu with rfl | hu
      · exact hlt
      · exact Std.lt_of_lt_of_le hlt (List.rel_of_pairwise_cons hascending hu)

/-- When the head is disarmed, the earliest deadline is that of the timer after it. -/
theorem nextDeadline_disarm (h : sys.Sound armed) (hheld : (sys.timer t).heldByOther s = false)
    (hhead : (armed s).head? = some t) :
    (sys.disarm s t).nextDeadline s =
      (sys.armedTimers s)[1]?.map fun u => (sys.timer u).deadline := by
  obtain ⟨l, hl⟩ : ∃ l, armed s = t :: l := List.head?_eq_some_iff.1 hhead
  rw [(h.disarm hheld).nextDeadline_eq, ← h.eq_armedTimers, Function.update_self, hl,
    List.erase_cons_head, List.getElem?_cons_succ, List.head?_eq_getElem?]
  refine congrArg (Option.map · l[0]?) (funext fun u => ?_)
  have hbody := congrArg Timer.deadline (body_disarm sys s t u)
  rw [Timer.deadline_body] at hbody
  rw [hbody]
  split
  · next heq => rw [heq]; rfl
  · rfl

/-- Disarming calls the hardware exactly if the timer is the head of the list. -/
theorem recorded_disarm (h : sys.Sound armed) (hheld : (sys.timer t).heldByOther s = false) :
    Recorded (sys.disarming s t) sys (sys.disarm s t) := by
  rw [disarming, ← h.eq_armedTimers]
  cases harmed : (sys.timer t).armed with
  | false =>
    have hnot : (armed s).head? ≠ some t := fun hhead =>
      h.notMem_of_not_armed harmed s (List.mem_of_head? hhead)
    rw [disarm_of_not_armed sys s t harmed, if_neg hnot]
    exact .refl sys
  | true =>
    have hmem := h.mem_of_not_held harmed hheld
    have hholds := h.holds_disarmed t s
    have hunlink : Recorded [] sys
        ((sys.modifyTimer t fun c => { c with armed := false }).unlink s t).2 :=
      ((Recorded.refl sys).modifyTimer t _).trans (recorded_unlink hholds hmem)
    have hfirst : ((sys.modifyTimer t fun c => { c with armed := false }).unlink s t).1 = true ↔
        (armed s).head? = some t := hholds.remove_fst_of_mem hmem
    rw [disarm_of_armed sys s t harmed]
    dsimp only
    by_cases hhead : (armed s).head? = some t
    · have hnext := h.nextDeadline_disarm hheld hhead
      rw [disarm_of_armed sys s t harmed] at hnext
      dsimp only at hnext
      rw [if_pos (hfirst.2 hhead), nextDeadline_program, ← h.eq_armedTimers] at hnext
      rw [if_pos hhead, if_pos (hfirst.2 hhead), ← hnext]
      exact hunlink.trans (recorded_program _ s)
    · rw [if_neg hhead, if_neg fun hnot => hhead (hfirst.1 hnot)]
      exact hunlink

/-- Scheduling calls the hardware exactly if the deadline comes before all others. -/
theorem recorded_schedule (h : sys.Sound armed) (harmed : (sys.timer t).armed = false)
    {callback : CallbackId} (hbound : (sys.timer t).callback = some callback)
    (priority : PriorityClass) (deadline period : Timespec) :
    Recorded (sys.scheduling s t deadline) sys (sys.schedule s t priority deadline period) := by
  have hlink := h.link (s := s) harmed
    (f := fun c => { c with deadline, period, priority, armed := true, owner := some s })
    rfl rfl ⟨callback, hbound⟩
  have hfirst := (h.link_fst harmed
    (fun c => { c with deadline, period, priority, armed := true, owner := some s }) s).trans
      (h.head?_placed_iff (h.notMem_of_not_armed harmed s) deadline)
  have hlinked : Recorded [.inserted s t deadline] sys ((sys.modifyTimer t fun c =>
      { c with deadline, period, priority, armed := true, owner := some s }).link s t).2 := by
    have hlinked := ((Recorded.refl sys).modifyTimer t fun c =>
      { c with deadline, period, priority, armed := true, owner := some s }).trans
        (recorded_link _ s t)
    rwa [timer_modifyTimer_self] at hlinked
  rw [schedule_eq, scheduling, ← h.eq_armedTimers]
  simp only [List.all_eq_true, decide_eq_true_eq]
  by_cases hleads : ∀ u ∈ armed s, deadline < (sys.timer u).deadline
  · have hhead := (h.head?_placed_iff (h.notMem_of_not_armed harmed s) deadline).2 hleads
    have hnext : ((sys.modifyTimer t fun c =>
        { c with deadline, period, priority, armed := true, owner := some s }).link s
          t).2.nextDeadline s = some deadline := by
      rw [hlink.nextDeadline_eq, Function.update_self, hhead, Option.map_some,
        Timer.apply_eq_of_body_eq Timer.deadline_body (body_link _ s t t), timer_modifyTimer_self]
    rw [if_pos hleads, if_pos (hfirst.2 hleads), ← hnext]
    exact hlinked.trans (recorded_program _ s)
  · rw [if_neg hleads, if_neg fun hnot => hleads (hfirst.1 hnot)]
    exact hlinked

end Sound

/-- What the work of a command records depends on timers and lists only. -/
theorem working_congr (htimers : sys'.timers = sys.timers) (hlists : sys'.lists = sys.lists)
    (s : Fin m) (t : Fin n) (c : Command (Option (Fin n))) :
    sys'.working s t c = sys.working s t c := by
  have harmed := armedTimers_congr htimers hlists s
  have htimer : sys'.timer = sys.timer := funext fun u => congrArg (Table.get · u) htimers
  cases c <;> simp only [working, disarming, scheduling, harmed, htimer]

/-- The work of a command that admits it records what it should. -/
theorem Sound.recorded_carryOut (h : sys.Sound armed) {c : Command (Option (Fin n))}
    (hadmits : c.Admits s (sys.timer t)) :
    Recorded (sys.working s t c) sys (sys.carryOut s t c) := by
  cases c with
  | init timer callback arg => exact (Recorded.refl sys).modifyTimer t _
  | deinit timer => exact (h.recorded_disarm hadmits).modifyTimer t _
  | arm timer priority deadline period =>
    obtain ⟨-, harmed, callback, hbound⟩ := hadmits
    exact h.recorded_schedule harmed hbound priority _ _
  | cancel timer => exact h.recorded_disarm hadmits

/-- The work of a command uses no region. -/
theorem region_carryOut (sys : System m n) (s : Fin m) (t : Fin n)
    (c : Command (Option (Fin n))) : (sys.carryOut s t c).region = sys.region := by
  cases c with
  | init timer callback arg => rfl
  | deinit timer => exact region_disarm sys s t
  | arm timer priority deadline period => exact region_schedule sys s t _ _ _
  | cancel timer => exact region_disarm sys s t

/-- Writing a line inside a region records the entry, the line and the exit. -/
theorem Noted.recorded {line : LogLine} (h : Noted s line a b) :
    Recorded [.entered s, .logged s line, .left s] a b := by
  constructor
  · rw [history, h.trace, history]
    simp
  · intro r
    rw [h.alike.timeout]
    rfl

/-- What a command records. -/
theorem Sound.recorded_command (h : sys.Sound armed) (s : Fin m) (c : Command (Option (Fin n))) :
    Recorded (sys.commanding s c) sys (sys.command s c).2 := by
  rcases sys.command_cases s c with ⟨-, heq⟩ | ⟨-, ⟨hok, -⟩ | ⟨cause, herror, hnoted⟩⟩
  · rw [commanding, heq]
    exact .refl sys
  · rcases command_of_ok hok with ⟨t, ht, hadmits, heq⟩
    have henter : (sys.enter s).2.Sound armed := h.of_eq rfl (lists_enter sys s)
    have hwork := henter.recorded_carryOut hadmits
    rw [working_congr (timers_enter sys s) (lists_enter sys s)] at hwork
    rw [commanding, hok, ht, heq]
    exact recorded_leave hwork (congrFun (region_carryOut _ s t c) s)
  · rw [commanding, herror]
    exact hnoted.recorded

/-- Looking at a system records the entry and the exit. -/
theorem recorded_inspect {α : Type} (sys : System m n) (s : Fin m) (view : System m n → α) :
    Recorded [.entered s, .left s] sys (sys.inspect s view).2 :=
  recorded_leave (.refl _) rfl

/-- Looking at a timer records the entry and the exit, and without a timer nothing. -/
theorem recorded_look {α : Type} (sys : System m n) (s : Fin m) (timer : Option (Fin n))
    (absent : α) (view : Timer m n → α) :
    Recorded (if timer.isNone then [] else [.entered s, .left s]) sys
      (sys.look s timer absent view).2 := by
  cases timer with
  | none => exact .refl sys
  | some t => exact recorded_inspect sys s _

/-- A query records its use of the region, if it enters it. -/
theorem recorded_query (sys : System m n) (s : Fin m) (q : Query (Option (Fin n))) :
    Recorded (if q.lacks then [] else [.entered s, .left s]) sys (sys.query s q).2 := by
  cases q <;> first | exact recorded_look sys s _ _ _ | exact recorded_inspect sys s _

/-! ## The beginning of a pass -/

/-- What rearming a timer with the given cells records: it is put into the list, or it is given up,
which is logged. -/
def renewing (s : Fin m) (t : Fin n) (c : Timer m n) : List (Event m n) :=
  match c.renewal? with
  | some deadline => [.inserted s t deadline]
  | none => if c.isPeriodic then [.logged s (.overflow c.deadline)] else []

/-- What a dispatch records before the pass comes to its first timer: what is due is taken out and
then rearmed, or the dispatch is ignored, which is logged. -/
def beginning (sys : System m n) (s : Fin m) (now : Timespec) : List (Event m n) :=
  if sys.dispatching s then [.entered s, .logged s (.reentered now), .left s]
  else
    .entered s :: (.began s now ::
      ((sys.due s now).map (fun t => .detached s t (sys.timer t).deadline) ++
        (sys.due s now).flatMap fun t => renewing s t (sys.timer t))) ++ [.left s]

/-- Taking out the head is recorded with its deadline. -/
theorem recorded_detachHead (sys : System m n) (s : Fin m) (t : Fin n) :
    Recorded [.detached s t (sys.timer t).deadline] sys (sys.detachHead s t) := by
  have hdeadline : ((sys.setThreaded s ((sys.threaded s).remove t).2).timer t).deadline =
      (sys.timer t).deadline :=
    Timer.apply_eq_of_body_eq Timer.deadline_body (Threaded.body_remove _ _ _)
  rw [detachHead, hdeadline]
  exact .of_trace rfl (timeout_setThreaded sys s _) fun _ => rfl

/-- What is due is recorded as it is taken out, with the deadlines from before. -/
theorem Sound.recorded_detachExpired (h : sys.Sound armed) (s : Fin m) (now : Timespec)
    (limit : Nat) :
    Recorded ((sys.detachExpired s now limit).1.map fun t => .detached s t (sys.timer t).deadline)
      sys (sys.detachExpired s now limit).2 := by
  induction limit generalizing sys armed with
  | zero => exact .refl sys
  | succ limit ih =>
    rw [detachExpired_succ limit h]
    cases hhead : ((armed s).takeWhile (Threaded.isDue sys.timers now)).head? with
    | none => exact .refl sys
    | some t =>
      obtain ⟨l, hl⟩ : ∃ l, armed s = t :: l := by
        rcases hl : armed s with _ | ⟨v, l⟩
        · simp [hl] at hhead
        · by_cases hv : Threaded.isDue sys.timers now v = true
          · rw [hl, List.takeWhile_cons_of_pos hv, List.head?_cons, Option.some.injEq] at hhead
            exact ⟨l, by rw [hhead]⟩
          · rw [hl, List.takeWhile_cons_of_neg hv] at hhead
            cases hhead
      have hrest := ih (h.detachHead hl)
      simp only [(takenOut_detachHead sys s t).deadline] at hrest
      exact (recorded_detachHead sys s t).trans hrest

/-- Rearming a timer records the insertion, or that the timer is given up. -/
theorem recorded_rearm (sys : System m n) (s : Fin m) (t : Fin n) :
    Recorded (renewing s t (sys.timer t)) sys (sys.rearm s t) := by
  unfold renewing
  cases h : (sys.timer t).renewal? with
  | some deadline =>
    have hlink := ((Recorded.refl sys).modifyTimer t fun c =>
      { c with deadline, armed := true }).trans (recorded_link _ s t)
    rw [timer_modifyTimer_self] at hlink
    rw [rearm_of_some h]
    exact hlink
  | none =>
    rw [rearm_of_none h]
    by_cases hperiodic : (sys.timer t).isPeriodic = true
    · simp only [if_pos hperiodic]
      exact .of_trace rfl rfl fun _ => rfl
    · simp only [if_neg hperiodic]
      exact .refl sys

/-- What rearming records does not depend on links. -/
theorem renewing_congr {c c' : Timer m n} (h : c'.body = c.body) (s : Fin m) (t : Fin n) :
    renewing s t c' = renewing s t c :=
  (congrArg (renewing s t) h :)

/-- Rearming timers records one after another what each of them does. -/
theorem recorded_rearm_all {timers : List (Fin n)} (hnd : timers.Nodup) (sys : System m n)
    (s : Fin m) :
    Recorded (timers.flatMap fun t => renewing s t (sys.timer t)) sys
      (timers.foldl (rearm s) sys) := by
  induction timers generalizing sys with
  | nil => exact .refl sys
  | cons t timers ih =>
    rcases List.nodup_cons.1 hnd with ⟨ht, hrest⟩
    -- the others are as they were when the turn comes to them
    have hkept : ∀ u ∈ timers,
        renewing s u ((sys.rearm s t).timer u) = renewing s u (sys.timer u) := by
      intro u hu
      apply renewing_congr
      rw [(renewed_rearm sys s t).body, if_neg (by simpa using fun heq : u = t => ht (heq ▸ hu))]
    have hall := ih hrest (sys.rearm s t)
    rw [List.flatMap_congr hkept] at hall
    exact (recorded_rearm sys s t).trans hall

/-- Chaining timers up records nothing. -/
theorem trace_chain (timers : List (Fin n)) (sys : System m n) :
    (sys.chain timers).trace = sys.trace := by
  rcases exists_chain_eq timers sys with ⟨cells, h⟩
  rw [h]

/-- Collecting records what is taken out, and then what is rearmed or given up. -/
theorem Sound.recorded_collect (h : sys.Sound armed) (s : Fin m) (now : Timespec) :
    Recorded
      ((sys.due s now).map (fun t => .detached s t (sys.timer t).deadline) ++
        (sys.due s now).flatMap fun t => renewing s t (sys.timer t))
      sys (sys.collect s now).2 := by
  have hinit := List.takeWhile_prefix (Threaded.isDue sys.timers now) (l := armed s)
  rcases h.detachExpired (hinit.length_le.trans (h.holds s).length_le) with ⟨hfst, -, htaken⟩
  rw [← h.due_eq] at hfst htaken
  have hout := h.recorded_detachExpired s now n
  rw [hfst] at hout
  have hchain := hout.unchanged (trace_chain (sys.due s now) _)
    (sameOffLists_chain (sys.due s now) _).timeout
  have hrearm := recorded_rearm_all (h.nodup_due s now)
    ((sys.detachExpired s now n).2.chain (sys.due s now)) s
  have hkept : ∀ t ∈ sys.due s now,
      renewing s t (((sys.detachExpired s now n).2.chain (sys.due s now)).timer t) =
        renewing s t (sys.timer t) := by
    intro t ht
    have hcell := (htaken.body_chain t).trans (if_pos ht)
    exact (congrArg (renewing s t) hcell :)
  rw [List.flatMap_congr hkept] at hrearm
  simp only [System.collect, hfst]
  exact hchain.trans hrearm

/-- What a dispatch records before the pass comes to its first timer. -/
theorem Sound.recorded_begin (h : sys.Sound armed) (s : Fin m) (now : Timespec) :
    Recorded (sys.beginning s now) sys (sys.begin s now).2 := by
  cases hs : sys.dispatching s with
  | true =>
    rw [beginning, if_pos hs]
    exact (noted_begin hs).recorded
  | false =>
    have hlists : (sys.collecting s now).lists = sys.lists :=
      (lists_modifyScheduler _ s (by intro _; rfl)).trans (lists_enter sys s)
    have hcollecting : (sys.collecting s now).Sound armed := h.of_eq rfl hlists
    have hdue : (sys.collecting s now).due s now = sys.due s now := by
      rw [hcollecting.due_eq, h.due_eq]
      rfl
    have hbegan : Recorded [.began s now] (sys.enter s).2 (sys.collecting s now) :=
      .of_trace rfl (timeout_modifyScheduler _ s (by intro _; rfl)) fun _ => rfl
    have hcollect := hcollecting.recorded_collect s now
    have hregion : ((sys.collecting s now).collect s now).2.region = (sys.enter s).2.region :=
      (hcollecting.collect s now).2.frame.region.trans
        (region_modifyScheduler _ s (by intro _; rfl))
    rw [hdue] at hcollect
    rw [beginning, if_neg (by simp [hs]), begin_of_not_dispatching hs]
    exact recorded_leave (hbegan.trans hcollect) (congrFun hregion s)

/-! ## The other steps of a pass -/

/-- Coming to a timer records it between the entry and the exit. -/
theorem recorded_visit (sys : System m n) (s : Fin m) (t : Fin n) :
    Recorded [.entered s, .visited s t, .left s] sys (sys.visit s t).2 := by
  rw [visit_snd]
  exact recorded_leave (((Recorded.refl _).modifyTimer t _).emit fun _ => rfl) rfl

/-- What the end of a pass records: the hardware is pointed at the earliest deadline, and the number
of armed timers is logged. -/
def finishing (sys : System m n) (s : Fin m) (now : Timespec) : List (Event m n) :=
  .entered s :: (retiming s (sys.nextDeadline s) ++
    [.logged s (.finished now (sys.armedTimers s).length), .finished s]) ++ [.left s]

/-- The end of a pass records the calls on the hardware and the line about it. -/
theorem Sound.recorded_finish (h : sys.Sound armed) (s : Fin m) (now : Timespec) :
    Recorded (sys.finishing s now) sys (sys.finish s now) := by
  have hunmarked : Recorded [] (sys.enter s).2
      ((sys.enter s).2.modifyScheduler s fun c => { c with dispatching := false }) :=
    .of_eq rfl (timeout_modifyScheduler _ s (by intro _; rfl))
  have hsound : ((sys.enter s).2.modifyScheduler s fun c =>
      { c with dispatching := false }).Sound armed :=
    h.of_eq rfl ((lists_modifyScheduler _ s (by intro _; rfl)).trans (lists_enter sys s))
  have hnext : ((sys.enter s).2.modifyScheduler s fun c =>
      { c with dispatching := false }).nextDeadline s = sys.nextDeadline s := by
    rw [hsound.nextDeadline_eq, h.nextDeadline_eq]
    rfl
  have hprogram := hunmarked.trans (recorded_program _ s)
  rw [hnext] at hprogram
  have hlen : ((sys.programmed s).scheduler s).list.len = (sys.armedTimers s).length := by
    rw [← h.eq_armedTimers, ← (h.holds s).len_eq]
    exact congrArg TimerList.len (congrFun (lists_programmed sys s) s)
  have hregion : (sys.programmed s).region = (sys.enter s).2.region :=
    (region_program _ s).trans (region_modifyScheduler _ s (by intro _; rfl))
  rw [finish_eq, hlen]
  have hlogged := (hprogram.emit (e := .logged s (.finished now (sys.armedTimers s).length))
    fun _ => rfl).emit (e := .finished s) fun _ => rfl
  rw [List.nil_append, List.append_assoc] at hlogged
  exact recorded_leave hlogged (congrFun hregion s)

end System

namespace Moment

/-- What a step records. -/
def record (x : Moment m n) (a : Action m n) : List (Event m n) :=
  match x.cursor, a with
  | some ⟨s, now, none⟩, _ => x.system.finishing s now
  | some ⟨s, _, some t⟩, _ =>
    [.entered s, .visited s t, .left s] ++ ((x.system.timer t).callback.map fun callback =>
      .called s t callback (x.system.timer t).arg).toList
  | none, .request s (.command c) =>
    x.system.commanding s c ++ [.answered s (.command c) (.ofOutcome (x.system.command s c).1)]
  | none, .request s (.query q) =>
    (if q.lacks then [] else [.entered s, .left s]) ++
      [.answered s (.query q) (.answered (x.system.query s q).1)]
  | none, .request s (.dispatch now) => x.system.beginning s now
  | none, .ret => []

/-- What a row of steps records. -/
def records (x : Moment m n) : List (Action m n) → List (Event m n)
  | [] => []
  | a :: actions => x.record a ++ records (x.step a) actions

variable {x : Moment m n} {c : Cursor m n} {s : Fin m} {t : Fin n}

/-- A command records its work and then its answer. -/
theorem record_command (h : x.cursor = none) (s : Fin m) (c : Command (Option (Fin n))) :
    x.record (.request s (.command c)) =
      x.system.commanding s c ++ [.answered s (.command c) (.ofOutcome (x.system.command s c).1)] := by
  simp only [record, h]

/-- A query records the use of the region, unless it misses its timer, and then its answer. -/
theorem record_query (h : x.cursor = none) (s : Fin m) (q : Query (Option (Fin n))) :
    x.record (.request s (.query q)) =
      (if q.lacks then [] else [.entered s, .left s]) ++
        [.answered s (.query q) (.answered (x.system.query s q).1)] := by
  simp only [record, h]

/-- A dispatch records the beginning of its pass, or that it is ignored. -/
theorem record_dispatch (h : x.cursor = none) (s : Fin m) (now : Timespec) :
    x.record (.request s (.dispatch now)) = x.system.beginning s now := by
  simp only [record, h]

/-- Returning from a callback records nothing. -/
theorem record_ret (h : x.cursor = none) : x.record .ret = [] := by
  simp only [record, h]

/-- A pass that has no timer to come to records its end. -/
theorem record_finish (h : x.cursor = some c) (hnext : c.next = none) (a : Action m n) :
    x.record a = x.system.finishing c.scheduler c.now := by
  rcases c with ⟨s, now, _ | t⟩
  · simp only [record, h]
  · cases hnext

/-- A pass that comes to a timer records that, and the call if the timer is bound. -/
theorem record_visit (h : x.cursor = some c) (hnext : c.next = some t) (a : Action m n) :
    x.record a =
      [.entered c.scheduler, .visited c.scheduler t, .left c.scheduler] ++
        ((x.system.timer t).callback.map fun callback =>
          .called c.scheduler t callback (x.system.timer t).arg).toList := by
  rcases c with ⟨s, now, next⟩
  obtain rfl : next = some t := hnext
  simp only [record, h]

/-- Every step records what is said, and calls the hardware timeouts accordingly. -/
theorem recorded_step (hx : x.system.Steady) (a : Action m n) :
    System.Recorded (x.record a) x.system (x.step a).system := by
  rcases hx with ⟨armed, hsound, -⟩
  rcases hcursor : x.cursor with _ | c
  · rw [step_of_no_cursor hcursor]
    cases a with
    | request s what =>
      cases what with
      | command c =>
        rw [record_command hcursor]
        exact (hsound.recorded_command s c).emit fun _ => rfl
      | query q =>
        rw [record_query hcursor]
        exact (System.recorded_query x.system s q).emit fun _ => rfl
      | dispatch now =>
        rw [record_dispatch hcursor, system_act_dispatch]
        exact hsound.recorded_begin s now
    | ret =>
      have hsystem : (x.act .ret).system = x.system := by
        simp only [act]
        split <;> rfl
      rw [record_ret hcursor, hsystem]
      exact .refl x.system
  · rw [step_of_cursor hcursor]
    rcases hnext : c.next with _ | t
    · rw [record_finish hcursor hnext, advance_finish hnext]
      exact hsound.recorded_finish c.scheduler c.now
    · rw [record_visit hcursor hnext, system_advance hnext]
      have hvisit := System.recorded_visit x.system c.scheduler t
      cases (x.system.timer t).callback with
      | some callback => exact hvisit.emit fun _ => rfl
      | none => exact hvisit

/-- A run records what its steps record. -/
theorem recorded_run (hx : x.system.Steady) (actions : List (Action m n)) :
    System.Recorded (x.records actions) x.system (x.run actions).system := by
  induction actions generalizing x with
  | nil => exact .refl _
  | cons a actions ih => exact (recorded_step hx a).trans (ih (steady_step hx a))

end Moment
end SoftTimer
