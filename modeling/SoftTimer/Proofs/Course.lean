import SoftTimer.Proofs.Command

/-!
# The course of events

Most of a trace tells how work is done: regions entered and left, hardware timeouts called, log
lines, links set.  What remains are the commands, what passes do to timers, and faults.  This file
keeps these events, in the order of time, and says which of them commands and queries add: none
of their own, so in sound systems they commit no fault.

Main results:

- Theorem `System.course_leave`: leaving the region that was entered adds nothing to the course.
- Theorem `System.Sound.course_command`: the work of a command adds nothing to the course.
- Theorems `System.alike_query` and `System.course_query`: queries change nothing.
-/

namespace SoftTimer

variable {m n : Nat}

/-- Whether an event tells what was commanded, what a pass did, or a fault. -/
def Event.isNotable : Event m n → Bool
  | .answered _ (.command _) _ => true
  | .began _ _ => true
  | .detached _ _ _ => true
  | .visited _ _ => true
  | .called _ _ _ _ => true
  | .finished _ => true
  | .fault _ _ => true
  | _ => false

namespace System

variable {sys sys' : System m n} {armed : Fin m → List (Fin n)} {s : Fin m} {t : Fin n}
  {e : Event m n}

/-- The notable events in the order of time. -/
def course (sys : System m n) : List (Event m n) :=
  (sys.trace.filter Event.isNotable).reverse

/-- A notable event that is recorded is added to the course. -/
theorem course_of_notable (h : sys'.trace = e :: sys.trace) (he : e.isNotable = true) :
    sys'.course = sys.course ++ [e] := by
  rw [course, h, List.filter_cons_of_pos he, List.reverse_cons, course]

/-- An event that is not notable does not show in the course. -/
theorem course_of_not_notable (h : sys'.trace = e :: sys.trace) (he : e.isNotable = false) :
    sys'.course = sys.course := by
  rw [course, h, List.filter_cons_of_neg (Bool.eq_false_iff.1 he), course]

/-- Emitting a notable event adds it to the course. -/
theorem course_emit (sys : System m n) (he : e.isNotable = true) :
    (sys.emit e).course = sys.course ++ [e] :=
  course_of_notable rfl he

/-- The course tells of the notable events of the trace. -/
theorem mem_course : e ∈ sys.course ↔ e ∈ sys.trace ∧ e.isNotable = true := by
  rw [course, List.mem_reverse, List.mem_filter]

section Steps

variable (sys : System m n) (s : Fin m) (t : Fin n) (f : Timer m n → Timer m n)
  (g : Scheduler n → Scheduler n) (x : Threaded m n) (line : LogLine) (call : TimeoutEvent)

@[simp] theorem course_modifyTimer : (sys.modifyTimer t f).course = sys.course := rfl
@[simp] theorem course_modifyScheduler : (sys.modifyScheduler s g).course = sys.course := rfl
@[simp] theorem course_setThreaded : (sys.setThreaded s x).course = sys.course := rfl

@[simp]
theorem course_log : (sys.log s line).course = sys.course :=
  course_of_not_notable rfl rfl

@[simp]
theorem course_enter : (sys.enter s).2.course = sys.course :=
  course_of_not_notable (trace_enter sys s) rfl

/-- Leaving the region that was entered adds nothing to the course. -/
theorem course_leave {after : System m n} (h : after.region = (sys.enter s).2.region) :
    (after.leave s (sys.enter s).1).course = after.course :=
  course_of_not_notable (trace_leave_of_region_eq sys s (congrFun h s)) rfl

@[simp]
theorem course_callTimeout : (sys.callTimeout s call).course = sys.course :=
  course_of_not_notable (trace_callTimeout sys s call) rfl

@[simp]
theorem course_program : (sys.program s).course = sys.course := by
  rw [program_eq]
  split <;> simp

@[simp]
theorem course_link : (sys.link s t).2.course = sys.course :=
  course_of_not_notable (trace_link sys s t) rfl

end Steps

/-! ## Commands -/

/-- Unlinking a timer that is on the list breaks no assertion. -/
theorem course_unlink {l : List (Fin n)} (h : (sys.threaded s).Holds l) (ht : t ∈ l) :
    (sys.unlink s t).2.course = sys.course := by
  rw [unlink_snd, course_setThreaded, expectLinked_of_holds h ht]

/-- Disarming a timer that no other scheduler holds breaks no assertion. -/
theorem Sound.course_disarm (h : sys.Sound armed) (hheld : (sys.timer t).heldByOther s = false) :
    (sys.disarm s t).course = sys.course := by
  cases harmed : (sys.timer t).armed with
  | false => rw [disarm_of_not_armed sys s t harmed]
  | true =>
    have hunlink := course_unlink (h.holds_disarmed t s) (h.mem_of_not_held harmed hheld)
    rw [disarm_of_armed sys s t harmed]
    dsimp only
    split
    · rw [course_program, hunlink, course_modifyTimer]
    · rw [hunlink, course_modifyTimer]

/-- Scheduling a timer is no notable event. -/
theorem course_schedule (sys : System m n) (s : Fin m) (t : Fin n) (priority : PriorityClass)
    (deadline period : Timespec) :
    (sys.schedule s t priority deadline period).course = sys.course := by
  rw [schedule_eq]
  dsimp only
  split <;> simp

/-- A piece of work that leaves its region and the course alone adds nothing to the course, and
neither does its refusal. -/
theorem course_perform {work : System m n → Except Conflict (System m n)}
    (hwork : ∀ b, work (sys.enter s).2 = .ok b →
      b.region = (sys.enter s).2.region ∧ b.course = (sys.enter s).2.course) :
    (sys.perform s work).2.course = sys.course := by
  cases hresult : work (sys.enter s).2 with
  | ok b =>
    rcases hwork b hresult with ⟨hregion, hcourse⟩
    rw [perform_of_ok hresult]
    exact (course_leave sys s hregion).trans (hcourse.trans (course_enter sys s))
  | error cause =>
    have hregion : ((sys.enter s).2.log s (.rejected cause)).region = (sys.enter s).2.region := rfl
    rw [perform_of_error hresult]
    exact (course_leave sys s hregion).trans ((course_log _ s _).trans (course_enter sys s))

/-- The work of a command adds nothing to the course; in particular it commits no fault. -/
theorem Sound.course_command (h : sys.Sound armed) (s : Fin m) (c : Command (Option (Fin n))) :
    (sys.command s c).2.course = sys.course := by
  have henter : (sys.enter s).2.Sound armed :=
    h.of_eq (timers_enter sys s) (lists_enter sys s)
  cases c with
  | init timer callback arg =>
    cases timer <;> cases callback <;> try rfl
    apply course_perform
    intro b hok
    rcases tryInit_eq_ok_iff.1 hok with ⟨-, -, rfl⟩
    exact ⟨rfl, rfl⟩
  | deinit timer =>
    cases timer <;> try rfl
    apply course_perform
    intro b hok
    rcases tryDeinit_eq_ok_iff.1 hok with ⟨hheld, rfl⟩
    exact ⟨region_disarm _ _ _, henter.course_disarm hheld⟩
  | arm timer priority deadline period =>
    cases timer <;> cases deadline <;> try rfl
    apply course_perform
    intro b hok
    rcases tryArm_eq_ok_iff.1 hok with ⟨-, -, -, rfl⟩
    exact ⟨region_schedule _ _ _ _ _ _, course_schedule _ _ _ _ _ _⟩
  | cancel timer =>
    cases timer <;> try rfl
    apply course_perform
    intro b hok
    rcases tryCancel_eq_ok_iff.1 hok with ⟨hheld, rfl⟩
    exact ⟨region_disarm _ _ _, henter.course_disarm hheld⟩

/-! ## Queries -/

section Queries

variable (sys : System m n) (s : Fin m)

/-- Looking at a system changes regions and what was recorded, and nothing else. -/
theorem alike_inspect {α : Type} (view : System m n → α) : sys.Alike (sys.inspect s view).2 :=
  (alike_enter sys s).trans (alike_leave _ _ _)

/-- Looking at a system is no notable event. -/
theorem course_inspect {α : Type} (view : System m n → α) :
    (sys.inspect s view).2.course = sys.course :=
  (course_leave sys s rfl).trans (course_enter sys s)

/-- Looking at a timer changes regions and what was recorded, and nothing else. -/
theorem alike_look {α : Type} (timer : Option (Fin n)) (absent : α) (view : Timer m n → α) :
    sys.Alike (sys.look s timer absent view).2 := by
  cases timer with
  | none => exact .refl sys
  | some t => exact alike_inspect sys s _

/-- Looking at a timer is no notable event. -/
theorem course_look {α : Type} (timer : Option (Fin n)) (absent : α) (view : Timer m n → α) :
    (sys.look s timer absent view).2.course = sys.course := by
  cases timer with
  | none => rfl
  | some t => exact course_inspect sys s _

/-- A query changes nothing but regions and records. -/
theorem alike_query (q : Query (Option (Fin n))) : sys.Alike (sys.query s q).2 := by
  cases q <;> first | exact alike_look sys s _ _ _ | exact alike_inspect sys s _

/-- The work of a query adds nothing to the course. -/
theorem course_query (q : Query (Option (Fin n))) : (sys.query s q).2.course = sys.course := by
  cases q <;> first | exact course_look sys s _ _ _ | exact course_inspect sys s _

end Queries

end System
end SoftTimer
