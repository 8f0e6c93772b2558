import SoftTimer.Proofs.Arrivals
import SoftTimer.Proofs.Isolation

/-!
# Canceling takes arming back

A timer that was armed can be canceled at once, and then all is as it was before, wherever in the
list the timer stood and however often the hardware was programmed.  What stays behind is the
schedule written into the timer, its class, and that the scheduler now owns it.

Main definitions:

- `System.Restored`: the list of a scheduler, its hardware timeout and all timers but one are as
  they were.

Main results:

- Theorem `System.Sound.links_eq`: which timers are armed determines the links of all timers.
- Theorems `System.Sound.command_arm` and `System.Sound.command_cancel`: what arming and canceling
  make of the lists.
- Theorem `Machine.Reachable.cancel_undoes_arm`: canceling takes arming back.
-/

namespace SoftTimer

variable {m n : Nat}

/-- A timer is determined by its links and its other cells. -/
theorem Timer.eq_of_body_eq {t u : Timer m n} (hbody : u.body = t.body) (hprev : u.prev = t.prev)
    (hnext : u.next = t.next) : u = t := by
  cases t
  cases u
  simp_all [Timer.body]

/-- What was put into a list is taken out again. -/
theorem erase_placed {α : Type} [DecidableEq α] {p : α → Bool} {t : α} {l : List α} (ht : t ∉ l) :
    (placed p t l).erase t = l := by
  have htake : t ∉ l.takeWhile p := fun hmem => ht (List.takeWhile_subset p hmem)
  rw [placed, List.erase_append_right _ htake, List.erase_cons_head, List.takeWhile_append_dropWhile]

namespace System

variable {sys a b : System m n} {armed : Fin m → List (Fin n)} {s : Fin m} {t : Fin n}
  {priority : PriorityClass} {deadline period : Option Timespec}

/-! ## What arming and canceling make of the lists -/

namespace Sound

/-- The links of a timer are determined by the lists: those of a timer off all lists are blank. -/
theorem links_eq (ha : a.Sound armed) (hb : b.Sound armed) (u : Fin n) :
    (b.timer u).prev = (a.timer u).prev ∧ (b.timer u).next = (a.timer u).next := by
  by_cases hmem : ∃ r, u ∈ armed r
  · rcases hmem with ⟨r, hmem⟩
    exact (ha.holds r).links_eq (hb.holds r) hmem
  · have hblank : ∀ {c : System m n}, c.Sound armed →
        (c.timer u).prev = none ∧ (c.timer u).next = none := by
      intro c hc
      refine (hc.settled u).unlinked (Bool.eq_false_iff.2 fun hmark => ?_)
      rcases (hc.settled u).owned hmark with ⟨r, hr⟩
      exact hmem ⟨r, (hc.mem_iff r u).2 ⟨hmark, hr⟩⟩
    rw [(hblank ha).1, (hblank ha).2]
    exact hblank hb

/-- A timer whose cells other than links are as before is as before, if the lists are. -/
theorem timer_eq (ha : a.Sound armed) (hb : b.Sound armed) {u : Fin n}
    (hbody : (b.timer u).body = (a.timer u).body) : b.timer u = a.timer u :=
  Timer.eq_of_body_eq hbody (ha.links_eq hb u).1 (ha.links_eq hb u).2

/-- Arming puts a timer that was not armed into its place. -/
theorem command_arm (h : sys.Sound armed)
    (hok : (sys.command s (.arm (some t) priority deadline period)).1 = .ok ()) :
    (sys.timer t).armed = false ∧ (sys.command s (.arm (some t) priority deadline period)).2.Sound
      (Function.update armed s
        (placed (Threaded.isDue sys.timers (deadline.getD .zero)) t (armed s))) := by
  rcases command_of_ok hok with ⟨u, hu, ⟨-, harmed, callback, hbound⟩, hsystem⟩
  obtain rfl : t = u := Option.some.inj hu
  have henter : (sys.enter s).2.Sound armed := h.of_eq rfl (lists_enter sys s)
  rw [hsystem]
  exact ⟨harmed, (henter.schedule harmed hbound priority _ _).of_eq (timers_leave _ _ _)
    (lists_leave _ _ _)⟩

/-- Canceling takes a timer off the list. -/
theorem command_cancel (h : sys.Sound armed)
    (hok : (sys.command s (.cancel (some t))).1 = .ok ()) :
    (sys.command s (.cancel (some t))).2.Sound
      (Function.update armed s ((armed s).erase t)) := by
  rcases command_of_ok hok with ⟨u, hu, hheld, hsystem⟩
  obtain rfl : t = u := Option.some.inj hu
  have henter : (sys.enter s).2.Sound armed := h.of_eq rfl (lists_enter sys s)
  rw [hsystem]
  exact (henter.disarm hheld).of_eq (timers_leave _ _ _) (lists_leave _ _ _)

end Sound

/-- A scheduler may cancel the timers that it owns. -/
theorem command_cancel_of_owner (h : (sys.timer t).owner = some s) :
    (sys.command s (.cancel (some t))).1 = .ok () := by
  have hheld : (sys.timer t).heldByOther s = false := by simp [Timer.heldByOther, h]
  exact perform_fst_eq_ok_iff.2 ⟨_, tryCancel_eq_ok_iff.2 ⟨hheld, rfl⟩⟩

/-! ## Canceling what was armed -/

section Canceled

variable (hok : (sys.command s (.arm (some t) priority deadline period)).1 = .ok ())
  (hab : (sys.command s (.arm (some t) priority deadline period)).2.Alike a)

include hok hab

/-- Once a scheduler armed a timer it may cancel it. -/
theorem command_cancel_of_arm : (a.command s (.cancel (some t))).1 = .ok () := by
  have hself : (a.timer t).body =
      (Command.arm (some t) priority deadline period).effect s (sys.timer t).body := by
    rw [timer, hab.timers]
    exact body_command_of_ok hok rfl
  exact command_cancel_of_owner (congrArg Timer.owner hself)

/-- The lists are as before: the timer is taken out of the place it was put into. -/
theorem Sound.cancel_of_arm (h : sys.Sound armed) :
    (a.command s (.cancel (some t))).2.Sound armed := by
  rcases h.command_arm hok with ⟨hdisarmed, hplaced⟩
  have herased := (hplaced.of_eq hab.timers hab.lists).command_cancel
    (command_cancel_of_arm hok hab)
  rwa [Function.update_idem, Function.update_self,
    erase_placed (h.notMem_of_not_armed hdisarmed s), Function.update_eq_self] at herased

/-- Only the schedule, the class and the owner of the timer are left behind. -/
theorem body_cancel_of_arm (u : Fin n) :
    ((a.command s (.cancel (some t))).2.timer u).body =
      if u = t then
        { (sys.timer t).body with
          deadline := deadline.getD .zero, period := period.getD .zero, priority
          owner := some s }
      else (sys.timer u).body := by
  have htimer : ∀ u, a.timer u =
      (sys.command s (.arm (some t) priority deadline period)).2.timer u :=
    fun u => congrArg (Table.get · u) hab.timers
  split
  · next heq =>
    rcases command_of_ok hok with ⟨v, hv, ⟨-, hdisarmed, -⟩, -⟩
    obtain rfl : t = v := Option.some.inj hv
    rw [heq, body_command_of_ok (command_cancel_of_arm hok hab) rfl, htimer,
      body_command_of_ok hok rfl]
    simp only [Command.effect, Timer.armed_body, hdisarmed]
  · next hne =>
    have hname : some t ≠ some u := fun heq => hne (Option.some.inj heq).symm
    rw [body_command_of_ne (c := .cancel (some t)) hname, htimer,
      body_command_of_ne (c := .arm (some t) priority deadline period) hname]

end Canceled

/-! ## Systems that differ in one timer -/

/-- From `a` to `b` nothing changed that concerns the list of `s`, neither its ends and its length
nor the links of any timer, nor what is pending on its hardware timeout, nor what clients hear of
it.  The timers other than `t` and the other schedulers are as they were. -/
structure Restored (s : Fin m) (t : Fin n) (a b : System m n) : Prop where
  armedTimers : b.armedTimers s = a.armedTimers s
  list : (b.scheduler s).list = (a.scheduler s).list
  links : ∀ u, (b.timer u).prev = (a.timer u).prev ∧ (b.timer u).next = (a.timer u).next
  pending : (b.timeout s).pending = (a.timeout s).pending
  nextDeadline : (b.query s .nextDeadline).1 = (a.query s .nextDeadline).1
  armedCount : (b.query s .armedCount).1 = (a.query s .armedCount).1
  timer_of_ne : ∀ u, u ≠ t → b.timer u = a.timer u
  scheduler_of_ne : ∀ r, r ≠ s → b.scheduler r = a.scheduler r

/-- With the same timers on the lists it is enough to look at the cells other than links, if `t`,
whose deadline may differ, is on none of them. -/
theorem Steady.restored (ha : a.Steady) (hb : b.Steady) (hsound : a.Sound armed)
    (hsound' : b.Sound armed) (ht : t ∉ armed s) (hida : a.dispatching s = false)
    (hidb : b.dispatching s = false)
    (hbody : ∀ u, u ≠ t → (b.timer u).body = (a.timer u).body)
    (hspared : ∀ r, r ≠ s → Spared r a b) : Restored s t a b := by
  have hcells : ∀ u, u ≠ t → b.timer u = a.timer u :=
    fun u hu => hsound.timer_eq hsound' (hbody u hu)
  have hlist : b.armedTimers s = a.armedTimers s := by
    rw [← hsound.eq_armedTimers, ← hsound'.eq_armedTimers]
  have hqueue : SameQueue s a b := by
    refine ha.sameQueue hb hlist fun u hu => congrArg Timer.deadline (hcells u fun heq => ?_)
    rw [← hsound.eq_armedTimers] at hu
    exact ht (heq ▸ hu)
  exact ⟨hlist, hqueue.list, hsound.links_eq hsound', hqueue.pending hida hidb,
    hqueue.nextDeadline, hqueue.armedCount, hcells,
    fun r hr => (hspared r hr).scheduler_eq hsound hsound'⟩

end System

namespace Machine

variable {x : Machine m n} {s : Fin m} {t : Fin n} {priority : PriorityClass}
  {deadline period : Option Timespec}

/-- A step that makes a command does no more to the system than the command, but for the record. -/
theorem alike_step_command (x : Machine m n) (s : Fin m) (c : Command (Option (Fin n))) :
    (x.system.command s c).2.Alike (x.step (.request s (.command c))).2.system :=
  System.alike_emit _ _

/-- If a scheduler that is not dispatching arms a timer, whatever the schedule and the class, it can
cancel it at once.  Then all is as it was before both, but for the schedule, the class and the owner
of that timer. -/
theorem Reachable.cancel_undoes_arm (hx : x.Reachable) (hidle : x.system.dispatching s = false)
    (harm : (x.step (.request s (.command (.arm (some t) priority deadline period)))).1 =
      .accepted) :
    let y := (x.step (.request s (.command (.arm (some t) priority deadline period)))).2
    let z := y.step (.request s (.command (.cancel (some t))))
    z.1 = .accepted ∧ z.2.frames = x.frames ∧ x.system.Restored s t z.2.system ∧
      z.2.system.timer t =
        { x.system.timer t with
          deadline := deadline.getD .zero, period := period.getD .zero, priority
          owner := some s } := by
  intro y z
  have hok : (x.system.command s (.arm (some t) priority deadline period)).1 = .ok () :=
    Reply.ofOutcome_eq_accepted_iff.1 harm
  have hab : (x.system.command s (.arm (some t) priority deadline period)).2.Alike y.system :=
    x.alike_step_command s _
  have hbc : (y.system.command s (.cancel (some t))).2.Alike z.2.system :=
    y.alike_step_command s _
  rcases hx.steady with ⟨armed, hsound, -⟩
  have hsound' : z.2.system.Sound armed :=
    (hsound.cancel_of_arm hok hab).of_eq hbc.timers hbc.lists
  have hidle' : z.2.system.dispatching s = false := by
    rw [hbc.dispatching, System.dispatching_command, hab.dispatching, System.dispatching_command,
      hidle]
  have hbody : ∀ u, (z.2.system.timer u).body = _ := fun u =>
    (congrArg (fun cells => (cells.get u).body) hbc.timers).trans
      (System.body_cancel_of_arm hok hab u)
  have hspared : ∀ r, r ≠ s → System.Spared r x.system z.2.system := by
    intro r hr
    have harms : System.Spared r x.system y.system := spared_step (a := .request s _) hx.steady hr
    have hcancels : System.Spared r y.system z.2.system :=
      spared_step (a := .request s _) (hx.step _).steady hr
    exact harms.trans hcancels
  have ht : t ∉ armed s := hsound.notMem_of_not_armed (hsound.command_arm hok).1 s
  refine ⟨?_, rfl, ?_, ?_⟩
  · exact Reply.ofOutcome_eq_accepted_iff.2 (System.command_cancel_of_arm hok hab)
  · refine hx.steady.restored ((hx.step _).step _).steady hsound hsound' ht hidle hidle' ?_ hspared
    intro u hu
    rw [hbody, if_neg hu]
  · refine Timer.eq_of_body_eq ?_ (hsound.links_eq hsound' t).1 (hsound.links_eq hsound' t).2
    rw [hbody, if_pos rfl]
    rfl

/-- The canceled timer had become the head, so that the hardware was programmed both times. -/
theorem cancel_undoes_arm_twoArmed :
    let x : Machine 1 3 := (Machine.twoArmed 0 0 1).run
      [.request 0 (.command (.init (some 2) (some 2) .none))]
    let y := (x.step (.request 0 (.command (.arm (some 2) .lowPower (some (.new 0 1)) none)))).2
    let z := y.step (.request 0 (.command (.cancel (some 2))))
    x.Reachable ∧ (x.system.timeout 0).pending = some (.new 1 0) ∧
      (y.system.timeout 0).pending = some (.new 0 1) ∧ z.1 = .accepted ∧
      x.system.Restored 0 2 z.2.system := by
  intro x y z
  have hx : x.Reachable := Reachable.run ⟨_, _, rfl⟩ _
  have hidle : x.system.dispatching 0 = false := by decide
  have harm : (x.step (.request 0 (.command
      (.arm (some 2) .lowPower (some (.new 0 1)) none)))).1 = .accepted := by decide
  have hbefore : (x.system.timeout 0).pending = some (.new 1 0) := by decide
  have hbetween : (y.system.timeout 0).pending = some (.new 0 1) := by decide
  rcases hx.cancel_undoes_arm hidle harm with ⟨haccepted, -, hrestored, -⟩
  exact ⟨hx, hbefore, hbetween, haccepted, hrestored⟩

end Machine
end SoftTimer
