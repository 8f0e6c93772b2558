import SoftTimer.Proofs.History
import SoftTimer.Proofs.Regions

/-!
# Owners and refusals

A timer belongs to the scheduler that armed it last, until it is bound anew or released.  Commands
of other schedulers are refused.  This file says what the course of events tells about owners, for
which reasons commands are refused, and that a refused command changes nothing.

Main definitions:

- `ownerAfter`: the owner of a timer after a course of events.
- `Foreign`: according to a course of events, another scheduler armed the timer last.
- `Command.Barred`: what rules a command out.

Main results:

- Theorem `Moment.Reachable.owner_eq`: the owner of a timer can be read off the course.
- Theorem `System.command_eq_ok_iff`: a command is carried out unless something rules it out.
- Theorem `Machine.Reachable.command_exact`: commands are refused exactly when something rules them
  out, and then nothing changes.
-/

namespace SoftTimer

variable {m n : Nat}

/-! ## Owners -/

/-- What a command that is carried out makes of the owner of its timer. -/
def Command.reown {ρ : Type} (s : Fin m) (owner : Option (Fin m)) : Command ρ → Option (Fin m)
  | .arm _ _ _ _ => some s
  | .init _ _ _ => none
  | .deinit _ => none
  | .cancel _ => owner

/-- What an event makes of the owner of a timer. -/
def Event.reown (t : Fin n) (owner : Option (Fin m)) (e : Event m n) : Option (Fin m) :=
  e.revise (fun s c owner => c.reown s owner) t owner

/-- The owner of a timer after some events, if it had none before. -/
def ownerAfter (t : Fin n) (es : List (Event m n)) : Option (Fin m) :=
  es.foldl (Event.reown t) none

/-- Whether an event tells that a timer was bound, released or armed. -/
def Event.assigns (t : Fin n) : Event m n → Bool
  | .answered _ (.command (.cancel _)) .accepted => false
  | .answered _ (.command c) .accepted => c.timer == some t
  | _ => false

/-- According to a course of events, the latest of the successful commands that bound, released or
armed the timer armed it, and through another scheduler than `s`. -/
def Foreign (s : Fin m) (t : Fin n) (es : List (Event m n)) : Prop :=
  ∃ before r priority deadline period after,
    es = before ++ .answered r (.command (.arm (some t) priority deadline period)) .accepted ::
      after ∧ r ≠ s ∧ ∀ e ∈ after, e.assigns t = false

section Events

variable {s r : Fin m} {t : Fin n} {e : Event m n} {es : List (Event m n)}
  {owner : Option (Fin m)}

/-- What an event makes of a timer determines what it makes of the owner. -/
theorem Event.owner_effect (e : Event m n) (c : Timer m n) :
    (e.effect t c).owner = e.reown t c.owner :=
  apply_effect (fun _ command _ => by cases command <;> rfl) e c

/-- An event that assigns no owner leaves the owner alone. -/
theorem Event.reown_of_not_assigns (h : e.assigns t = false) (owner : Option (Fin m)) :
    e.reown t owner = owner := by
  unfold reown revise
  split
  · next s c =>
    cases c with
    | cancel timer => exact ite_self owner
    | _ => exact if_neg (by simpa [assigns] using h)
  · rfl

/-- An event that gives a timer to a scheduler tells that it was armed through that scheduler. -/
theorem Event.eq_arm_of_reown (h : e.assigns t = true) (howner : e.reown t owner = some r) :
    ∃ priority deadline period,
      e = .answered r (.command (.arm (some t) priority deadline period)) .accepted := by
  unfold assigns at h
  split at h
  · cases h
  · next s c hcancel =>
    have htimer : c.timer = some t := beq_iff_eq.1 h
    rw [reown, revise_of_timer_eq htimer] at howner
    cases c with
    | arm timer priority deadline period =>
      obtain rfl : timer = some t := htimer
      obtain rfl : s = r := Option.some.inj howner
      exact ⟨priority, deadline, period, rfl⟩
    | init timer callback arg => cases howner
    | deinit timer => cases howner
    | cancel timer => exact (hcancel timer rfl).elim
  · cases h

/-- A timer is left with an owner exactly if that one armed it, and no command assigned it since. -/
theorem ownerAfter_eq_some_iff :
    ownerAfter t es = some r ↔ ∃ before priority deadline period after,
      es = before ++ .answered r (.command (.arm (some t) priority deadline period)) .accepted ::
        after ∧ ∀ e ∈ after, e.assigns t = false := by
  constructor
  · intro h
    -- the last event that assigns the timer decides, so the events are taken off from the end
    induction es using List.reverseRecOn with
    | nil => cases h
    | append_singleton es e ih =>
      rw [ownerAfter, List.foldl_concat] at h
      cases he : e.assigns t with
      | true =>
        rcases Event.eq_arm_of_reown he h with ⟨priority, deadline, period, rfl⟩
        exact ⟨es, priority, deadline, period, [], rfl, by simp⟩
      | false =>
        rw [Event.reown_of_not_assigns he] at h
        rcases ih h with ⟨before, priority, deadline, period, after, rfl, hafter⟩
        refine ⟨before, priority, deadline, period, after ++ [e], by simp, ?_⟩
        intro e' he'
        rcases List.mem_append.1 he' with he' | he'
        · exact hafter e' he'
        · rwa [List.mem_singleton.1 he']
  · rintro ⟨before, priority, deadline, period, after, rfl, hafter⟩
    rw [ownerAfter, List.foldl_append, List.foldl_cons]
    rw [foldl_eq_self (f := Event.reown t) fun e he => Event.reown_of_not_assigns (hafter e he)]
    exact Event.revise_of_timer_eq rfl _

/-- A timer is foreign exactly if its owner after the events is another scheduler. -/
theorem foreign_iff : Foreign s t es ↔ ∃ r, ownerAfter t es = some r ∧ r ≠ s := by
  constructor
  · rintro ⟨before, r, priority, deadline, period, after, hes, hr, hafter⟩
    exact ⟨r, ownerAfter_eq_some_iff.2 ⟨before, priority, deadline, period, after, hes, hafter⟩, hr⟩
  · rintro ⟨r, howner, hr⟩
    rcases ownerAfter_eq_some_iff.1 howner with
      ⟨before, priority, deadline, period, after, hes, hafter⟩
    exact ⟨before, r, priority, deadline, period, after, hes, hr, hafter⟩

end Events

namespace Moment

variable {x : Moment m n} {s : Fin m} {t : Fin n}

/-- The owner of a timer can be read off the course. -/
theorem Reachable.owner_eq (h : x.Reachable) (t : Fin n) :
    (x.system.timer t).owner = ownerAfter t x.system.course := by
  refine h.change_induction (φ := fun x =>
    (x.system.timer t).owner = ownerAfter t x.system.course) ?_ ?_
  · intro kinds
    exact congrArg Timer.owner (Table.get_fill _ t)
  · intro y z es hcourse hchange hy
    rw [hcourse, ownerAfter, List.foldl_append, ← ownerAfter, ← hy]
    exact hchange.observe_eq (fun _ _ hlasting => (congrArg Timer.owner hlasting :))
      Event.owner_effect

/-- Another scheduler holds a timer exactly if it armed the timer last. -/
theorem Reachable.heldByOther_iff (h : x.Reachable) (s : Fin m) (t : Fin n) :
    (x.system.timer t).heldByOther s = true ↔ Foreign s t x.system.course := by
  rw [Timer.heldByOther_eq_true_iff, foreign_iff, h.owner_eq t]

end Moment

/-! ## Refusals -/

/-- What rules a command out: a missing argument, a timer that is foreign, and for some commands a
timer that is armed or has no callback. -/
def Command.Barred (foreign : Fin n → Prop) (sys : System m n) : Command (Option (Fin n)) → Prop
  | .init timer callback _ =>
    timer = none ∨ callback = none ∨
      ∃ t, timer = some t ∧ (foreign t ∨ (sys.timer t).armed = true)
  | .deinit timer => timer = none ∨ ∃ t, timer = some t ∧ foreign t
  | .arm timer _ deadline _ =>
    timer = none ∨ deadline = none ∨
      ∃ t, timer = some t ∧
        (foreign t ∨ (sys.timer t).armed = true ∨ (sys.timer t).callback = none)
  | .cancel timer => timer = none ∨ ∃ t, timer = some t ∧ foreign t

/-- A command that names a foreign timer is ruled out. -/
theorem Command.barred_of_foreign {foreign : Fin n → Prop} {sys : System m n}
    {c : Command (Option (Fin n))} {t : Fin n} (hc : c.timer = some t) (h : foreign t) :
    c.Barred foreign sys := by
  cases c with
  | init timer callback arg => exact .inr (.inr ⟨t, hc, .inl h⟩)
  | deinit timer => exact .inr ⟨t, hc, h⟩
  | arm timer priority deadline period => exact .inr (.inr ⟨t, hc, .inl h⟩)
  | cancel timer => exact .inr ⟨t, hc, h⟩

namespace System

variable {sys : System m n} {s : Fin m}

/-- A command is carried out unless something rules it out. -/
theorem command_eq_ok_iff (sys : System m n) (s : Fin m) (c : Command (Option (Fin n))) :
    (sys.command s c).1 = .ok () ↔
      ¬ c.Barred (fun t => (sys.timer t).heldByOther s = true) sys := by
  have htimer : ∀ t, (sys.enter s).2.timer t = sys.timer t := fun _ => rfl
  have hbound : ∀ t, (∃ callback, (sys.timer t).callback = some callback) ↔
      ¬ (sys.timer t).callback = none := fun _ => Option.ne_none_iff_exists'.symm
  cases c with
  | init timer callback arg =>
    cases timer <;> cases callback <;>
      simp [command, init, Command.Barred, perform_fst_eq_ok_iff, tryInit_eq_ok_iff, htimer]
  | deinit timer =>
    cases timer <;>
      simp [command, deinit, Command.Barred, perform_fst_eq_ok_iff, tryDeinit_eq_ok_iff, htimer]
  | arm timer priority deadline period =>
    cases timer <;> cases deadline <;>
      simp [command, arm, Command.Barred, perform_fst_eq_ok_iff, tryArm_eq_ok_iff, htimer, hbound]
  | cancel timer =>
    cases timer <;>
      simp [command, cancel, Command.Barred, perform_fst_eq_ok_iff, tryCancel_eq_ok_iff, htimer]

/-- A command that is carried out logs nothing. -/
theorem unlogged_of_ok {c : Command (Option (Fin n))} (h : (sys.command s c).1 = .ok ()) :
    ∃ es, (sys.command s c).2.trace = es ++ sys.trace ∧ ∀ r line, .logged r line ∉ es := by
  rcases sys.command_cases s c with ⟨-, heq⟩ | ⟨-, ⟨-, hcrossed⟩ | ⟨cause, herror, -⟩⟩
  · rw [heq] at h
    cases h
  · exact hcrossed.unlogged
  · rw [herror] at h
    cases h

/-- A command that is refused does nothing if an argument is missing, and logs why otherwise. -/
theorem noted_of_error {c : Command (Option (Fin n))} {cause : Refusal}
    (h : (sys.command s c).1 = .error cause) :
    if c.lacks then cause = .absent ∧ (sys.command s c).2 = sys
    else ∃ conflict, cause = .conflict conflict ∧
      Noted s (.rejected conflict) sys (sys.command s c).2 := by
  rcases sys.command_cases s c with ⟨hlacks, heq⟩ | ⟨hlacks, ⟨hok, -⟩ | ⟨conflict, herror, hnoted⟩⟩
  · rw [heq] at h ⊢
    rw [if_pos hlacks]
    exact ⟨(Except.error.inj h).symm, rfl⟩
  · rw [hok] at h
    cases h
  · rw [if_neg (Bool.eq_false_iff.1 hlacks)]
    exact ⟨conflict, Except.error.inj (h.symm.trans herror), hnoted⟩

end System

/-- A command is answered as accepted exactly if it was carried out. -/
theorem Reply.ofOutcome_eq_accepted_iff {outcome : Except Refusal Unit} :
    (Reply.ofOutcome outcome : Reply n) = .accepted ↔ outcome = .ok () := by
  rcases outcome with cause | ⟨⟩ <;> simp [Reply.ofOutcome]

/-- A command is answered with a refusal exactly if it was refused, and for that cause. -/
theorem Reply.ofOutcome_eq_refused_iff {outcome : Except Refusal Unit} {cause : Refusal} :
    (Reply.ofOutcome outcome : Reply n) = .refused cause ↔ outcome = .error cause := by
  rcases outcome with cause | ⟨⟩ <;> simp [Reply.ofOutcome]

namespace Machine

variable {x : Machine m n}

/-- At a reachable machine the course decides which timers are foreign. -/
theorem Reachable.command_eq_ok_iff (hx : x.Reachable) (s : Fin m)
    (c : Command (Option (Fin n))) :
    (x.system.command s c).1 = .ok () ↔
      ¬ c.Barred (fun t => Foreign s t x.system.course) x.system := by
  have hforeign : (fun t => (x.system.timer t).heldByOther s = true) =
      fun t => Foreign s t x.system.course :=
    funext fun t => propext ((Moment.Reachable.ofMachine hx).heldByOther_iff s t)
  rw [System.command_eq_ok_iff, hforeign]

/-- A command is refused exactly if something rules it out, and accepted otherwise.  Whether a timer
is foreign is decided by the whole course of events until now.  An accepted command logs nothing.  A
refused one changes no timer, no list, no hardware timeout and no mark, and nothing about callbacks.
If an argument was missing, the region is not used and nothing is logged; otherwise the region is
entered and left once, and one warning is logged. -/
theorem Reachable.command_exact (hx : x.Reachable) (s : Fin m) (c : Command (Option (Fin n))) :
    let y := x.step (.request s (.command c))
    ((∃ cause, y.1 = .refused cause) ↔
      c.Barred (fun t => Foreign s t x.system.course) x.system) ∧
    (y.1 = .accepted ∨ ∃ cause, y.1 = .refused cause) ∧
    (y.1 = .accepted → ∃ es, y.2.system.trace = es ++ x.system.trace ∧
      ∀ r line, .logged r line ∉ es) ∧
    ∀ cause, y.1 = .refused cause → y.2.frames = x.frames ∧ x.system.Alike y.2.system ∧
      if c.lacks then
        cause = .absent ∧ y.2.system = x.system.emit (.answered s (.command c) y.1)
      else ∃ conflict system, cause = .conflict conflict ∧
        (LogLine.rejected conflict).level = .warn ∧ x.system.Noted s (.rejected conflict) system ∧
        y.2.system = system.emit (.answered s (.command c) y.1) := by
  intro y
  have hreply : y.1 = .ofOutcome (x.system.command s c).1 := rfl
  have hsystem : y.2.system = (x.system.command s c).2.emit (.answered s (.command c) y.1) := rfl
  have hok := hx.command_eq_ok_iff s c
  refine ⟨?_, ?_, ?_, ?_⟩
  · rw [← not_iff_not, ← hok, hreply]
    rcases (x.system.command s c).1 with cause | ⟨⟩ <;> simp [Reply.ofOutcome]
  · rw [hreply]
    rcases (x.system.command s c).1 with cause | ⟨⟩ <;> simp [Reply.ofOutcome]
  · intro haccepted
    rw [hreply, Reply.ofOutcome_eq_accepted_iff] at haccepted
    rcases System.unlogged_of_ok haccepted with ⟨es, hes, hunlogged⟩
    refine ⟨.answered s (.command c) y.1 :: es, ?_, by simpa using hunlogged⟩
    rw [hsystem, System.trace_emit, hes, List.cons_append]
  · intro cause hrefused
    rw [hreply, Reply.ofOutcome_eq_refused_iff] at hrefused
    have hnoted := System.noted_of_error hrefused
    rw [hsystem]
    cases hlacks : c.lacks with
    | true =>
      rw [hlacks, if_pos rfl] at hnoted
      rw [hnoted.2]
      exact ⟨rfl, System.alike_emit _ _, hnoted.1, rfl⟩
    | false =>
      rw [hlacks, if_neg Bool.false_ne_true] at hnoted
      rcases hnoted with ⟨conflict, hcause, hnoted⟩
      exact ⟨rfl, hnoted.alike.trans (System.alike_emit _ _), conflict, _, hcause, rfl, hnoted, rfl⟩

/-- A timer armed on one scheduler is foreign to the other, which must not cancel it. -/
theorem command_twoArmed :
    let x : Machine 2 2 := .twoArmed 0 0 1
    let y := x.step (.request 1 (.command (.cancel (some 0))))
    x.Reachable ∧ y.1 = .refused (.conflict .foreign) ∧ Foreign 1 0 x.system.course ∧
      x.system.Alike y.2.system := by
  intro x y
  have hx : (Machine.twoArmed (0 : Fin 2) (0 : Fin 2) 1).Reachable := ⟨_, _, rfl⟩
  have hreply : ((Machine.twoArmed (0 : Fin 2) (0 : Fin 2) 1).step
      (.request 1 (.command (.cancel (some 0))))).1 = .refused (.conflict .foreign) := by decide
  rcases hx.command_exact 1 (.cancel (some 0)) with ⟨hiff, -, -, heffect⟩
  rcases hiff.1 ⟨_, hreply⟩ with hnone | ⟨t, ht, hforeign⟩
  · cases hnone
  · obtain rfl : 0 = t := Option.some.inj ht
    exact ⟨hx, hreply, hforeign, (heffect _ hreply).2.1⟩

end Machine
end SoftTimer
