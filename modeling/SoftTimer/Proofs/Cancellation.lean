import SoftTimer.Proofs.Expiry

/-!
# Cancellation

Once a timer has been cancelled or released, nothing but a client can arm it again: passes put back
only those timers that they found armed.  As long as no client arms it, no pass takes it out, and a
pass that begins after the cancellation cannot come to it.

Main definitions:

- `Event.arms`: an event tells that a timer was armed by a client.
- `Moment.Disarmed`: since a timer was disarmed, it is armed only if a client armed it.

Main results:

- Theorem `Moment.Reachable.armed_of_called`: a pass that began after a cancellation calls the timer
  only after it was armed again.
-/

namespace SoftTimer

variable {m n : Nat}

/-- Whether an event tells that a client armed a timer. -/
def Event.arms (t : Fin n) : Event m n → Bool
  | .answered _ (.command (.arm timer _ _ _)) .accepted => timer == some t
  | _ => false

/-- An event tells that a timer was armed exactly if it answers a command to arm it that was carried
out. -/
theorem Event.arms_iff {t : Fin n} {e : Event m n} :
    e.arms t = true ↔ ∃ q priority deadline period,
      e = .answered q (.command (.arm (some t) priority deadline period)) .accepted := by
  constructor
  · intro h
    unfold arms at h
    split at h
    · next q timer priority deadline period =>
      obtain rfl : timer = some t := beq_iff_eq.1 h
      exact ⟨q, priority, deadline, period, rfl⟩
    · cases h
  · rintro ⟨q, priority, deadline, period, rfl⟩
    exact beq_self_eq_true _

/-- A command that leaves a timer armed found it so, or armed it. -/
theorem Event.armed_effect {t : Fin n} {e : Event m n} {c : Timer m n}
    (h : (e.effect t c).armed = true) : c.armed = true ∨ e.arms t = true := by
  unfold effect revise at h
  split at h
  · next s command =>
    split at h
    · next htimer =>
      cases command with
      | arm timer priority deadline period => exact .inr (beq_iff_eq.2 htimer)
      | _ => cases h
    · exact .inl h
  · exact .inl h

namespace Moment

variable {x y : Moment m n} {t : Fin n} {es more : List (Event m n)}

/-- In a steady system the timers on the list are armed. -/
theorem armed_of_mem_armedTimers (hx : x.system.Steady) {s : Fin m}
    (h : t ∈ x.system.armedTimers s) : (x.system.timer t).armed = true := by
  rcases hx with ⟨armed, hsound, -⟩
  rw [← hsound.eq_armedTimers] at h
  exact hsound.armed_of_mem h

/-- A timer that is armed after a step was so before, or a client armed it. -/
theorem Change.armed_or_arms (h : Change x y es) (hx : x.system.Steady)
    (harmed : (y.system.timer t).armed = true) :
    (x.system.timer t).armed = true ∨ ∃ e ∈ es, e.arms t = true := by
  cases h with
  | other _ events _ _ _ hbody =>
    rw [← Timer.armed_body, hbody] at harmed
    rcases events with rfl | ⟨s, c, reply, rfl⟩
    · exact .inl harmed
    · rcases Event.armed_effect harmed with hbefore | harms
      · exact .inl hbefore
      · exact .inr ⟨_, List.mem_singleton_self _, harms⟩
  | @began s now due armed _ _ _ _ hbegun hexpired =>
    by_cases ht : t ∈ due
    · exact .inl (armed_of_mem_armedTimers hx (hexpired t ht).1)
    · rw [Timer.apply_eq_of_body_eq Timer.armed_body (hbegun.body_of_notMem t ht)] at harmed
      exact .inl harmed
  | @visited c u _ _ _ _ htimer =>
    rw [htimer] at harmed
    by_cases htu : t = u
    · subst htu
      exact .inl (by simpa using harmed)
    · exact .inl (by simpa [htu] using harmed)
  | finished _ _ _ _ htimers =>
    rw [System.timer, htimers] at harmed
    exact .inl harmed

/-- Since a timer was disarmed the events `es` happened.  It is armed only if a client armed it
since, and whenever it was taken out a client had armed it before. -/
structure Disarmed (t : Fin n) (x : Moment m n) (es : List (Event m n)) : Prop where
  armed : (x.system.timer t).armed = true → ∃ e ∈ es, e.arms t = true
  detached : ∀ i r d, es[i]? = some (.detached r t d) → ∃ e ∈ es.take i, e.arms t = true

/-- A step keeps what is known of a disarmed timer: to be armed, a client must have armed it
since. -/
theorem Disarmed.change (h : Disarmed t x es) (hx : x.system.Steady) (hchange : Change x y more) :
    Disarmed t y (es ++ more) := by
  constructor
  · intro harmed
    rcases hchange.armed_or_arms hx harmed with hbefore | ⟨e, he, harms⟩
    · rcases h.armed hbefore with ⟨e, he, harms⟩
      exact ⟨e, List.mem_append_left _ he, harms⟩
    · exact ⟨e, List.mem_append_right _ he, harms⟩
  · intro i r d hi
    by_cases hlt : i < es.length
    · rw [List.getElem?_append_left hlt] at hi
      rw [List.take_append_of_le_length hlt.le]
      exact h.detached i r d hi
    · rw [List.getElem?_append_right (Nat.le_of_not_lt hlt)] at hi
      rcases List.append_of_mem (List.mem_of_getElem? hi) with ⟨earlier, later, rfl⟩
      rcases hchange.of_detached with ⟨-, -, -, -, -, harmed, -, -⟩
      rcases h.armed (armed_of_mem_armedTimers hx harmed) with ⟨e, he, harms⟩
      refine ⟨e, ?_, harms⟩
      rw [List.take_append, List.take_of_length_le (Nat.le_of_not_lt hlt)]
      exact List.mem_append_left _ he

/-- Since a timer was cancelled or released, it is armed and taken out only after a client armed it
again. -/
theorem Reachable.exists_disarmed (h : x.Reachable) {s : Fin m} {c : Command (Option (Fin n))}
    {before : List (Event m n)} (hc : c = .cancel (some t) ∨ c = .deinit (some t))
    (hcourse : x.system.course = before ++ .answered s (.command c) .accepted :: es) :
    Disarmed t x es := by
  rcases h.exists_step hcourse with
    ⟨y, a, actions, earlier, later, rest, hy, rfl, rfl, hstep, -, hchange⟩
  rcases hchange.of_answered with ⟨rfl, rfl, hbody⟩
  have hsteady : (y.step a).system.Steady := steady_step hy.steady a
  have hdisarmed : ((y.step a).system.timer t).armed = false := by
    rw [← Timer.armed_body, hbody t]
    rcases hc with rfl | rfl <;>
      simp [Event.effect, Event.revise, Command.timer, Command.effect, Timer.reset]
  have hstart : Disarmed t (y.step a) [] := ⟨fun harmed => by simp [hdisarmed] at harmed, by simp⟩
  apply run_induction_of_course hsteady _ hstart
  · exact fun _ _ _ _ hsteady _ _ hchange h => h.change hsteady hchange
  · rw [hcourse, hstep]
    simp

/-- After a timer was cancelled or released, a pass that began later calls it only if in the
meantime, before the call, a client armed it again. -/
theorem Reachable.armed_of_called (h : x.Reachable) {s r : Fin m} {c : Command (Option (Fin n))}
    {now : Timespec} {callback : CallbackId} {arg : CallbackArg}
    {before between during rest : List (Event m n)}
    (hc : c = .cancel (some t) ∨ c = .deinit (some t))
    (hcourse : x.system.course = before ++ .answered s (.command c) .accepted ::
      (between ++ .began r now :: (during ++ .called r t callback arg :: rest))) :
    ∃ q priority deadline period,
      .answered q (.command (.arm (some t) priority deadline period)) .accepted ∈
        between ++ during := by
  obtain ⟨middle, hmiddle⟩ : ∃ middle, middle = between ++ .began r now :: during := ⟨_, rfl⟩
  have hcut : between ++ .began r now :: (during ++ .called r t callback arg :: rest) =
      middle ++ .called r t callback arg :: rest := by simp [hmiddle]
  rw [hcut] at hcourse
  have hdisarmed := h.exists_disarmed hc hcourse
  rw [List.append_cons] at hcourse
  generalize before ++ [.answered s (.command c) .accepted] = first at hcourse
  have hplace : ∀ i, x.system.course[first.length + i]? =
      (middle ++ .called r t callback arg :: rest)[i]? := by
    intro i
    rw [hcourse, getElem?_length_add]
  have hbegan : x.system.course[first.length + between.length]? = some (.began r now) := by
    rw [hplace, hmiddle]
    simp
  have hcalled : x.system.course[first.length + middle.length]? =
      some (.called r t callback arg) := by
    rw [hplace]
    simp
  have hlt : between.length < middle.length := by simp [hmiddle]
  rcases h.exists_detached_of_called hcalled hbegan (by omega) with ⟨p, q, d, hbp, hpi, hp⟩
  obtain ⟨i, rfl⟩ : ∃ i, p = first.length + i := ⟨p - first.length, by omega⟩
  rw [hplace] at hp
  rcases hdisarmed.detached i q d hp with ⟨e, he, harms⟩
  rw [List.take_append_of_le_length (by omega)] at he
  have hmem : e ∈ between ++ .began r now :: during := hmiddle ▸ List.mem_of_mem_take he
  rcases Event.arms_iff.1 harms with ⟨q, priority, deadline, period, rfl⟩
  exact ⟨q, priority, deadline, period, by simpa using hmem⟩

/-- A periodic timer is called, cancelled and armed anew in its own callback, and called again in a
later pass. -/
def cancelling (s : Fin m) (t : Fin n) : List (Action m n) :=
  [.request s (.command (.init (some t) (some 0) .none)),
    .request s (.command (.arm (some t) .precise (some (.new 1 0)) (some (.new 1 0)))),
    .request s (.dispatch (.new 1 0)), .ret, .request s (.command (.cancel (some t))),
    .request s (.command (.arm (some t) .precise (some (.new 2 0)) none)), .ret, .ret,
    .request s (.dispatch (.new 2 0)), .ret]

/-- The second call comes after the timer was armed anew. -/
theorem armed_cancelling :
    let x : Moment 1 1 := (Moment.ofMachine (.initial fun _ => .counting)).run (cancelling 0 0)
    ∃ before between during,
      x.system.course = before ++ .answered 0 (.command (.cancel (some 0))) .accepted ::
        (between ++ .began 0 (.new 2 0) :: (during ++ .called 0 0 0 .none :: [])) ∧
      ∃ q priority deadline period,
        .answered q (.command (.arm (some 0) priority deadline period)) .accepted ∈
          between ++ during := by
  intro x
  have hcourse : ((Moment.ofMachine (.initial fun _ => .counting)).run (cancelling (0 : Fin 1)
      (0 : Fin 1))).system.course =
      [.answered 0 (.command (.init (some 0) (some 0) .none)) .accepted,
        .answered 0 (.command (.arm (some 0) .precise (some (.new 1 0)) (some (.new 1 0)))) .accepted,
        .began 0 (.new 1 0), .detached 0 0 (.new 1 0), .visited 0 0, .called 0 0 0 .none] ++
      .answered 0 (.command (.cancel (some 0))) .accepted ::
      ([.answered 0 (.command (.arm (some 0) .precise (some (.new 2 0)) none)) .accepted,
        .finished 0] ++ .began 0 (.new 2 0) ::
      ([.detached 0 0 (.new 2 0), .visited 0 0] ++ .called 0 0 0 .none :: [])) := by decide
  exact ⟨_, _, _, hcourse, Reachable.armed_of_called ⟨_, _, rfl⟩ (.inl rfl) hcourse⟩

end Moment
end SoftTimer
