import SoftTimer.Proofs.Integers
import SoftTimer.Proofs.Record

/-!
# The schedule of periodic timers

A periodic timer is rearmed from its deadline, not from the time at which it is served.  So after `k`
expiries it is armed `k` periods after its first deadline, however late, often or out of order the
dispatches were, until that time cannot be represented; then it is given up, with one line in the
log.

Main definitions:

- `Timer.OnSchedule`: a timer after `k` expiries, given its first deadline and its period.
- `Moment.expiring`: the timers that a step takes out.
- `Moment.abandoning`, `Moment.abandoned`: the timers that a step and a row of steps give up.
- `Moment.Uncommanded`: no command that concerns a timer was carried out.

Main results:

- Theorem `Timer.OnSchedule.expired`: one more expiry.
- Theorem `Moment.filter_record`: what a step records of timers that are taken out and given up.
- Theorem `Moment.bare_step`: a timer that no command concerns is left alone, or it expires.
- Theorems `Moment.Scheduled.run` and `Moment.Scheduled.filter_abandoned`: whole runs.
- Theorem `Moment.Reachable.on_schedule`: periodic timers do not drift, and stop at the end of time.
-/

namespace SoftTimer

variable {m n : Nat}

/-! ## Timers after some expiries -/

namespace Timer

variable {c d : Timer m n} {first period : Timespec} {k : Nat}

/-- A timer without its links. -/
def bare (c : Timer m n) : Timer m n :=
  { c with prev := none, next := none, firedNext := none }

/-- A timer is bare without its list links already. -/
theorem bare_body (c : Timer m n) : c.body.bare = c.bare :=
  rfl

/-- Expiring does not depend on links. -/
theorem bare_expired (c : Timer m n) : c.expired.bare = c.bare.expired := by
  have hbare : c.bare.renewal? = c.renewal? := rfl
  cases hrenewal : c.renewal? with
  | none => rw [expired_of_none hrenewal, expired_of_none (hbare.trans hrenewal), bare, bare]
  | some deadline =>
    rw [expired_of_some hrenewal, expired_of_some (hbare.trans hrenewal), bare, bare]

/-- An expiry changes only the deadline and the mark of a timer. -/
theorem apply_expired {β : Sort*} {φ : Timer m n → β}
    (hφ : ∀ (c : Timer m n) deadline armed, φ { c with deadline, armed } = φ c)
    (c : Timer m n) : φ c.expired = φ c := by
  cases hrenewal : c.renewal? with
  | none =>
    rw [expired_of_none hrenewal]
    exact hφ c c.deadline false
  | some deadline =>
    rw [expired_of_some hrenewal]
    exact hφ c deadline true

/-- A timer that was armed for `first`, as it is after `k` expiries: armed `k` periods later, as long
as that time can be represented, and disarmed at the first expiry after which it cannot. -/
structure OnSchedule (first period : Timespec) (k : Nat) (c : Timer m n) : Prop where
  period_eq : c.period = period
  armed : first.nanos + k * period.nanos ≤ Timespec.maxNanos →
    c.armed = true ∧ c.deadline.nanos = first.nanos + k * period.nanos
  stopped : Timespec.maxNanos < first.nanos + k * period.nanos →
    c.armed = false ∧ 0 < k ∧ c.deadline.nanos = first.nanos + (k - 1) * period.nanos

/-- A timer is periodic exactly if its period is not zero. -/
theorem isPeriodic_iff : c.isPeriodic = true ↔ 0 < c.period.nanos := by
  have hzero : c.period.isZero = true ↔ c.period.nanos = 0 := by
    rw [Timespec.isZero_iff, ← Timespec.nanos_inj, Timespec.nanos_zero]
  rw [isPeriodic, Nat.pos_iff_ne_zero, ne_eq, ← hzero]
  cases c.period.isZero <;> simp

/-- A periodic timer has no next deadline exactly when that time cannot be represented. -/
theorem renewal?_eq_none_iff (hpos : 0 < c.period.nanos) :
    c.renewal? = none ↔ Timespec.maxNanos < c.deadline.nanos + c.period.nanos := by
  constructor
  · intro h
    by_contra hle
    obtain ⟨next, hnext⟩ := Timespec.exists_nanos_eq (k := c.deadline.nanos + c.period.nanos)
      (Nat.lt_of_le_sub_one (by decide) (Nat.le_of_not_lt hle))
    rw [renewal?_eq_some_iff.2 ⟨hpos, hnext⟩] at h
    cases h
  · intro hlt
    rw [Option.eq_none_iff_forall_ne_some]
    intro next hnext
    have hle := next.nanos_le_maxNanos
    rw [(renewal?_eq_some_iff.1 hnext).2] at hle
    omega

namespace OnSchedule

/-- A timer that is armed is on schedule before it ever expired. -/
theorem zero (harmed : c.armed = true) : OnSchedule c.deadline c.period 0 c := by
  have hle := c.deadline.nanos_le_maxNanos
  refine ⟨rfl, fun _ => ⟨harmed, by omega⟩, fun hlt => ?_⟩
  omega

/-- An armed timer is at a place of its schedule that can be represented. -/
theorem le_of_armed (h : OnSchedule first period k c) (harmed : c.armed = true) :
    first.nanos + k * period.nanos ≤ Timespec.maxNanos := by
  by_contra hlt
  have hstopped := (h.stopped (Nat.lt_of_not_le hlt)).1
  rw [harmed] at hstopped
  cases hstopped

/-- An armed timer goes on to the next place of its schedule when it expires. -/
theorem expired (h : OnSchedule first period k c) (hpos : 0 < period.nanos)
    (harmed : c.armed = true) : OnSchedule first period (k + 1) c.expired := by
  have hdeadline := (h.armed (h.le_of_armed harmed)).2
  have hsucc : (k + 1) * period.nanos = k * period.nanos + period.nanos := Nat.succ_mul _ _
  have hperiod : c.period.nanos = period.nanos := congrArg Timespec.nanos h.period_eq
  cases hrenewal : c.renewal? with
  | some next =>
    have hnext := (renewal?_eq_some_iff.1 hrenewal).2
    have hle := next.nanos_le_maxNanos
    rw [expired_of_some hrenewal]
    refine ⟨h.period_eq, fun _ => ⟨rfl, ?_⟩, fun hlt => ?_⟩
    · show next.nanos = _
      omega
    · omega
  | none =>
    have hlate := (renewal?_eq_none_iff (by rwa [hperiod])).1 hrenewal
    rw [expired_of_none hrenewal]
    refine ⟨h.period_eq, fun hle => ?_, fun _ => ⟨rfl, Nat.succ_pos k, ?_⟩⟩
    · omega
    · exact hdeadline

/-- The place in the schedule tells whether a timer is armed. -/
theorem armed_iff (h : OnSchedule first period k c) :
    c.armed = true ↔ first.nanos + k * period.nanos ≤ Timespec.maxNanos :=
  ⟨h.le_of_armed, fun hle => (h.armed hle).1⟩

/-- The schedule does not depend on links. -/
theorem of_bare (h : OnSchedule first period k c) (hbare : d.bare = c.bare) :
    OnSchedule first period k d := by
  have hperiod : d.period = c.period := (congrArg Timer.period hbare :)
  have harmed : d.armed = c.armed := (congrArg Timer.armed hbare :)
  have hdeadline : d.deadline = c.deadline := (congrArg Timer.deadline hbare :)
  constructor
  · rw [hperiod, h.period_eq]
  · rw [harmed, hdeadline]
    exact h.armed
  · rw [harmed, hdeadline]
    exact h.stopped

end OnSchedule

/-- The deadline after which a periodic timer has none that can be represented. -/
def overflow? (c : Timer m n) : Option Timespec :=
  if c.isPeriodic && c.renewal?.isNone then some c.deadline else none

/-- A periodic timer stops exactly if one more period leads beyond the greatest time. -/
theorem overflow?_eq (hpos : 0 < c.period.nanos) :
    c.overflow? =
      if Timespec.maxNanos < c.deadline.nanos + c.period.nanos then some c.deadline else none := by
  rw [overflow?, isPeriodic_iff.2 hpos, Bool.true_and]
  refine if_congr ?_ rfl rfl
  rw [Option.isNone_iff_eq_none, renewal?_eq_none_iff hpos]

end Timer

/-! ## Timers that are taken out and given up -/

/-- Whether an event tells of a timer that is taken out, or given up. -/
def Event.collects : Event m n → Bool
  | .detached _ _ _ => true
  | .logged _ (.overflow _) => true
  | _ => false

/-- The line by which a scheduler gives up a timer, a warning. -/
def Event.overflow? : Event m n → Option (Fin m × Timespec)
  | .logged s (.overflow deadline) => some (s, deadline)
  | _ => none

/-- The timer that a command concerns which was carried out. -/
def Event.commanded? : Event m n → Option (Fin n)
  | .answered _ (.command c) .accepted => c.timer
  | _ => none

/-- Of a row of events, what only expiries and abandonments tell is told by these. -/
theorem filterMap_of_collects {β : Type} {f : Event m n → Option β}
    (hf : ∀ e, e.collects = false → f e = none) (es : List (Event m n)) :
    es.filterMap f = (es.filter Event.collects).filterMap f := by
  rw [List.filterMap_filter]
  refine List.filterMap_congr fun e _ => ?_
  cases he : e.collects with
  | true => rfl
  | false => exact hf e he

/-- The lines by which timers are given up. -/
def overflows (es : List (Event m n)) : List (Fin m × Timespec) :=
  es.filterMap Event.overflow?

namespace System

variable {sys : System m n} {s : Fin m} {now : Timespec}

/-- Calls on the hardware tell of no expiry. -/
theorem filter_retiming (s : Fin m) (deadline : Option Timespec) :
    (retiming s deadline : List (Event m n)).filter Event.collects = [] := by
  cases deadline <;> rfl

/-- The work of a command tells of no expiry. -/
theorem filter_working (sys : System m n) (s : Fin m) (t : Fin n) (c : Command (Option (Fin n))) :
    (sys.working s t c).filter Event.collects = [] := by
  cases c with
  | init timer callback arg => rfl
  | deinit timer =>
    rw [working, disarming]
    split
    · exact filter_retiming s _
    · rfl
  | arm timer priority deadline period =>
    rw [working, scheduling, List.filter_cons_of_neg (by simp [Event.collects])]
    split
    · exact filter_retiming s _
    · rfl
  | cancel timer =>
    rw [working, disarming]
    split
    · exact filter_retiming s _
    · rfl

/-- A command tells of no expiry. -/
theorem filter_commanding (sys : System m n) (s : Fin m) (c : Command (Option (Fin n))) :
    (sys.commanding s c).filter Event.collects = [] := by
  unfold commanding
  split
  · next t _ _ =>
    rw [List.filter_append, List.filter_cons_of_neg (by simp [Event.collects]), filter_working]
    rfl
  · rfl
  · rfl

/-- Rearming tells that the timer is given up, if it is. -/
theorem filter_renewing (s : Fin m) (t : Fin n) (c : Timer m n) :
    (renewing s t c).filter Event.collects =
      (c.overflow?.map fun deadline => .logged s (.overflow deadline)).toList := by
  unfold renewing Timer.overflow?
  cases c.renewal? with
  | some deadline => simp [Event.collects]
  | none => cases c.isPeriodic <;> simp [Event.collects]

/-- A pass that begins tells of the timers that it takes out, and then of those that it gives up. -/
theorem filter_beginning (h : sys.dispatching s = false) :
    (sys.beginning s now).filter Event.collects =
      (sys.due s now).map (fun t => .detached s t (sys.timer t).deadline) ++
        (sys.due s now).filterMap fun t =>
          (sys.timer t).overflow?.map fun deadline => .logged s (.overflow deadline) := by
  have hout : ((sys.due s now).map fun t => Event.detached s t (sys.timer t).deadline).filter
      Event.collects = (sys.due s now).map fun t => .detached s t (sys.timer t).deadline := by
    rw [List.filter_eq_self]
    intro e he
    rcases List.mem_map.1 he with ⟨t, -, rfl⟩
    rfl
  have hback : ((sys.due s now).flatMap fun t => renewing s t (sys.timer t)).filter
      Event.collects = (sys.due s now).filterMap fun t =>
        (sys.timer t).overflow?.map fun deadline => .logged s (.overflow deadline) := by
    rw [List.filter_flatMap, List.filterMap_eq_flatMap_toList]
    exact List.flatMap_congr fun t _ => filter_renewing s t _
  rw [beginning, if_neg (by simp [h]), List.filter_append,
    List.filter_cons_of_neg (by simp [Event.collects]),
    List.filter_cons_of_neg (by simp [Event.collects]), List.filter_append, hout, hback]
  exact List.append_nil _

/-- The end of a pass tells of no expiry. -/
theorem filter_finishing (sys : System m n) (s : Fin m) (now : Timespec) :
    (sys.finishing s now).filter Event.collects = [] := by
  rw [finishing, List.filter_append, List.filter_cons_of_neg (by simp [Event.collects]),
    List.filter_append, filter_retiming]
  rfl

end System

namespace Moment

variable {x y z : Moment m n} {s r : Fin m} {t : Fin n} {first period now : Timespec} {k : Nat}
  {a : Action m n} {actions : List (Action m n)} {es : List (Event m n)}

/-- The timers that a step takes out, in order, each with its scheduler. -/
def expiring (x : Moment m n) (a : Action m n) : List (Fin m × Fin n) :=
  match x.cursor, a with
  | none, .request s (.dispatch now) =>
    if x.system.dispatching s then [] else (x.system.due s now).map fun t => (s, t)
  | _, _ => []

/-- The timers that a step gives up, in order, each with its scheduler and the deadline at which it
stopped. -/
def abandoning (x : Moment m n) (a : Action m n) : List (Fin m × Fin n × Timespec) :=
  (x.expiring a).filterMap fun (s, t) =>
    (x.system.timer t).overflow?.map fun deadline => (s, t, deadline)

/-- The timers that a row of steps gives up. -/
def abandoned (x : Moment m n) : List (Action m n) → List (Fin m × Fin n × Timespec)
  | [] => []
  | a :: actions => x.abandoning a ++ abandoned (x.step a) actions

/-- A pass in control takes no timers out. -/
theorem expiring_of_cursor {c : Cursor m n} (h : x.cursor = some c) (a : Action m n) :
    x.expiring a = [] := by
  simp only [expiring, h]

/-- A dispatch takes out what is due, unless it is ignored. -/
theorem expiring_dispatch (h : x.cursor = none) (s : Fin m) (now : Timespec) :
    x.expiring (.request s (.dispatch now)) =
      if x.system.dispatching s then [] else (x.system.due s now).map fun t => (s, t) := by
  simp only [expiring, h]

/-- A dispatch that is not ignored takes out what is due. -/
theorem expiring_of_idle (h : x.cursor = none) (hs : x.system.dispatching s = false)
    (now : Timespec) :
    x.expiring (.request s (.dispatch now)) = (x.system.due s now).map fun t => (s, t) := by
  rw [expiring_dispatch h, hs]
  rfl

/-- Timers are taken out only by a dispatch that is not ignored, and only when they are due. -/
theorem mem_expiring_iff :
    (s, t) ∈ x.expiring a ↔ ∃ now, x.cursor = none ∧ a = .request s (.dispatch now) ∧
      x.system.dispatching s = false ∧ t ∈ x.system.due s now := by
  constructor
  · intro h
    rcases hcursor : x.cursor with _ | c
    · cases a with
      | request r what =>
        cases what with
        | command c => simp [expiring, hcursor] at h
        | query q => simp [expiring, hcursor] at h
        | dispatch now =>
          cases hr : x.system.dispatching r with
          | true => simp [expiring_dispatch hcursor, hr] at h
          | false =>
            rw [expiring_of_idle hcursor hr] at h
            rcases List.mem_map.1 h with ⟨u, hu, heq⟩
            rcases Prod.mk.inj heq with ⟨rfl, rfl⟩
            exact ⟨now, rfl, rfl, hr, hu⟩
      | ret => simp [expiring, hcursor] at h
    · rw [expiring_of_cursor hcursor] at h
      cases h
  · rintro ⟨now, hcursor, rfl, hs, ht⟩
    rw [expiring_of_idle hcursor hs]
    exact List.mem_map.2 ⟨t, ht, rfl⟩

/-- What a step records of timers that are taken out and given up. -/
theorem filter_record (x : Moment m n) (a : Action m n) :
    (x.record a).filter Event.collects =
      (x.expiring a).map (fun (s, t) => .detached s t (x.system.timer t).deadline) ++
        (x.abandoning a).map fun (s, _, deadline) => .logged s (.overflow deadline) := by
  rcases hcursor : x.cursor with _ | c
  · cases a with
    | request s what =>
      cases what with
      | command c =>
        rw [record_command hcursor, List.filter_append, System.filter_commanding]
        simp [abandoning, expiring, hcursor, Event.collects]
      | query q =>
        rw [record_query hcursor]
        cases q.lacks <;> simp [abandoning, expiring, hcursor, Event.collects]
      | dispatch now =>
        rw [record_dispatch hcursor]
        cases hs : x.system.dispatching s with
        | true =>
          simp [abandoning, expiring_dispatch hcursor, hs, System.beginning, Event.collects]
        | false =>
          rw [System.filter_beginning hs, abandoning, expiring_of_idle hcursor hs, List.map_map,
            List.filterMap_map, List.map_filterMap]
          refine congrArg _ (List.filterMap_congr fun t _ => ?_)
          rw [Function.comp_apply, Option.map_map]
          rfl
    | ret => simp [record_ret hcursor, abandoning, expiring, hcursor]
  · rw [abandoning, expiring_of_cursor hcursor]
    rcases hnext : c.next with _ | t
    · rw [record_finish hcursor hnext, System.filter_finishing]
      rfl
    · rw [record_visit hcursor hnext]
      cases (x.system.timer t).callback <;> simp [Event.collects]

/-- The record of a step tells which timers it takes out. -/
theorem taken_record (x : Moment m n) (a : Action m n) :
    taken (x.record a) = (x.expiring a).map Prod.snd := by
  have hout : ((x.expiring a).map fun (s, t) =>
      Event.detached s t (x.system.timer t).deadline).filterMap Event.detached? =
        (x.expiring a).map Prod.snd := by
    rw [List.filterMap_map, ← List.filterMap_eq_map]
    rfl
  have hlines : ((x.abandoning a).map fun (s, _, deadline) =>
      (.logged s (.overflow deadline) : Event m n)).filterMap Event.detached? = [] := by
    simp [Event.detached?]
  rw [taken, filterMap_of_collects (fun e he => ?_), filter_record, List.filterMap_append, hout,
    hlines, List.append_nil]
  cases e <;> first | rfl | cases he

/-- The record of a step tells which timers it gives up. -/
theorem overflows_record (x : Moment m n) (a : Action m n) :
    overflows (x.record a) = (x.abandoning a).map fun (s, _, deadline) => (s, deadline) := by
  have hout : ((x.expiring a).map fun (s, t) =>
      Event.detached s t (x.system.timer t).deadline).filterMap Event.overflow? = [] := by
    simp [Event.overflow?]
  have hlines : ((x.abandoning a).map fun (s, _, deadline) =>
      (.logged s (.overflow deadline) : Event m n)).filterMap Event.overflow? =
        (x.abandoning a).map fun (s, _, deadline) => (s, deadline) := by
    rw [List.filterMap_map, ← List.filterMap_eq_map]
    rfl
  rw [overflows, filterMap_of_collects (fun e he => ?_), filter_record, List.filterMap_append, hout,
    hlines, List.nil_append]
  cases e with
  | logged s line => cases line <;> first | rfl | cases he
  | _ => rfl

/-- A step takes no timer out twice. -/
theorem nodup_expiring (hx : x.system.Steady) (a : Action m n) :
    ((x.expiring a).map Prod.snd).Nodup := by
  rcases hx with ⟨armed, hsound, -⟩
  unfold expiring
  split
  · split
    · exact List.nodup_nil
    · rw [List.map_map]
      exact (List.map_id _).symm ▸ hsound.nodup_due _ _
  · exact List.nodup_nil

/-- A timer that a step takes out is taken out by some scheduler. -/
theorem exists_expiring (h : t ∈ (x.expiring a).map Prod.snd) : ∃ r, (r, t) ∈ x.expiring a := by
  simpa using h

/-- What is taken out is armed for the scheduler that takes it out. -/
theorem armed_of_expiring (hx : x.system.Steady) (h : (s, t) ∈ x.expiring a) :
    (x.system.timer t).armed = true ∧ (x.system.timer t).owner = some s := by
  rcases hx with ⟨armed, hsound, -⟩
  rcases mem_expiring_iff.1 h with ⟨now, -, -, -, hdue⟩
  exact hsound.mem_armedTimers.1 (List.mem_filter.1 hdue).1

/-! ## One step -/

/-- Among some events no command that concerns a timer was carried out. -/
def Uncommanded (t : Fin n) (es : List (Event m n)) : Prop :=
  ∀ r c, .answered r (.command c) .accepted ∈ es → c.timer ≠ some t

/-- No command for the timer was carried out exactly if no event tells so. -/
theorem uncommanded_iff {es : List (Event m n)} :
    Uncommanded t es ↔ ∀ e ∈ es, e.commanded? ≠ some t := by
  constructor
  · intro h e he
    unfold Event.commanded?
    split
    · exact h _ _ he
    · simp
  · exact fun h r c he => h _ he

/-- No command for the timer was carried out in two parts exactly if none was in either. -/
theorem uncommanded_append {es fs : List (Event m n)} :
    Uncommanded t (es ++ fs) ↔ Uncommanded t es ∧ Uncommanded t fs := by
  simp only [uncommanded_iff, List.forall_mem_append]

instance : DecidablePred (Uncommanded t : List (Event m n) → Prop) :=
  fun _ => decidable_of_iff _ uncommanded_iff.symm

/-- A command acts on the timers of the system. -/
theorem timer_act_command (x : Moment m n) (s : Fin m) (c : Command (Option (Fin n)))
    (t : Fin n) :
    (x.act (.request s (.command c))).system.timer t = (x.system.command s c).2.timer t :=
  rfl

/-- A command that is refused or is about another timer leaves a timer as it is, but for links. -/
theorem bare_command (hcursor : x.cursor = none) (s : Fin m) (c : Command (Option (Fin n)))
    (hfree : Uncommanded t (x.record (.request s (.command c)))) :
    ((x.act (.request s (.command c))).system.timer t).bare = (x.system.timer t).bare := by
  rw [timer_act_command, ← Timer.bare_body, ← Timer.bare_body (x.system.timer t)]
  refine congrArg Timer.bare ?_
  cases h : (x.system.command s c).1 with
  | error cause => exact System.body_command_of_error h t
  | ok done =>
    apply System.body_command_of_ne
    apply hfree s c
    rw [record_command hcursor, h]
    exact List.mem_append_right _ List.mem_cons_self

/-- A dispatch makes the timers that it takes out expire, and leaves the others as they are, but for
links. -/
theorem bare_dispatch (hx : x.system.Steady) (hcursor : x.cursor = none) (s : Fin m)
    (now : Timespec) (t : Fin n) :
    ((x.act (.request s (.dispatch now))).system.timer t).bare =
      if t ∈ (x.expiring (.request s (.dispatch now))).map Prod.snd then
        (x.system.timer t).bare.expired
      else (x.system.timer t).bare := by
  rcases hx with ⟨armed, hsound, -⟩
  rw [system_act_dispatch]
  cases hs : x.system.dispatching s with
  | true =>
    have hnone : x.expiring (.request s (.dispatch now)) = [] := by
      rw [expiring_dispatch hcursor, hs]
      rfl
    have htimers := (System.alike_begin_of_dispatching hs now).timers
    rw [hnone]
    exact congrArg (fun cells => (Table.get cells t).bare) htimers
  | false =>
    have hsome : (x.expiring (.request s (.dispatch now))).map Prod.snd = x.system.due s now := by
      rw [expiring_of_idle hcursor hs, List.map_map]
      exact List.map_id _
    -- taking out, chaining and rearming together are one expiry, links apart
    have hbody := congrArg Timer.bare ((hsound.serviced_begin hs now).body t)
    rw [← hsound.due_eq] at hbody
    rw [hsome, ← Timer.bare_body, hbody]
    by_cases ht : t ∈ x.system.due s now
    · rw [if_pos ht, if_pos ht]
      exact Timer.bare_expired (x.system.timer t).body
    · rw [if_neg ht, if_neg ht]
      rfl

/-- A timer that no command concerns is left alone by a step but for its links, or it expires. -/
theorem bare_step (hx : x.system.Steady) (a : Action m n) (hfree : Uncommanded t (x.record a)) :
    ((x.step a).system.timer t).bare =
      if t ∈ (x.expiring a).map Prod.snd then (x.system.timer t).bare.expired
      else (x.system.timer t).bare := by
  rcases hcursor : x.cursor with _ | c
  · rw [step_of_no_cursor hcursor]
    cases a with
    | request s what =>
      cases what with
      | command c =>
        have hnone : x.expiring (.request s (.command c)) = [] := by simp only [expiring, hcursor]
        rw [hnone]
        exact bare_command hcursor s c hfree
      | query q =>
        have hnone : x.expiring (.request s (.query q)) = [] := by simp only [expiring, hcursor]
        have htimers : (x.system.query s q).2.timers = x.system.timers :=
          (System.alike_query x.system s q).timers
        rw [hnone]
        exact congrArg (fun cells => (Table.get cells t).bare) htimers
      | dispatch now => exact bare_dispatch hx hcursor s now t
    | ret =>
      have hnone : x.expiring .ret = [] := by simp only [expiring, hcursor]
      have hsystem : (x.act .ret).system = x.system := by
        simp only [act]
        split <;> rfl
      rw [hnone, hsystem]
      rfl
  · rw [step_of_cursor hcursor, expiring_of_cursor hcursor]
    rcases hnext : c.next with _ | u
    · rw [advance_finish hnext]
      have htimers := System.timers_finish x.system c.scheduler c.now
      exact congrArg (fun cells => (Table.get cells t).bare) htimers
    · have hvisit : ((x.system.visit c.scheduler u).2.timer t).bare = (x.system.timer t).bare :=
        System.apply_timer_visit x.system c.scheduler u t (by intro _; rfl)
      have htimers := (alike_advance (x := x) hnext).timers
      exact (congrArg (fun cells => (Table.get cells t).bare) htimers).trans hvisit

/-- A step takes a timer out once or not at all. -/
theorem count_taken_record (hx : x.system.Steady) (a : Action m n) (t : Fin n) :
    (taken (x.record a)).count t = if t ∈ (x.expiring a).map Prod.snd then 1 else 0 := by
  rw [taken_record, (nodup_expiring hx a).count]

/-- Over a run, the times that a timer was taken out add up. -/
theorem count_taken_records_cons (x : Moment m n) (a : Action m n) (actions : List (Action m n))
    (t : Fin n) : (taken (x.records (a :: actions))).count t =
      (taken (x.record a)).count t + (taken ((x.step a).records actions)).count t := by
  rw [records, taken_append, List.count_append]

/-! ## Timers that are given up -/

/-- Where a timer is not among the timers, nothing is told of it. -/
theorem filter_of_notMem {l : List (Fin n)} (ht : t ∉ l) (s : Fin m)
    (g : Fin n → Option Timespec) :
    (l.filterMap fun u => (g u).map fun d => (s, u, d)).filter (fun p => p.2.1 = t) = [] := by
  rw [List.filter_eq_nil_iff]
  intro p hp
  rcases List.mem_filterMap.1 hp with ⟨u, hu, hmap⟩
  rcases Option.map_eq_some_iff.1 hmap with ⟨d, -, rfl⟩
  simpa using fun heq : u = t => ht (heq ▸ hu)

/-- Where a timer is among the timers once, what is told of it is told once. -/
theorem filter_of_mem {l : List (Fin n)} (hnd : l.Nodup) (ht : t ∈ l) (s : Fin m)
    (g : Fin n → Option Timespec) :
    (l.filterMap fun u => (g u).map fun d => (s, u, d)).filter (fun p => p.2.1 = t) =
      ((g t).map fun d => (s, t, d)).toList := by
  rcases List.append_of_mem ht with ⟨before, after, rfl⟩
  have hnot : t ∉ before ++ after := (List.nodup_middle.1 hnd).notMem
  rw [List.mem_append, not_or] at hnot
  rw [List.filterMap_append, List.filter_append, filter_of_notMem hnot.1, List.nil_append]
  cases hg : g t with
  | none =>
    rw [List.filterMap_cons_none (by simp [hg]), filter_of_notMem hnot.2]
    rfl
  | some d =>
    rw [List.filterMap_cons_some (by simp [hg]; rfl), List.filter_cons_of_pos (by simp),
      filter_of_notMem hnot.2]
    rfl

/-- What a step gives up of one timer. -/
theorem filter_abandoning (hx : x.system.Steady) (a : Action m n) {s : Fin m} {t : Fin n}
    (howner : (x.system.timer t).owner = some s) :
    (x.abandoning a).filter (fun p => p.2.1 = t) =
      if t ∈ (x.expiring a).map Prod.snd then
        ((x.system.timer t).overflow?.map fun d => (s, t, d)).toList
      else [] := by
  split
  · next ht =>
    rcases exists_expiring ht with ⟨r, hmem⟩
    obtain rfl : r = s := Option.some.inj ((armed_of_expiring hx hmem).2.symm.trans howner)
    rcases mem_expiring_iff.1 hmem with ⟨now, hcursor, rfl, hidle, hdue⟩
    rcases hx with ⟨armed, hsound, -⟩
    rw [abandoning, expiring_of_idle hcursor hidle, List.filterMap_map]
    exact filter_of_mem (hsound.nodup_due r now) hdue r fun u => (x.system.timer u).overflow?
  · next ht =>
    rw [List.filter_eq_nil_iff]
    intro p hp
    rcases List.mem_filterMap.1 hp with ⟨⟨r, u⟩, hmem, hmap⟩
    rcases Option.map_eq_some_iff.1 hmap with ⟨d, -, rfl⟩
    simpa using fun heq : u = t => ht (heq ▸ List.mem_map_of_mem hmem)

/-! ## Runs -/

/-- The timer `t`, which was armed on `s`, is on schedule after `k` expiries. -/
structure Scheduled (s : Fin m) (t : Fin n) (first period : Timespec) (k : Nat)
    (x : Moment m n) : Prop where
  steady : x.system.Steady
  owner : (x.system.timer t).owner = some s
  onSchedule : (x.system.timer t).OnSchedule first period k

namespace Scheduled

/-- A step that takes the timer out leads to the next place of its schedule. -/
theorem step (h : Scheduled s t first period k x) (hpos : 0 < period.nanos)
    (hfree : Uncommanded t (x.record a)) :
    Scheduled s t first period (k + (taken (x.record a)).count t) (x.step a) := by
  have hbare := bare_step h.steady a hfree
  rw [count_taken_record h.steady]
  by_cases ht : t ∈ (x.expiring a).map Prod.snd
  · rcases exists_expiring ht with ⟨r, hmem⟩
    rw [if_pos ht, ← Timer.bare_expired] at hbare
    rw [if_pos ht]
    refine ⟨steady_step h.steady a, ?_, ?_⟩
    · exact (congrArg Timer.owner hbare :).trans ((Timer.apply_expired (fun _ _ _ => rfl) _).trans h.owner)
    · exact (h.onSchedule.expired hpos (armed_of_expiring h.steady hmem).1).of_bare hbare
  · rw [if_neg ht] at hbare
    rw [if_neg ht]
    exact ⟨steady_step h.steady a, (congrArg Timer.owner hbare :).trans h.owner,
      h.onSchedule.of_bare hbare⟩

/-- A timer is given up by the step that takes it out for the last time. -/
theorem filter_abandoning (h : Scheduled s t first period k x) (hpos : 0 < period.nanos)
    (a : Action m n) :
    (x.abandoning a).filter (fun p => p.2.1 = t) =
      if t ∈ (x.expiring a).map Prod.snd ∧
          Timespec.maxNanos < first.nanos + (k + 1) * period.nanos then
        [(s, t, (x.system.timer t).deadline)]
      else [] := by
  rw [Moment.filter_abandoning h.steady a h.owner]
  by_cases ht : t ∈ (x.expiring a).map Prod.snd
  · rcases exists_expiring ht with ⟨r, hmem⟩
    have harmed := (armed_of_expiring h.steady hmem).1
    have hdeadline := (h.onSchedule.armed (h.onSchedule.le_of_armed harmed)).2
    have hperiod : 0 < (x.system.timer t).period.nanos := by rwa [h.onSchedule.period_eq]
    have hsum : (x.system.timer t).deadline.nanos + (x.system.timer t).period.nanos =
        first.nanos + (k + 1) * period.nanos := by
      rw [hdeadline, h.onSchedule.period_eq, Nat.succ_mul, Nat.add_assoc]
    rw [if_pos ht, Timer.overflow?_eq hperiod, hsum]
    by_cases hlate : Timespec.maxNanos < first.nanos + (k + 1) * period.nanos
    · rw [if_pos hlate, if_pos ⟨ht, hlate⟩]
      rfl
    · rw [if_neg hlate, if_neg fun hboth : _ ∧ _ => hlate hboth.2]
      rfl
  · rw [if_neg ht, if_neg fun hboth => ht hboth.1]

/-- A timer that was given up is not taken out any more. -/
theorem eq_of_lt {j : Nat} (h : Scheduled s t first period (k + j) x)
    (hlate : Timespec.maxNanos < first.nanos + k * period.nanos) : j = 0 := by
  have hle := (x.system.timer t).deadline.nanos_le_maxNanos
  have hmono : k * period.nanos ≤ (k + j) * period.nanos :=
    Nat.mul_le_mul_right _ (Nat.le_add_right k j)
  have hstopped := (h.onSchedule.stopped (by omega)).2.2
  by_contra hj
  have hmono' : k * period.nanos ≤ (k + j - 1) * period.nanos :=
    Nat.mul_le_mul_right _ (by omega)
  omega

/-- A run leads to the place of the schedule that the number of expiries tells. -/
theorem run (h : Scheduled s t first period k x) (hpos : 0 < period.nanos)
    (hfree : Uncommanded t (x.records actions)) :
    Scheduled s t first period (k + (taken (x.records actions)).count t) (x.run actions) := by
  induction actions generalizing x k with
  | nil => exact h
  | cons a actions ih =>
    rcases uncommanded_append.1 hfree with ⟨hnow, hlater⟩
    have hrest := ih (h.step hpos hnow) hlater
    rwa [Nat.add_assoc, ← count_taken_records_cons] at hrest

/-- A run gives the timer up once, if it leads to a place of the schedule that cannot be represented
from one that can. -/
theorem filter_abandoned (h : Scheduled s t first period k x) (hpos : 0 < period.nanos)
    (hfree : Uncommanded t (x.records actions)) :
    (x.abandoned actions).filter (fun p => p.2.1 = t) =
      if first.nanos + k * period.nanos ≤ Timespec.maxNanos ∧ Timespec.maxNanos <
          first.nanos + (k + (taken (x.records actions)).count t) * period.nanos then
        [(s, t, ((x.run actions).system.timer t).deadline)]
      else [] := by
  induction actions generalizing x k with
  | nil =>
    rw [if_neg]
    · rfl
    · rintro ⟨hle, hlt⟩
      exact absurd hle (Nat.not_le.2 hlt)
  | cons a actions ih =>
    rcases uncommanded_append.1 hfree with ⟨hnow, hlater⟩
    have hone := h.step hpos hnow
    have hrest := ih hone hlater
    have hend := hone.run hpos hlater
    have habandoned : (x.abandoned (a :: actions)).filter (fun p => p.2.1 = t) =
        (x.abandoning a).filter (fun p => p.2.1 = t) ++
          ((x.step a).abandoned actions).filter fun p => p.2.1 = t :=
      List.filter_append _ _
    rw [count_taken_records_cons, ← Nat.add_assoc, habandoned, h.filter_abandoning hpos, hrest]
    have hcount := count_taken_record h.steady a t
    by_cases ht : t ∈ (x.expiring a).map Prod.snd
    · rcases exists_expiring ht with ⟨r, hmem⟩
      have hle := h.onSchedule.le_of_armed (armed_of_expiring h.steady hmem).1
      rw [if_pos ht] at hcount
      rw [hcount] at hend ⊢
      by_cases hlate : Timespec.maxNanos < first.nanos + (k + 1) * period.nanos
      · -- given up by this step: the run does not take the timer out any more
        have hnone := hend.eq_of_lt hlate
        rw [hnone] at hend ⊢
        have hsame : (((x.step a).run actions).system.timer t).deadline =
            (x.system.timer t).deadline :=
          Timespec.nanos_inj.1 ((hend.onSchedule.stopped hlate).2.2.trans
            (h.onSchedule.armed hle).2.symm)
        rw [if_pos ⟨ht, hlate⟩, if_neg fun hboth => absurd hboth.1 (Nat.not_le.2 hlate),
          if_pos ⟨hle, hlate⟩, List.append_nil, ← hsame]
        rfl
      · have hnext : first.nanos + (k + 1) * period.nanos ≤ Timespec.maxNanos :=
          Nat.le_of_not_lt hlate
        rw [if_neg fun hboth => hlate hboth.2, List.nil_append]
        simp only [hle, hnext, true_and]
        rfl
    · rw [if_neg ht] at hcount
      rw [hcount, if_neg fun hboth => ht hboth.1, List.nil_append, Nat.add_zero]
      rfl

/-- A timer that was just armed is at the first place of its schedule. -/
theorem of_arm (hx : x.system.Steady) (hcursor : x.cursor = none) {priority : PriorityClass}
    (harm : (x.system.command s (.arm (some t) priority (some first) (some period))).1 = .ok ()) :
    Scheduled s t first period 0
      (x.step (.request s (.command (.arm (some t) priority (some first) (some period))))) := by
  have hbody := congrArg Timer.bare (System.body_command_of_ok harm rfl)
  have hsteady := steady_step hx
    (.request s (.command (.arm (some t) priority (some first) (some period))))
  rw [step_of_no_cursor hcursor] at hsteady ⊢
  rw [← timer_act_command, Timer.bare_body] at hbody
  have howner := congrArg Timer.owner hbody
  have hstart := Timer.OnSchedule.zero (c := Command.effect s
    (.arm (some t) priority (some first) (some period)) (x.system.timer t).body) rfl
  exact ⟨hsteady, howner, hstart.of_bare hbody⟩

end Scheduled

/-- What a run adds to the history is what it records. -/
theorem records_eq_of_history (hx : x.system.Steady)
    (hes : (x.run actions).system.history = x.system.history ++ es) : x.records actions = es :=
  List.append_cancel_left ((recorded_run hx actions).history.symm.trans hes)

/-- What a step adds to the history is what it records. -/
theorem record_eq_of_history (hx : x.system.Steady)
    (hes : (x.step a).system.history = x.system.history ++ es) : x.record a = es :=
  List.append_cancel_left ((recorded_step hx a).history.symm.trans hes)

/-- The record of a run tells which timers it gives up. -/
theorem overflows_records (x : Moment m n) (actions : List (Action m n)) :
    overflows (x.records actions) =
      (x.abandoned actions).map fun (s, _, deadline) => (s, deadline) := by
  induction actions generalizing x with
  | nil => rfl
  | cons a actions ih =>
    have happend : overflows (x.records (a :: actions)) =
        overflows (x.record a) ++ overflows ((x.step a).records actions) :=
      List.filterMap_append
    rw [happend, overflows_record, ih, abandoned, List.map_append]

/-- What becomes of a timer that was armed on `s` for `first` and once every `period` after it, from
the moment `y` on, by actions that recorded the events `es`. -/
structure Paced (s : Fin m) (t : Fin n) (first period : Timespec) (y : Moment m n)
    (actions : List (Action m n)) (es : List (Event m n)) : Prop where
  /-- As long as the deadline that the number of expiries tells can be represented, the timer is armed
  for it. -/
  armed : first.nanos + (taken es).count t * period.nanos ≤ Timespec.maxNanos →
    ((y.run actions).system.timer t).armed = true ∧
      ((y.run actions).system.timer t).owner = some s ∧
      ((y.run actions).system.timer t).deadline.nanos =
        first.nanos + (taken es).count t * period.nanos
  /-- The first expiry after which it cannot be represented disarms the timer. -/
  stopped : Timespec.maxNanos < first.nanos + (taken es).count t * period.nanos →
    ((y.run actions).system.timer t).armed = false ∧ 0 < (taken es).count t ∧
      ((y.run actions).system.timer t).deadline.nanos =
        first.nanos + ((taken es).count t - 1) * period.nanos
  /-- The warnings are one for each timer that was given up. -/
  lines : overflows es = (y.abandoned actions).map fun (r, _, deadline) => (r, deadline)
  /-- While it is armed the timer was not given up, and when it has stopped, once, at its last
  deadline. -/
  given_up : (y.abandoned actions).filter (fun p => p.2.1 = t) =
    if first.nanos + (taken es).count t * period.nanos ≤ Timespec.maxNanos then []
    else [(s, t, ((y.run actions).system.timer t).deadline)]
  /-- When it has stopped it does not expire any more. -/
  ended : Timespec.maxNanos < first.nanos + (taken es).count t * period.nanos → ∀ more fs,
    ((y.run actions).run more).system.history = (y.run actions).system.history ++ fs →
      Uncommanded t fs → t ∉ taken fs
  /-- The timer expires only at the beginning of a pass of `s` for which it is due, and once. -/
  expiry : ∀ a fs, ((y.run actions).step a).system.history = (y.run actions).system.history ++ fs →
    (taken fs).count t ≤ 1 ∧ (t ∈ taken fs → ∃ now, (y.run actions).cursor = none ∧
      a = .request s (.dispatch now) ∧ (y.run actions).system.dispatching s = false ∧
      ((y.run actions).system.timer t).deadline ≤ now)
  /-- Nothing else changes it, links apart. -/
  untouched : ∀ a fs, ((y.run actions).step a).system.history =
      (y.run actions).system.history ++ fs → Uncommanded t fs → t ∉ taken fs →
    (((y.run actions).step a).system.timer t).bare = ((y.run actions).system.timer t).bare
  /-- So a pass that begins before the deadline leaves it alone. -/
  early : (y.run actions).cursor = none → ∀ r now,
    now < ((y.run actions).system.timer t).deadline →
      (((y.run actions).step (.request r (.dispatch now))).system.timer t).bare =
        ((y.run actions).system.timer t).bare

/-- A periodic timer never drifts and stops exactly at overflow.  However many schedulers and other
timers there are, whatever the callbacks do, and at whatever times dispatches are made: from an arm
with a period that is carried out, as long as no command that concerns the timer is carried out, its
deadline is the first one and as many periods as it expired; when that cannot be represented it has
stopped for good, with one warning. -/
theorem Reachable.on_schedule (hx : x.Reachable) (hcursor : x.cursor = none)
    (hpos : 0 < period.nanos) {priority : PriorityClass}
    (harm : (x.system.command s (.arm (some t) priority (some first) (some period))).1 = .ok ())
    (hes : ((x.step (.request s (.command
        (.arm (some t) priority (some first) (some period))))).run actions).system.history =
      (x.step (.request s (.command
        (.arm (some t) priority (some first) (some period))))).system.history ++ es)
    (hfree : Uncommanded t es) :
    Paced s t first period
      (x.step (.request s (.command (.arm (some t) priority (some first) (some period)))))
      actions es := by
  have hstart := Scheduled.of_arm hx.steady hcursor harm
  generalize x.step (.request s (.command (.arm (some t) priority (some first) (some period)))) = y
    at hes hstart
  obtain rfl := records_eq_of_history hstart.steady hes
  have hend := hstart.run hpos hfree
  have hgiven := hstart.filter_abandoned hpos hfree
  rw [Nat.zero_add] at hend hgiven
  have hfirst : first.nanos + 0 * period.nanos ≤ Timespec.maxNanos := by
    have hle := first.nanos_le_maxNanos
    omega
  have hexpiry : ∀ a fs, ((y.run actions).step a).system.history =
      (y.run actions).system.history ++ fs →
      taken fs = ((y.run actions).expiring a).map Prod.snd := by
    intro a fs hfs
    rw [← record_eq_of_history hend.steady hfs, taken_record]
  refine ⟨?armed, hend.onSchedule.stopped, overflows_records y actions, ?given, ?ended, ?expiry,
    ?untouched, ?early⟩
  case armed =>
    intro hle
    have hplace := hend.onSchedule.armed hle
    exact ⟨hplace.1, hend.owner, hplace.2⟩
  case given =>
    rw [hgiven]
    by_cases hle : first.nanos + (taken (y.records actions)).count t * period.nanos ≤
        Timespec.maxNanos
    · rw [if_pos hle, if_neg fun hboth => absurd hle (Nat.not_le.2 hboth.2)]
    · rw [if_neg hle, if_pos ⟨hfirst, Nat.lt_of_not_le hle⟩]
  case ended =>
    intro hlate more fs hfs hfree
    obtain rfl := records_eq_of_history hend.steady hfs
    have hnone := (hend.run hpos hfree).eq_of_lt hlate
    exact List.count_eq_zero.1 hnone
  case expiry =>
    intro a fs hfs
    rw [hexpiry a fs hfs]
    refine ⟨List.nodup_iff_count_le_one.1 (nodup_expiring hend.steady a) t, fun ht => ?_⟩
    rcases exists_expiring ht with ⟨r, hmem⟩
    obtain rfl : r = s :=
      Option.some.inj ((armed_of_expiring hend.steady hmem).2.symm.trans hend.owner)
    rcases mem_expiring_iff.1 hmem with ⟨now, hstill, hdispatch, hidle, hdue⟩
    exact ⟨now, hstill, hdispatch, hidle, of_decide_eq_true (List.mem_filter.1 hdue).2⟩
  case untouched =>
    intro a fs hfs hfree hnot
    rw [hexpiry a fs hfs] at hnot
    rw [bare_step hend.steady a ((record_eq_of_history hend.steady hfs).symm ▸ hfree), if_neg hnot]
  case early =>
    intro hstill r now hnow
    rw [step_of_no_cursor hstill, bare_dispatch hend.steady hstill, if_neg]
    intro ht
    rcases exists_expiring ht with ⟨r', hmem⟩
    rcases mem_expiring_iff.1 hmem with ⟨now', -, hdispatch, -, hdue⟩
    cases hdispatch
    have hle := of_decide_eq_true (List.mem_filter.1 hdue).2
    exact Std.not_le.2 hnow hle

/-- A timer to which a callback is bound. -/
def oneBound (s : Fin m) (t : Fin n) : Moment m n :=
  (ofMachine (.initial fun _ => .counting)).run
    [.request s (.command (.init (some t) (some 0) .none))]

/-- A pass with one timer, whose callback returns at once. -/
def passAt (s : Fin m) (now : Timespec) : List (Action m n) :=
  [.request s (.dispatch now), .ret, .ret, .ret]

/-- A timer armed for its last second but one, and then once a second, expires twice. -/
theorem on_schedule_ending :
    let first := Timespec.new 4294967294 0
    let period := Timespec.new 1 0
    let y : Moment 1 1 := (oneBound 0 0).step
      (.request 0 (.command (.arm (some 0) .precise (some first) (some period))))
    let pass := passAt 0 (.new 4294967295 999999999)
    let es := y.records (pass ++ pass ++ pass)
    (oneBound 0 0 : Moment 1 1).Reachable ∧ Uncommanded 0 es ∧ (taken es).count 0 = 2 ∧
      overflows es = [(0, .new 4294967295 0)] ∧
      Paced 0 0 first period y (pass ++ pass ++ pass) es := by
  intro first period y pass es
  have hx : (oneBound 0 0 : Moment 1 1).Reachable := ⟨_, _, rfl⟩
  have hfree : Uncommanded 0 es := by decide +kernel
  have hpaced := hx.on_schedule (s := 0) rfl (by decide) (by decide)
    (recorded_run (steady_step hx.steady _) (pass ++ pass ++ pass)).history hfree
  exact ⟨hx, hfree, by decide +kernel, by decide +kernel, hpaced⟩

end Moment

end SoftTimer
