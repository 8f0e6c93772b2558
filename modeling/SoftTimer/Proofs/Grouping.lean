import SoftTimer.Proofs.ClosedLoop
import SoftTimer.Proofs.Schedule

/-!
# The grouping of dispatches

A pass calls a timer that is due once, however many of its periods are over by then.  So a scheduler
that is served late catches up by being dispatched again and again.  If the callbacks do nothing but
return, how often each timer is called up to a time limit, and what becomes of it, does not depend
on the dispatches that were made until then.

Main definitions:

- `Timer.firings`: how often a timer expires up to a limit.
- `Machine.serveAll`: dispatches at given times.
- `Machine.drain`: dispatches at a limit, until nothing up to it is left.

Main results:

- Theorem `Timer.firings_expired`: an expiry is one of the firings.
- Theorem `Machine.Grouped.serve`: calls and firings that are left add up over a dispatch.
- Theorem `Machine.Reachable.caught_up`: whole rows of dispatches.
-/

namespace SoftTimer

variable {m n : Nat}

/-! ## Firings up to a limit -/

namespace Timer

variable {c : Timer m n} {s : Fin m} {limit : Timespec} {k : Nat}

/-- How often an armed timer expires up to a limit: at its deadline and, if it has a period, once
every period after it. -/
def firings (limit : Timespec) (c : Timer m n) : Nat :=
  if limit < c.deadline then 0
  else if c.isPeriodic then (limit.nanos - c.deadline.nanos) / c.period.nanos + 1
  else 1

/-- How often a timer expires up to a limit in passes of `s`. -/
def firingsOn (s : Fin m) (limit : Timespec) (c : Timer m n) : Nat :=
  if c.armed = true ∧ c.owner = some s then c.firings limit else 0

/-- A timer that is not periodic has no period. -/
theorem period_eq_zero (h : ¬ c.isPeriodic = true) : c.period.nanos = 0 := by
  rw [isPeriodic_iff] at h
  omega

/-- Before its deadline a timer does not expire. -/
theorem firings_of_lt (h : limit < c.deadline) : c.firings limit = 0 :=
  if_pos h

/-- A timer that is not periodic has the period zero, and nothing is left of a division by it. -/
theorem firings_of_le (h : c.deadline ≤ limit) :
    c.firings limit = (limit.nanos - c.deadline.nanos) / c.period.nanos + 1 := by
  rw [firings, if_neg (Std.not_lt.2 h)]
  split
  · rfl
  · next hone => rw [period_eq_zero hone, Nat.div_zero]

/-- When a timer expires that has no next deadline, no firing is left. -/
theorem firings_of_renewal?_none (hle : c.deadline ≤ limit) (h : c.renewal? = none) :
    c.firings limit = 1 := by
  rw [firings_of_le hle]
  by_cases hperiodic : c.isPeriodic = true
  · -- the next deadline would be beyond all times, and so beyond the limit
    have hpos := isPeriodic_iff.1 hperiodic
    have hlate := (renewal?_eq_none_iff hpos).1 h
    have hlimit := limit.nanos_le_maxNanos
    rw [Nat.div_eq_of_lt (by omega)]
  · rw [period_eq_zero hperiodic, Nat.div_zero]

/-- When it has a next deadline, those are left that it has from there on. -/
theorem firings_of_renewal?_some {deadline : Timespec} (hle : c.deadline ≤ limit)
    (h : c.renewal? = some deadline) :
    c.firings limit = { c with deadline }.firings limit + 1 := by
  rcases renewal?_eq_some_iff.1 h with ⟨hpos, hnext⟩
  rw [firings_of_le hle]
  by_cases hlt : limit < deadline
  · rw [firings_of_lt (c := { c with deadline }) hlt]
    rw [Timespec.lt_iff_nanos_lt] at hlt
    rw [Nat.div_eq_of_lt (by omega)]
  · have hge := Std.not_lt.1 hlt
    rw [firings_of_le (c := { c with deadline }) hge]
    rw [Timespec.le_iff_nanos_le] at hge
    have hsub : limit.nanos - c.deadline.nanos - c.period.nanos =
        limit.nanos - deadline.nanos := by omega
    rw [Nat.div_eq_sub_div hpos (by omega), hsub]

/-- An expiry is one of the firings up to a limit. -/
theorem firings_expired (harmed : c.armed = true) (howner : c.owner = some s)
    (hle : c.deadline ≤ limit) : c.firingsOn s limit = c.expired.firingsOn s limit + 1 := by
  have hbefore : c.firingsOn s limit = c.firings limit := if_pos ⟨harmed, howner⟩
  rw [hbefore]
  cases hrenewal : c.renewal? with
  | none =>
    have hafter : c.expired.firingsOn s limit = 0 := by
      rw [expired_of_none hrenewal, firingsOn, if_neg (by simp)]
    rw [hafter, firings_of_renewal?_none hle hrenewal]
  | some deadline =>
    have hafter : c.expired.firingsOn s limit = { c with deadline }.firings limit := by
      rw [expired_of_some hrenewal]
      exact if_pos ⟨rfl, howner⟩
    rw [hafter, firings_of_renewal?_some hle hrenewal]

/-- The firings are at the deadline and at the periods after it up to the limit. -/
theorem le_of_lt_firings (h : k < c.firings limit) :
    c.deadline.nanos + k * c.period.nanos ≤ limit.nanos := by
  by_cases hlt : limit < c.deadline
  · rw [firings_of_lt hlt] at h
    cases h
  · have hle := Std.not_lt.1 hlt
    rw [firings_of_le hle] at h
    rw [Timespec.le_iff_nanos_le] at hle
    have hmul := Nat.mul_le_of_le_div _ _ _ (Nat.le_of_lt_succ h)
    omega

/-- A reading that depends neither on deadline nor on mark is the same after any number of
expiries. -/
theorem apply_iterate_expired {β : Sort*} {φ : Timer m n → β}
    (hφ : ∀ (c : Timer m n) deadline armed, φ { c with deadline, armed } = φ c) (k : Nat)
    (c : Timer m n) : φ (expired^[k] c) = φ c := by
  induction k with
  | zero => rfl
  | succ k ih => rw [Function.iterate_succ_apply', apply_expired hφ, ih]

/-- A periodic timer is on schedule after each of the firings. -/
theorem onSchedule_iterate (hpos : 0 < c.period.nanos) (harmed : c.armed = true)
    (hk : k ≤ c.firings limit) : (expired^[k] c).OnSchedule c.deadline c.period k := by
  induction k with
  | zero => exact .zero harmed
  | succ k ih =>
    have hbefore := ih (Nat.le_of_succ_le hk)
    have hle := Nat.le_trans (le_of_lt_firings hk) limit.nanos_le_maxNanos
    rw [Function.iterate_succ_apply']
    exact hbefore.expired hpos (hbefore.armed hle).1

/-- How an armed timer is after its expiries up to a limit. -/
def after (limit : Timespec) (c : Timer m n) : Timer m n :=
  expired^[c.firings limit] c

/-- A periodic timer is on schedule after its expiries up to a limit. -/
theorem onSchedule_after (hperiodic : c.isPeriodic = true) (harmed : c.armed = true) :
    (c.after limit).OnSchedule c.deadline c.period (c.firings limit) :=
  onSchedule_iterate (isPeriodic_iff.1 hperiodic) harmed (Nat.le_refl _)

/-- Up to a limit before its deadline a timer stays as it is. -/
theorem after_of_lt (h : limit < c.deadline) : c.after limit = c := by
  rw [after, firings_of_lt h, Function.iterate_zero_apply]

/-- A periodic timer is armed for the time after those expiries, if that can be represented. -/
theorem armed_after (harmed : c.armed = true) :
    (c.after limit).armed = true ↔ (limit < c.deadline ∨ c.isPeriodic = true) ∧
      c.deadline.nanos + c.firings limit * c.period.nanos ≤ Timespec.maxNanos := by
  by_cases hperiodic : c.isPeriodic = true
  · rw [(onSchedule_after hperiodic harmed).armed_iff]
    exact (and_iff_right (.inr hperiodic)).symm
  · rw [period_eq_zero hperiodic, Nat.mul_zero, Nat.add_zero]
    by_cases hlt : limit < c.deadline
    · rw [after_of_lt hlt]
      exact iff_of_true harmed ⟨.inl hlt, c.deadline.nanos_le_maxNanos⟩
    · have hnone : c.renewal? = none := by
        rw [Option.eq_none_iff_forall_ne_some]
        intro deadline hsome
        exact hperiodic (isPeriodic_iff.2 (renewal?_eq_some_iff.1 hsome).1)
      rw [after, firings_of_renewal?_none (Std.not_lt.1 hlt) hnone, Function.iterate_one,
        expired_of_none hnone]
      exact iff_of_false (by simp) fun h => h.1.elim hlt hperiodic

/-- A timer that is still armed after its expiries up to a limit is armed one period later for each
of them. -/
theorem deadline_after (harmed : c.armed = true) (hafter : (c.after limit).armed = true) :
    (c.after limit).deadline.nanos =
      c.deadline.nanos + c.firings limit * c.period.nanos := by
  rcases (armed_after harmed).1 hafter with ⟨hlt | hperiodic, hle⟩
  · rw [after_of_lt hlt, firings_of_lt hlt, Nat.zero_mul, Nat.add_zero]
  · exact ((onSchedule_after hperiodic harmed).armed hle).2

end Timer

/-! ## Rows of dispatches -/

namespace System

variable {sys : System m n} {s : Fin m} {now limit : Timespec}

/-- How often the timers expire up to a limit in passes of `s`. -/
def firings (sys : System m n) (s : Fin m) (limit : Timespec) : Nat :=
  ∑ t, (sys.timer t).firingsOn s limit

/-- In a steady system a timer is due if it is armed, belongs to the scheduler, and its deadline has
come. -/
theorem Steady.mem_due (h : sys.Steady) {t : Fin n} :
    t ∈ sys.due s now ↔ (sys.timer t).armed = true ∧ (sys.timer t).owner = some s ∧
      (sys.timer t).deadline ≤ now := by
  rw [due, List.mem_filter, h.mem_armedTimers, decide_eq_true_eq, and_assoc]

/-- The calls of timers that are due are calls of these timers. -/
theorem Steady.map_calls (h : sys.Steady) (s : Fin m) (now : Timespec) :
    ((sys.due s now).filterMap sys.call?).map Call.timer = sys.due s now := by
  rw [List.map_filterMap]
  refine (List.filterMap_congr fun t ht => ?_).trans List.filterMap_some
  rcases h.exists_call? (List.mem_filter.1 ht).1 with ⟨c, rfl, hcall⟩
  rw [hcall, Option.map_some]

/-- If some deadline up to a limit is left, a timer is due then. -/
theorem Steady.exists_mem_due (h : sys.Steady) (hnow : sys.nextDeadline s = some now)
    (hle : now ≤ limit) : ∃ t, t ∈ sys.due s limit := by
  rcases h with ⟨armed, hsound, -⟩
  rcases ((hsound.least s).2 now hnow).1 with ⟨t, ht, rfl⟩
  exact ⟨t, List.mem_filter.2 ⟨hsound.eq_armedTimers ▸ ht, decide_eq_true hle⟩⟩

end System

namespace Machine

variable {x y z : Machine m n} {s : Fin m} {now limit : Timespec} {times : List Timespec}
  {calls more : List (Call n)} {k : Nat}

/-- Dispatch `s` at given times, one after the other. -/
def serveAll (s : Fin m) : List Timespec → Machine m n → List (Call n) × Machine m n
  | [], x => ([], x)
  | now :: times, x =>
    let (calls, y) := x.serve s now
    let (more, z) := serveAll s times y
    (calls ++ more, z)

/-- As long as the next deadline of `s` is not after `limit`, dispatch `s` at `limit`, at most `k`
times. -/
def drain (s : Fin m) (limit : Timespec) : (k : Nat) → Machine m n → List (Call n) × Machine m n
  | 0, x => ([], x)
  | k + 1, x =>
    match x.system.nextDeadline s with
    | some deadline =>
      if deadline ≤ limit then
        let (calls, y) := x.serve s limit
        let (more, z) := drain s limit k y
        (calls ++ more, z)
      else ([], x)
    | none => ([], x)

/-- From `x` to `y` dispatches of `s` up to a limit made some calls.  Each is an expiry of its timer,
and one of the firings that it had up to the limit. -/
structure Grouped (s : Fin m) (limit : Timespec) (x : Machine m n) (calls : List (Call n))
    (y : Machine m n) : Prop where
  reachable : y.Reachable
  frames : y.frames = x.frames
  idle : y.system.dispatching s = false
  bare : ∀ t, (y.system.timer t).bare =
    Timer.expired^[(calls.map Call.timer).count t] (x.system.timer t).bare
  firings : ∀ t, (calls.map Call.timer).count t + (y.system.timer t).firingsOn s limit =
    (x.system.timer t).firingsOn s limit
  call : ∀ c ∈ calls, x.system.call? c.timer = some c

namespace Grouped

/-- Without any dispatch nothing is called and nothing changes. -/
theorem refl (hx : x.Reachable) (hidle : x.system.dispatching s = false) :
    Grouped s limit x [] x :=
  ⟨hx, rfl, hidle, fun _ => rfl, fun _ => Nat.zero_add _, fun _ hc => absurd hc List.not_mem_nil⟩

/-- What neither links nor expiries change stays. -/
theorem apply_timer {β : Sort*} {φ : Timer m n → β} (hbare : ∀ c, φ c.bare = φ c)
    (hφ : ∀ (c : Timer m n) deadline armed, φ { c with deadline, armed } = φ c)
    (h : Grouped s limit x calls y) (t : Fin n) :
    φ (y.system.timer t) = φ (x.system.timer t) := by
  rw [← hbare, h.bare, Timer.apply_iterate_expired hφ, hbare]

/-- Dispatches do not change what calling a timer would be. -/
theorem call?_eq (h : Grouped s limit x calls y) (t : Fin n) :
    y.system.call? t = x.system.call? t := by
  rw [System.call?, System.call?,
    h.apply_timer (φ := Timer.callback) (fun _ => rfl) (fun _ _ _ => rfl),
    h.apply_timer (φ := Timer.arg) (fun _ => rfl) (fun _ _ _ => rfl)]

/-- Dispatches followed by others up to the same limit make the calls of both. -/
theorem trans (h : Grouped s limit x calls y) (hmore : Grouped s limit y more z) :
    Grouped s limit x (calls ++ more) z := by
  have hcount : ∀ t, ((calls ++ more).map Call.timer).count t =
      (calls.map Call.timer).count t + (more.map Call.timer).count t := by
    intro t
    rw [List.map_append, List.count_append]
  refine ⟨hmore.reachable, hmore.frames.trans h.frames, hmore.idle, fun t => ?_, fun t => ?_, fun c hc => ?_⟩
  · rw [hmore.bare, h.bare, hcount, Nat.add_comm, Function.iterate_add_apply]
  · rw [hcount, Nat.add_assoc, hmore.firings, h.firings]
  · rcases List.mem_append.1 hc with hc | hc
    · exact h.call c hc
    · rw [← h.call?_eq]
      exact hmore.call c hc

/-- A dispatch not after the limit. -/
theorem serve (hx : x.Reachable) (hidle : x.system.dispatching s = false)
    (hle : now ≤ limit) : Grouped s limit x (x.serve s now).1 (x.serve s now).2 := by
  have hsteady : x.system.Steady := hx.steady
  rcases serve_spec hsteady hidle now with ⟨hcalls, hserved⟩
  have hcount : ∀ t, ((x.serve s now).1.map Call.timer).count t =
      if t ∈ x.system.due s now then 1 else 0 := by
    intro t
    rw [hcalls, hsteady.map_calls]
    rcases hsteady with ⟨armed, hsound, -⟩
    exact (hsound.nodup_due s now).count
  refine ⟨hx.serve s now, hserved.frames, hserved.idle, fun t => ?_, fun t => ?_, fun c hc => ?_⟩
  · rw [hserved.apply_timer (φ := Timer.bare) (fun _ => rfl) (fun _ _ => rfl), hcount]
    split
    · exact Timer.bare_expired _
    · rfl
  · rw [hserved.apply_timer (φ := Timer.firingsOn s limit) (fun _ => rfl) (fun _ _ => rfl), hcount]
    split
    · next ht =>
      rcases hsteady.mem_due.1 ht with ⟨harmed, howner, hdue⟩
      rw [Timer.firings_expired harmed howner (Std.le_trans hdue hle), Nat.add_comm]
    · exact Nat.zero_add _
  · rw [hcalls] at hc
    exact (System.mem_filterMap_call?.1 hc).2

/-- Dispatches at any times up to a limit call timers for firings that they had up to it. -/
theorem serveAll (hx : x.Reachable) (hidle : x.system.dispatching s = false)
    (htimes : ∀ now ∈ times, now ≤ limit) :
    Grouped s limit x (x.serveAll s times).1 (x.serveAll s times).2 := by
  induction times generalizing x with
  | nil => exact refl hx hidle
  | cons now times ih =>
    have hone := serve hx hidle (htimes now List.mem_cons_self)
    exact hone.trans (ih hone.reachable hone.idle fun later hlater =>
      htimes later (List.mem_cons_of_mem now hlater))

/-- A row of dispatches at the limit. -/
theorem drain (hx : x.Reachable) (hidle : x.system.dispatching s = false) (k : Nat) :
    Grouped s limit x (x.drain s limit k).1 (x.drain s limit k).2 := by
  induction k generalizing x with
  | zero => exact refl hx hidle
  | succ k ih =>
    rw [Machine.drain]
    cases x.system.nextDeadline s with
    | none => exact refl hx hidle
    | some deadline =>
      dsimp only
      split
      · have hone := serve hx hidle (Std.le_refl limit)
        exact hone.trans (ih hone.reachable hone.idle)
      · exact refl hx hidle

/-- The calls are as many as the firings that are gone. -/
theorem length_add_firings (h : Grouped s limit x calls y) :
    calls.length + y.system.firings s limit = x.system.firings s limit := by
  have hlength : calls.length = ∑ t, (calls.map Call.timer).count t := by
    have hsum := Multiset.sum_count_eq_card (s := Finset.univ)
      (m := (calls.map Call.timer : Multiset (Fin n))) fun t _ => Finset.mem_univ t
    simpa using hsum.symm
  rw [hlength, System.firings, System.firings, ← Finset.sum_add_distrib]
  exact Finset.sum_congr rfl fun t _ => h.firings t

end Grouped

/-- If a deadline up to the limit is left, a dispatch at the limit makes a call, so that fewer firings
are left. -/
theorem firings_serve_lt (hx : x.Reachable) (hidle : x.system.dispatching s = false)
    (hnow : x.system.nextDeadline s = some now) (hle : now ≤ limit) :
    (x.serve s limit).2.system.firings s limit < x.system.firings s limit := by
  have hsteady : x.system.Steady := hx.steady
  rcases hsteady.exists_mem_due hnow hle with ⟨t, ht⟩
  rw [← hsteady.map_calls, ← (serve_spec hsteady hidle limit).1] at ht
  have hpos := List.length_pos_of_mem ht
  rw [List.length_map] at hpos
  have hsum := (Grouped.serve hx hidle (Std.le_refl limit)).length_add_firings
  omega

/-- Dispatches at the limit come to an end, after no more rounds than firings are left. -/
theorem lt_nextDeadline_drain (hx : x.Reachable) (hidle : x.system.dispatching s = false)
    (hk : x.system.firings s limit ≤ k)
    (hnow : (x.drain s limit k).2.system.nextDeadline s = some now) : limit < now := by
  by_contra hlt
  have hle := Std.not_lt.1 hlt
  -- by induction on the rounds, each of which leaves fewer firings to the others
  induction k generalizing x with
  | zero =>
    have hless := firings_serve_lt hx hidle hnow hle
    omega
  | succ k ih =>
    rw [drain] at hnow
    cases hnext : x.system.nextDeadline s with
    | none =>
      rw [hnext] at hnow
      exact absurd (hnext.symm.trans hnow) (by simp)
    | some deadline =>
      rw [hnext] at hnow
      dsimp only at hnow
      by_cases hdeadline : deadline ≤ limit
      · rw [if_pos hdeadline] at hnow
        have hless := firings_serve_lt hx hidle hnext hdeadline
        have hone := Grouped.serve hx hidle (Std.le_refl limit)
        exact ih hone.reachable hone.idle (by omega) hnow
      · rw [if_neg hdeadline] at hnow
        obtain rfl := Option.some.inj (hnext.symm.trans hnow)
        exact hdeadline hle

/-- When no deadline up to the limit is left, no firing is. -/
theorem firingsOn_eq_zero (hx : x.system.Steady)
    (hdone : ∀ now, x.system.nextDeadline s = some now → limit < now) (t : Fin n) :
    (x.system.timer t).firingsOn s limit = 0 := by
  unfold Timer.firingsOn
  split
  · next harmed =>
    refine Timer.firings_of_lt ?_
    rcases hx with ⟨armed, hsound, -⟩
    have ht : t ∈ armed s := hsound.eq_armedTimers ▸ hsound.mem_armedTimers.2 harmed
    rcases hnext : x.system.nextDeadline s with _ | now
    · rw [(hsound.least s).1.1 hnext] at ht
      cases ht
    · have hle := ((hsound.least s).2 now hnext).2 t ht
      exact Std.lt_of_lt_of_le (hdone now hnext) hle
  · rfl

/-- What becomes of the timers when `s` is served from `x` to `y` up to a limit, by whatever
dispatches, with the calls that these make. -/
structure CaughtUp (s : Fin m) (limit : Timespec) (x : Machine m n) (calls : List (Call n))
    (y : Machine m n) : Prop where
  /-- No deadline up to the limit is left. -/
  ended : ∀ now, y.system.nextDeadline s = some now → limit < now
  /-- There is no pass of the scheduler, as before, and the passes of others are where they were. -/
  idle : y.system.dispatching s = false ∧ y.frames = x.frames
  /-- A timer that was armed on the scheduler is called at its deadline and at all its periods up to
  the limit, once if it has none, and others are not called. -/
  count : ∀ t, (calls.map Call.timer).count t =
    if t ∈ x.system.armedTimers s then (x.system.timer t).firings limit else 0
  /-- The calls are with the callbacks and the arguments that were bound. -/
  call : ∀ c ∈ calls, x.system.call? c.timer = some c
  /-- Still armed are the timers with a deadline after the limit, and the periodic ones that have a
  next deadline which can be represented. -/
  armed : ∀ t, t ∈ y.system.armedTimers s ↔ t ∈ x.system.armedTimers s ∧
    (limit < (x.system.timer t).deadline ∨ (x.system.timer t).isPeriodic = true) ∧
      (x.system.timer t).deadline.nanos +
        (x.system.timer t).firings limit * (x.system.timer t).period.nanos ≤ Timespec.maxNanos
  /-- They are armed for that deadline. -/
  deadline : ∀ t ∈ y.system.armedTimers s, (y.system.timer t).deadline.nanos =
    (x.system.timer t).deadline.nanos +
      (x.system.timer t).firings limit * (x.system.timer t).period.nanos
  /-- Timers that were not armed on the scheduler are left alone, links apart. -/
  others : ∀ t, t ∉ x.system.armedTimers s → (y.system.timer t).bare = (x.system.timer t).bare

namespace Grouped

section Done

variable (h : Grouped s limit x calls y) (hx : x.system.Steady)
  (hdone : ∀ now, y.system.nextDeadline s = some now → limit < now) {t : Fin n}
include h hx hdone

/-- When no deadline up to the limit is left, each timer was called as often as it fires up to
it. -/
theorem count_calls (t : Fin n) : (calls.map Call.timer).count t =
    if t ∈ x.system.armedTimers s then (x.system.timer t).firings limit else 0 := by
  have hsum := h.firings t
  rw [firingsOn_eq_zero h.reachable.steady hdone, Nat.add_zero] at hsum
  rw [hsum, Timer.firingsOn]
  exact if_congr hx.mem_armedTimers.symm rfl rfl

/-- When no deadline up to the limit is left, a timer that was armed is as after its expiries up to
it. -/
theorem bare_of_mem (ht : t ∈ x.system.armedTimers s) :
    (y.system.timer t).bare = (x.system.timer t).bare.after limit := by
  rw [h.bare, h.count_calls hx hdone, if_pos ht]
  rfl

/-- A timer that was not armed on the scheduler is as before, but for links. -/
theorem bare_of_notMem (ht : t ∉ x.system.armedTimers s) :
    (y.system.timer t).bare = (x.system.timer t).bare := by
  rw [h.bare, h.count_calls hx hdone, if_neg ht, Function.iterate_zero_apply]

/-- When no deadline up to the limit is left, the list has those timers that are armed after their
expiries. -/
theorem mem_armedTimers_iff :
    t ∈ y.system.armedTimers s ↔
      t ∈ x.system.armedTimers s ∧ ((x.system.timer t).bare.after limit).armed = true := by
  have hy : y.system.Steady := h.reachable.steady
  have howner : (y.system.timer t).owner = (x.system.timer t).owner :=
    h.apply_timer (fun _ => rfl) (fun _ _ _ => rfl) t
  by_cases ht : t ∈ x.system.armedTimers s
  · have hmark : (y.system.timer t).armed = ((x.system.timer t).bare.after limit).armed :=
      (congrArg Timer.armed (h.bare_of_mem hx hdone ht) :)
    rw [hy.mem_armedTimers, howner, and_iff_left (hx.mem_armedTimers.1 ht).2, hmark]
    exact (and_iff_right ht).symm
  · have hmark : (y.system.timer t).armed = (x.system.timer t).armed :=
      (congrArg Timer.armed (h.bare_of_notMem hx hdone ht) :)
    rw [hy.mem_armedTimers, hmark, howner, ← hx.mem_armedTimers]
    exact iff_of_false ht fun hboth => ht hboth.1

/-- Dispatches that leave no deadline up to the limit have caught up, however they were grouped. -/
theorem caughtUp : CaughtUp s limit x calls y where
  ended := hdone
  idle := ⟨h.idle, h.frames⟩
  count := h.count_calls hx hdone
  call := h.call
  armed t := by
    rw [h.mem_armedTimers_iff hx hdone]
    refine and_congr_right fun ht => ?_
    exact Timer.armed_after (c := (x.system.timer t).bare) (hx.mem_armedTimers.1 ht).1
  deadline t ht := by
    rcases (h.mem_armedTimers_iff hx hdone).1 ht with ⟨hbefore, hafter⟩
    have hdeadline := congrArg (fun c => c.deadline.nanos) (h.bare_of_mem hx hdone hbefore)
    exact hdeadline.trans (Timer.deadline_after (c := (x.system.timer t).bare)
      (hx.mem_armedTimers.1 hbefore).1 hafter)
  others t := h.bare_of_notMem hx hdone

end Done

end Grouped

/-- Firing counts do not depend on the grouping of dispatches.  Whatever one-shot and periodic timers
are armed on a scheduler without a pass, if their callbacks do nothing but return: after any
dispatches at times up to a limit, dispatches at the limit leave at last no deadline up to it.  By
then each timer was called as often as it expires up to the limit, and it is armed for its next
deadline or not at all; neither depends on what these dispatches were. -/
theorem Reachable.caught_up (hx : x.Reachable) (hidle : x.system.dispatching s = false)
    (htimes : ∀ now ∈ times, now ≤ limit) :
    ∃ k, ∀ j, k ≤ j →
      let served := x.serveAll s times
      let drained := served.2.drain s limit j
      CaughtUp s limit x (served.1 ++ drained.1) drained.2 := by
  have hserved := Grouped.serveAll hx hidle htimes
  refine ⟨(x.serveAll s times).2.system.firings s limit, fun j hj => ?_⟩
  have hdrained := hserved.trans (.drain hserved.reachable hserved.idle j)
  exact hdrained.caughtUp hx.steady fun now hnow =>
    lt_nextDeadline_drain hserved.reachable hserved.idle hj hnow

/-- A late dispatch calls both timers once, and one that goes back in time calls none; two firings are
left to the dispatches at the limit. -/
theorem caught_up_ticking :
    let x : Machine 1 2 := ticking 0 0 1
    x.Reachable ∧ x.system.dispatching 0 = false ∧
      (x.serveAll 0 [.new 3 0, .new 1 0]).1.map Call.timer = [1, 0] ∧
      ∃ k, ∀ j, k ≤ j →
        let served := x.serveAll 0 [.new 3 0, .new 1 0]
        let drained := served.2.drain 0 (.new 3 0) j
        ((served.1 ++ drained.1).map Call.timer).count 0 = 1 ∧
          ((served.1 ++ drained.1).map Call.timer).count 1 = 3 := by
  intro x
  have hx : x.Reachable := ⟨_, _, rfl⟩
  have hidle : x.system.dispatching 0 = false := by decide
  have htimes : ∀ now ∈ [Timespec.new 3 0, .new 1 0], now ≤ .new 3 0 := by decide
  refine ⟨hx, hidle, by decide, ?_⟩
  rcases hx.caught_up hidle htimes with ⟨k, hk⟩
  refine ⟨k, fun j hj => ⟨?_, ?_⟩⟩
  · exact ((hk j hj).count 0).trans (by decide)
  · exact ((hk j hj).count 1).trans (by decide)

end Machine
end SoftTimer
