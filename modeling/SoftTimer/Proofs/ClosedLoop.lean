import Mathlib.Algebra.Order.BigOperators.Group.Finset
import SoftTimer.Proofs.Insertion
import SoftTimer.Proofs.Isolation

/-!
# The closed loop with the hardware

A driver dispatches a scheduler whenever its hardware timeout is due, at the very time for which it
was set.  If the callbacks do nothing but return, the loop comes to an end at every time limit, and
until then each timer was called exactly at its deadline and then once every period.

Main definitions:

- `Machine.serve`: a dispatch with callbacks that return at once.
- `Machine.loop`: the loop of the driver, up to a limit.
- `System.Expires`: the calls that an ideal timer makes up to a limit.

Main results:

- Theorem `Machine.serve_spec`: a dispatch calls the timers that are due, and nothing else changes
  but that these are taken out and rearmed.
- Theorem `Machine.Served.expires_iff`: what a dispatch calls and what is left to expire after it.
- Theorem `Machine.Reachable.closed_loop`: the loop ends, and its calls are those of ideal timers.
-/

namespace SoftTimer

variable {m n : Nat}

/-! ## Dispatches with callbacks that return at once -/

/-- A call of a timer. -/
structure Call (n : Nat) where
  /-- The timer that is called. -/
  timer : Fin n
  /-- Its callback. -/
  callback : CallbackId
  /-- The argument for the callback. -/
  arg : CallbackArg
deriving DecidableEq

namespace Machine

/-- Return from callbacks at once as long as they are called, at most `k` of them, and note the
calls. -/
def returning : (k : Nat) → Reply n × Machine m n → List (Call n) × Machine m n
  | k + 1, (.calling callback t arg, x) =>
    let (calls, y) := returning k x.ret
    (⟨t, callback, arg⟩ :: calls, y)
  | _, (_, x) => ([], x)

/-- Dispatch a scheduler, with callbacks that return at once.  A pass calls at most `n` timers. -/
def serve (x : Machine m n) (s : Fin m) (now : Timespec) : List (Call n) × Machine m n :=
  returning n (x.request s (.dispatch now))

/-- As long as the deadline that is pending for `s` is not after `limit`, dispatch `s` at that
deadline, at most `k` times.  The calls are noted with the time of their dispatch. -/
def loop (s : Fin m) (limit : Timespec) :
    (k : Nat) → Machine m n → List (Timespec × Call n) × Machine m n
  | 0, x => ([], x)
  | k + 1, x =>
    match (x.system.timeout s).pending with
    | some now =>
      if now ≤ limit then
        let (calls, y) := x.serve s now
        let (more, z) := loop s limit k y
        (calls.map (fun c => (now, c)) ++ more, z)
      else ([], x)
    | none => ([], x)

end Machine

namespace System

variable {sys : System m n} {s : Fin m} {t : Fin n} {l b : List (Fin n)}

/-- The call of a timer, if a callback is bound to it. -/
def call? (sys : System m n) (t : Fin n) : Option (Call n) :=
  (sys.timer t).callback.map fun callback => ⟨t, callback, (sys.timer t).arg⟩

/-- Every timer of a list leads to the next one, and the last one to nothing. -/
def Chained (sys : System m n) (l : List (Fin n)) : Prop :=
  ∀ a t b, l = a ++ t :: b → (sys.timer t).firedNext = b.head?

/-- Coming to the first timer of a chain leaves the rest chained. -/
theorem Chained.visit (h : sys.Chained (t :: b)) (hnd : (t :: b).Nodup) (s : Fin m) :
    (sys.visit s t).2.Chained b := by
  intro a u c hcut
  have hut : u ≠ t := by
    rintro rfl
    exact (List.nodup_cons.1 hnd).1 (hcut ▸ List.mem_append_right a List.mem_cons_self)
  rw [timer_visit, if_neg hut]
  exact h (t :: a) u c (by rw [hcut, List.cons_append])

/-- Coming to a timer does not change what calling one would be. -/
theorem call?_visit (sys : System m n) (s : Fin m) (t u : Fin n) :
    (sys.visit s t).2.call? u = sys.call? u := by
  rw [call?, call?, apply_timer_visit sys s t u (φ := Timer.callback) (by intro _; rfl),
    apply_timer_visit sys s t u (φ := Timer.arg) (by intro _; rfl)]

end System

namespace Machine

variable {x y z : Machine m n} {s : Fin m} {now : Timespec} {t : Fin n} {l : List (Fin n)} {k : Nat}

/-- Callbacks that return at once lead from a reachable machine to a reachable one. -/
theorem Reachable.returning {r : Reply n × Machine m n} (h : r.2.Reachable) :
    (returning k r).2.Reachable := by
  induction k generalizing r with
  | zero => exact h
  | succ k ih =>
    rcases r with ⟨reply, x⟩
    cases reply <;> try exact h
    exact ih (h.step .ret)

/-- Dispatching with such callbacks leads from a reachable machine to a reachable one. -/
theorem Reachable.serve (h : x.Reachable) (s : Fin m) (now : Timespec) :
    (x.serve s now).2.Reachable :=
  Reachable.returning (h.step (.request s (.dispatch now)))

/-- A pass that has no timer to come to ends. -/
theorem proceed_none (x : Machine m n) (s : Fin m) (now : Timespec) :
    x.proceed s now none = (.dispatched, { x with system := x.system.finish s now }) :=
  rfl

/-- The machine when the pass of `s` came to a timer, and its callback returned at once. -/
def called (x : Machine m n) (s : Fin m) (t : Fin n) (callback : CallbackId) : Machine m n :=
  { x with system := (x.system.visit s t).2.emit (.called s t callback (x.system.timer t).arg) }

/-- A pass that comes to a timer with a callback calls it. -/
theorem proceed_some {callback : CallbackId} (h : (x.system.timer t).callback = some callback) :
    x.proceed s now (some t) = (.calling callback t (x.system.timer t).arg,
      { system := (x.called s t callback).system
        frames := ⟨s, now, t, (x.system.timer t).firedNext⟩ :: x.frames }) := by
  simp [proceed, walk, System.visit_fst, h, called]

/-- From `x` to `y` the pass of `s` came to its end.  Of the timers nothing changed but the links of
passes. -/
structure Ended (s : Fin m) (x y : Machine m n) : Prop where
  frames : y.frames = x.frames
  dispatching : y.system.dispatching = Function.update x.system.dispatching s false
  timer : ∀ u, y.system.timer u =
    { x.system.timer u with firedNext := (y.system.timer u).firedNext }

/-- A pass that ends after a call ends as well if it is looked at from before the call. -/
theorem Ended.of_called {callback : CallbackId} (h : Ended s (x.called s t callback) y) :
    Ended s x y := by
  refine ⟨h.frames, h.dispatching.trans ?_, fun u => (h.timer u).trans ?_⟩
  · exact congrArg (Function.update · s false) (System.dispatching_visit x.system s t)
  · have hvisit : (x.called s t callback).system.timer u =
        if u = t then { x.system.timer t with firedNext := none } else x.system.timer u :=
      System.timer_visit x.system s t u
    rw [hvisit]
    split
    · next hut => rw [hut]
    · rfl

/-- A pass whose callbacks return at once comes to all timers of its chain, and calls them. -/
theorem returning_proceed (now : Timespec) (hchain : x.system.Chained l) (hnd : l.Nodup)
    (hbound : ∀ t ∈ l, ∃ callback, (x.system.timer t).callback = some callback)
    (hk : l.length ≤ k) :
    (returning k (x.proceed s now l.head?)).1 = l.filterMap x.system.call? ∧
      Ended s x (returning k (x.proceed s now l.head?)).2 := by
  induction l generalizing x k with
  | nil =>
    rw [List.head?_nil, proceed_none]
    have hreturn : ∀ y : Machine m n, returning k (.dispatched, y) = ([], y) := by
      intro y
      cases k <;> rfl
    rw [hreturn]
    refine ⟨rfl, rfl, System.dispatching_finish x.system s now, fun u => ?_⟩
    have htimer : (x.system.finish s now).timer u = x.system.timer u :=
      congrArg (Table.get · u) (System.timers_finish x.system s now)
    exact htimer.trans (congrArg (fun c : Timer m n => { x.system.timer u with
      firedNext := c.firedNext }) htimer).symm
  | cons t l ih =>
    obtain ⟨k, rfl⟩ : ∃ j, k = j + 1 := ⟨k - 1, by simp at hk; omega⟩
    rcases hbound t List.mem_cons_self with ⟨callback, hcallback⟩
    have hcall : x.system.call? t = some ⟨t, callback, (x.system.timer t).arg⟩ := by
      rw [System.call?, hcallback, Option.map_some]
    have hrest := ih (k := k) (x := x.called s t callback) (hchain.visit hnd s)
      (List.nodup_cons.1 hnd).2 (fun u hu => ?_) (by simpa using hk)
    · rw [List.head?_cons, proceed_some hcallback, hchain [] t l rfl,
        List.filterMap_cons_some hcall]
      refine ⟨congrArg (List.cons _) (hrest.1.trans ?_), hrest.2.of_called⟩
      exact List.filterMap_congr fun u _ => System.call?_visit x.system s t u
    · have hsame : ((x.system.visit s t).2.timer u).callback = (x.system.timer u).callback :=
        System.apply_timer_visit x.system s t u (φ := Timer.callback) (by intro _; rfl)
      exact hsame ▸ hbound u (List.mem_cons_of_mem t hu)

/-- From `x` to `y` a dispatch of `s` served the timers that were due: they were taken out, and
rearmed if they have a next deadline.  Links apart, nothing else changed in the timers. -/
structure Served (s : Fin m) (now : Timespec) (x y : Machine m n) : Prop where
  frames : y.frames = x.frames
  idle : y.system.dispatching s = false
  body : ∀ u, (y.system.timer u).body =
    { (if u ∈ x.system.due s now then (x.system.timer u).body.expired
        else (x.system.timer u).body) with
      firedNext := (y.system.timer u).firedNext }

/-- A dispatch whose callbacks return at once calls the timers that are due, in the order of the
list. -/
theorem serve_spec (hx : x.system.Steady) (hidle : x.system.dispatching s = false)
    (now : Timespec) :
    (x.serve s now).1 = (x.system.due s now).filterMap x.system.call? ∧
      Served s now x (x.serve s now).2 := by
  rcases hx with ⟨armed, hsound, -⟩
  rcases hsound.begin hidle now with ⟨hfirst, hbegun⟩
  have hserviced := hsound.serviced_begin hidle now
  have hsub : x.system.due s now ⊆ armed s := by
    rw [hsound.due_eq]
    exact List.takeWhile_subset _
  have hnd := hsound.nodup_due s now
  rw [← hsound.due_eq] at hfirst hbegun hserviced
  rw [serve, request_dispatch_of_admitted hfirst]
  have hpass := returning_proceed (x := { x with system := (x.system.begin s now).2 }) (s := s)
    (k := n) now hbegun.chained hnd (fun t ht => ?_) (by simpa using hnd.length_le_card)
  · refine ⟨hpass.1.trans (List.filterMap_congr fun u _ => ?_), hpass.2.frames, ?_, fun u => ?_⟩
    · have harg : ((x.system.begin s now).2.timer u).arg = (x.system.timer u).arg :=
        (congrArg Timer.arg (hbegun.lasting u) :)
      rw [System.call?, System.call?, hbegun.callback, harg]
    · rw [hpass.2.dispatching, Function.update_self]
    · have hbody := congrArg Timer.body (hpass.2.timer u)
      have hlinked := congrArg (fun c : Timer m n => { c with firedNext :=
        ((returning n (proceed { x with system := (x.system.begin s now).2 } s now
          (x.system.due s now).head?)).2.system.timer u).firedNext }) (hserviced.body u)
      refine hbody.trans (hlinked.trans ?_)
      by_cases hu : u ∈ x.system.due s now
      · rw [if_pos hu, if_pos hu]
      · rw [if_neg hu, if_neg hu]
  · rw [hbegun.callback]
    exact (hsound.settled t).bound (hsound.armed_of_mem (hsub ht))

end Machine

/-! ## Ideal timers -/

namespace Timer

variable {t : Timer m n} {s : Fin m} {time limit : Timespec} {c : Call n}

/-- An ideal timer expires at its deadline and then once every period; without a period it expires
once. -/
def ExpiresAt (t : Timer m n) (time : Timespec) : Prop :=
  ∃ k, time.nanos = t.deadline.nanos + k * t.period.nanos

/-- The timer is armed on `s`, and when it expires at a time it makes a call. -/
def Fires (s : Fin m) (time : Timespec) (c : Call n) (t : Timer m n) : Prop :=
  t.armed = true ∧ t.owner = some s ∧ t.ExpiresAt time ∧ t.callback = some c.callback ∧
    t.arg = c.arg

/-- An ideal timer does not expire before its deadline. -/
theorem ExpiresAt.deadline_le (h : t.ExpiresAt time) : t.deadline ≤ time := by
  rcases h with ⟨k, hk⟩
  rw [Timespec.le_iff_nanos_le, hk]
  exact Nat.le_add_right _ _

/-- The next deadline of a timer is after its present one. -/
theorem lt_of_renewal? {deadline : Timespec} (h : t.renewal? = some deadline) :
    t.deadline < deadline := by
  rcases renewal?_eq_some_iff.1 h with ⟨hpos, heq⟩
  rw [Timespec.lt_iff_nanos_lt]
  omega

/-- After its deadline a timer expires when it would expire with its next deadline, if it has
one. -/
theorem expiresAt_iff :
    t.ExpiresAt time ↔ time = t.deadline ∨
      ∃ deadline, t.renewal? = some deadline ∧ { t with deadline }.ExpiresAt time := by
  constructor
  · rintro ⟨k, hk⟩
    rcases Nat.eq_zero_or_pos (k * t.period.nanos) with hzero | hpos
    · exact .inl (Timespec.nanos_inj.1 (by omega))
    · obtain ⟨k, rfl⟩ : ∃ j, k = j + 1 := ⟨k - 1, by have := Nat.pos_of_mul_pos_right hpos; omega⟩
      rw [Nat.add_mul, Nat.one_mul] at hk
      have hlt := time.nanos_lt
      obtain ⟨deadline, heq⟩ : ∃ d : Timespec, d.nanos = t.deadline.nanos + t.period.nanos :=
        Timespec.exists_nanos_eq (by omega)
      refine .inr ⟨deadline, renewal?_eq_some_iff.2 ⟨Nat.pos_of_mul_pos_left hpos, heq⟩, k, ?_⟩
      show time.nanos = deadline.nanos + k * t.period.nanos
      omega
  · rintro (rfl | ⟨deadline, hrenewal, k, hk⟩)
    · exact ⟨0, by omega⟩
    · have heq := (renewal?_eq_some_iff.1 hrenewal).2
      have hsum : time.nanos = deadline.nanos + k * t.period.nanos := hk
      refine ⟨k + 1, ?_⟩
      rw [Nat.add_mul, Nat.one_mul]
      omega

/-- The calls of an armed timer are the one at its deadline and those after a pass took it out. -/
theorem fires_iff_expired (harmed : t.armed = true) (howner : t.owner = some s) :
    t.Fires s time c ↔ time = t.deadline ∧ t.callback = some c.callback ∧ t.arg = c.arg ∨
      t.expired.Fires s time c := by
  cases hrenewal : t.renewal? with
  | none =>
    have hexpires : t.ExpiresAt time ↔ time = t.deadline := by
      rw [expiresAt_iff]
      simp [hrenewal]
    rw [expired_of_none hrenewal]
    constructor
    · rintro ⟨-, -, htime, hcallback, harg⟩
      exact .inl ⟨hexpires.1 htime, hcallback, harg⟩
    · rintro (⟨htime, hcallback, harg⟩ | ⟨hfalse, -⟩)
      · exact ⟨harmed, howner, hexpires.2 htime, hcallback, harg⟩
      · cases hfalse
  | some deadline =>
    have hexpires : t.ExpiresAt time ↔
        time = t.deadline ∨ { t with deadline }.ExpiresAt time := by
      rw [expiresAt_iff]
      simp [hrenewal]
    rw [expired_of_some hrenewal]
    constructor
    · rintro ⟨-, -, htime, hcallback, harg⟩
      rcases hexpires.1 htime with htime | htime
      · exact .inl ⟨htime, hcallback, harg⟩
      · exact .inr ⟨rfl, howner, htime, hcallback, harg⟩
    · rintro (⟨htime, hcallback, harg⟩ | ⟨-, -, htime, hcallback, harg⟩)
      · exact ⟨harmed, howner, hexpires.2 (.inl htime), hcallback, harg⟩
      · exact ⟨harmed, howner, hexpires.2 (.inr htime), hcallback, harg⟩

/-- Those after a pass took it out come later. -/
theorem lt_of_fires_expired (h : t.expired.Fires s time c) : t.deadline < time := by
  cases hrenewal : t.renewal? with
  | none =>
    rw [expired_of_none hrenewal] at h
    cases h.1
  | some deadline =>
    rw [expired_of_some hrenewal] at h
    have hlt := Timespec.lt_iff_nanos_lt.1 (lt_of_renewal? hrenewal)
    have hle : deadline.nanos ≤ time.nanos := Timespec.le_iff_nanos_le.1 h.2.2.1.deadline_le
    exact Timespec.lt_iff_nanos_lt.2 (Nat.lt_of_lt_of_le hlt hle)

/-- How much time is left for a timer armed on `s` up to a limit. -/
def remaining (s : Fin m) (limit : Timespec) (t : Timer m n) : Nat :=
  if t.armed = true ∧ t.owner = some s then limit.nanos + 1 - t.deadline.nanos else 0

/-- Expiring does not depend on links. -/
theorem body_expired (t : Timer m n) : t.body.expired = t.expired.body := by
  have hbody : t.body.renewal? = t.renewal? := rfl
  cases hrenewal : t.renewal? with
  | none => rw [expired_of_none hrenewal, expired_of_none (hbody.trans hrenewal), body, body]
  | some deadline =>
    rw [expired_of_some hrenewal, expired_of_some (hbody.trans hrenewal), body, body]

/-- Every expiry up to the limit takes some of it away. -/
theorem remaining_expired_lt (harmed : t.armed = true) (howner : t.owner = some s)
    (hle : t.deadline ≤ limit) : t.expired.remaining s limit < t.remaining s limit := by
  rw [Timespec.le_iff_nanos_le] at hle
  have hbefore : t.remaining s limit = limit.nanos + 1 - t.deadline.nanos :=
    if_pos ⟨harmed, howner⟩
  cases hrenewal : t.renewal? with
  | none =>
    have hafter : t.expired.remaining s limit = 0 := by
      rw [expired_of_none hrenewal, remaining, if_neg (by simp)]
    omega
  | some deadline =>
    have hlt := Timespec.lt_iff_nanos_lt.1 (lt_of_renewal? hrenewal)
    have hafter : t.expired.remaining s limit = limit.nanos + 1 - deadline.nanos := by
      rw [expired_of_some hrenewal]
      exact if_pos ⟨rfl, howner⟩
    omega

end Timer

/-! ## One round of the loop -/

namespace System

variable {sys : System m n} {s : Fin m} {limit time now : Timespec} {c : Call n}

/-- A timer armed on `s` makes a call at a time up to a limit, if it is an ideal timer. -/
structure Expires (sys : System m n) (s : Fin m) (limit time : Timespec) (c : Call n) : Prop where
  le : time ≤ limit
  armed : c.timer ∈ sys.armedTimers s
  expires : (sys.timer c.timer).ExpiresAt time
  call : sys.call? c.timer = some c

/-- The call of a timer is with the callback and the argument bound to it. -/
theorem call?_eq_some_iff :
    sys.call? c.timer = some c ↔
      (sys.timer c.timer).callback = some c.callback ∧ (sys.timer c.timer).arg = c.arg := by
  rcases c with ⟨t, callback, arg⟩
  simp only [call?, Option.map_eq_some_iff]
  constructor
  · rintro ⟨_, hcallback, heq⟩
    cases heq
    exact ⟨hcallback, rfl⟩
  · rintro ⟨hcallback, rfl⟩
    exact ⟨callback, hcallback, rfl⟩

/-- A call is that of the timer it names. -/
theorem timer_of_call? {t : Fin n} (h : sys.call? t = some c) : c.timer = t := by
  rcases Option.map_eq_some_iff.1 h with ⟨callback, -, rfl⟩
  rfl

/-- In a steady system the timers on a list are those that are armed and belong to its scheduler. -/
theorem Steady.mem_armedTimers (h : sys.Steady) {t : Fin n} :
    t ∈ sys.armedTimers s ↔ (sys.timer t).armed = true ∧ (sys.timer t).owner = some s := by
  rcases h with ⟨armed, hsound, -⟩
  exact hsound.mem_armedTimers

/-- To every armed timer a callback is bound. -/
theorem Steady.exists_call? (h : sys.Steady) {t : Fin n} (ht : t ∈ sys.armedTimers s) :
    ∃ c, c.timer = t ∧ sys.call? t = some c := by
  rcases h with ⟨armed, hsound, -⟩
  rcases (hsound.settled t).bound (hsound.mem_armedTimers.1 ht).1 with ⟨callback, hcallback⟩
  exact ⟨⟨t, callback, (sys.timer t).arg⟩, rfl, by rw [call?, hcallback, Option.map_some]⟩

/-- In a steady system only the timer of a call decides whether it is due, for every armed timer is
bound. -/
theorem Steady.expires_iff (h : sys.Steady) :
    sys.Expires s limit time c ↔ time ≤ limit ∧ (sys.timer c.timer).Fires s time c := by
  constructor
  · rintro ⟨hle, harmed, hexpires, hcall⟩
    rcases h.mem_armedTimers.1 harmed with ⟨hmark, howner⟩
    rcases call?_eq_some_iff.1 hcall with ⟨hcallback, harg⟩
    exact ⟨hle, hmark, howner, hexpires, hcallback, harg⟩
  · rintro ⟨hle, hmark, howner, hexpires, hcallback, harg⟩
    exact ⟨hle, h.mem_armedTimers.2 ⟨hmark, howner⟩, hexpires,
      call?_eq_some_iff.2 ⟨hcallback, harg⟩⟩

/-- The calls of some timers are those of the timers among them that are bound. -/
theorem mem_filterMap_call? {l : List (Fin n)} :
    c ∈ l.filterMap sys.call? ↔ c.timer ∈ l ∧ sys.call? c.timer = some c := by
  rw [List.mem_filterMap]
  constructor
  · rintro ⟨t, ht, hcall⟩
    obtain rfl := timer_of_call? hcall
    exact ⟨ht, hcall⟩
  · rintro ⟨ht, hcall⟩
    exact ⟨c.timer, ht, hcall⟩

/-- What is due at the earliest deadline is due at that very time. -/
theorem Steady.deadline_of_mem_due (h : sys.Steady) (hnow : sys.nextDeadline s = some now)
    {t : Fin n} (ht : t ∈ sys.due s now) : (sys.timer t).deadline = now := by
  rcases h with ⟨armed, hsound, -⟩
  rw [due, List.mem_filter, decide_eq_true_eq, ← hsound.eq_armedTimers] at ht
  exact Std.le_antisymm ht.2 (((hsound.least s).2 now hnow).2 t ht.1)

/-- How much time is left for the timers armed on `s` up to a limit. -/
def remaining (sys : System m n) (s : Fin m) (limit : Timespec) : Nat :=
  ∑ t, (sys.timer t).remaining s limit

end System

namespace Machine

variable {x y z : Machine m n} {s : Fin m} {limit now time : Timespec} {c : Call n} {u : Fin n}

namespace Served

/-- A dispatch changes a reading that does not depend on links as the expiry of the timer does. -/
theorem apply_timer {β : Sort*} {φ : Timer m n → β} (hbody : ∀ c, φ c.body = φ c)
    (hlink : ∀ c next, φ { c with firedNext := next } = φ c) (h : Served s now x y) (u : Fin n) :
    φ (y.system.timer u) = if u ∈ x.system.due s now then φ (x.system.timer u).expired
      else φ (x.system.timer u) := by
  rw [← hbody, h.body, hlink]
  split
  · rw [Timer.body_expired, hbody]
  · rw [hbody]

/-- After a dispatch a timer that was due fires as it does after its expiry, and any other one as
before. -/
theorem fires_iff (h : Served s now x y) (time : Timespec) (c : Call n) (u : Fin n) :
    (y.system.timer u).Fires s time c ↔
      if u ∈ x.system.due s now then (x.system.timer u).expired.Fires s time c
      else (x.system.timer u).Fires s time c :=
  iff_of_eq (h.apply_timer (φ := Timer.Fires s time c) (fun _ => rfl) (fun _ _ => rfl) u)

/-- What is left to expire are the calls of the dispatch, which come at its time, and what is left
after it. -/
theorem expires_iff (h : Served s now x y) (hx : x.system.Steady) (hy : y.system.Steady)
    (hnow : x.system.nextDeadline s = some now) (hle : now ≤ limit) :
    x.system.Expires s limit time c ↔
      time = now ∧ c ∈ (x.system.due s now).filterMap x.system.call? ∨
        y.system.Expires s limit time c := by
  rw [hx.expires_iff, hy.expires_iff, h.fires_iff, System.mem_filterMap_call?,
    System.call?_eq_some_iff]
  by_cases hu : c.timer ∈ x.system.due s now
  · have harmed := hx.mem_armedTimers.1 (List.mem_filter.1 hu).1
    rw [if_pos hu, Timer.fires_iff_expired harmed.1 harmed.2, hx.deadline_of_mem_due hnow hu]
    constructor
    · rintro ⟨htime, ⟨heq, hcall⟩ | hlater⟩
      · exact .inl ⟨heq, hu, hcall⟩
      · exact .inr ⟨htime, hlater⟩
    · rintro (⟨rfl, -, hcall⟩ | ⟨htime, hlater⟩)
      · exact ⟨hle, .inl ⟨rfl, hcall⟩⟩
      · exact ⟨htime, .inr hlater⟩
  · simp [hu]

/-- What is left after a dispatch comes later. -/
theorem lt_of_expires (h : Served s now x y) (hx : x.system.Steady) (hy : y.system.Steady)
    (hnow : x.system.nextDeadline s = some now) (hexpires : y.system.Expires s limit time c) :
    now < time := by
  have hfires := (h.fires_iff time c c.timer).1 (hy.expires_iff.1 hexpires).2
  by_cases hu : c.timer ∈ x.system.due s now
  · rw [if_pos hu] at hfires
    rw [← hx.deadline_of_mem_due hnow hu]
    exact Timer.lt_of_fires_expired hfires
  · rw [if_neg hu] at hfires
    have hmem := hx.mem_armedTimers.2 ⟨hfires.1, hfires.2.1⟩
    have hafter : ¬ (x.system.timer c.timer).deadline ≤ now := fun hle =>
      hu (List.mem_filter.2 ⟨hmem, decide_eq_true hle⟩)
    have hle := hfires.2.2.1.deadline_le
    rw [Timespec.le_iff_nanos_le] at hafter hle
    rw [Timespec.lt_iff_nanos_lt]
    omega

/-- A dispatch at the earliest deadline takes some of the remaining time away. -/
theorem remaining_lt (h : Served s now x y) (hx : x.system.Steady)
    (hnow : x.system.nextDeadline s = some now) (hle : now ≤ limit) :
    y.system.remaining s limit < x.system.remaining s limit := by
  have hremaining := h.apply_timer (φ := Timer.remaining s limit) (fun _ => rfl) (fun _ _ => rfl)
  have hless : ∀ u ∈ x.system.due s now,
      (y.system.timer u).remaining s limit < (x.system.timer u).remaining s limit := by
    intro u hu
    have harmed := hx.mem_armedTimers.1 (List.mem_filter.1 hu).1
    rw [hremaining, if_pos hu]
    exact Timer.remaining_expired_lt harmed.1 harmed.2 (hx.deadline_of_mem_due hnow hu ▸ hle)
  obtain ⟨t, ht⟩ : ∃ t, t ∈ x.system.due s now := by
    rcases hx with ⟨armed, hsound, -⟩
    rcases ((hsound.least s).2 now hnow).1 with ⟨t, ht, hdeadline⟩
    refine ⟨t, List.mem_filter.2 ⟨hsound.eq_armedTimers ▸ ht, decide_eq_true ?_⟩⟩
    exact hdeadline ▸ Std.le_refl _
  refine Finset.sum_lt_sum (fun u _ => ?_) ⟨t, Finset.mem_univ t, hless t ht⟩
  by_cases hu : u ∈ x.system.due s now
  · exact Nat.le_of_lt (hless u hu)
  · rw [hremaining, if_neg hu]

end Served

/-! ## The loop -/

/-- The loop of the driver led from `x` to `y`, with the calls `firings`: no deadline up to the
limit is left, and until then the calls were those of ideal timers. -/
structure Looped (s : Fin m) (limit : Timespec) (x : Machine m n)
    (firings : List (Timespec × Call n)) (y : Machine m n) : Prop where
  frames : y.frames = x.frames
  idle : y.system.dispatching s = false
  ended : ∀ now, y.system.nextDeadline s = some now → ¬ now ≤ limit
  done : ∀ t ∈ y.system.armedTimers s, ¬ (y.system.timer t).deadline ≤ limit
  pending : (y.system.timeout s).pending = y.system.nextDeadline s
  nodup : firings.Nodup
  ascending : firings.Pairwise fun a b => a.1 ≤ b.1
  mem_iff : ∀ time c, (time, c) ∈ firings ↔ x.system.Expires s limit time c

/-- When no deadline up to the limit is left, nothing expires. -/
theorem Looped.nil (hx : x.system.Steady) (hidle : x.system.dispatching s = false)
    (hdone : ∀ now, x.system.nextDeadline s = some now → ¬ now ≤ limit) :
    Looped s limit x [] x := by
  rcases hx with ⟨armed, hsound, hfollows⟩
  have hlate : ∀ t ∈ x.system.armedTimers s, ¬ (x.system.timer t).deadline ≤ limit := by
    intro t ht hle
    rw [← hsound.eq_armedTimers] at ht
    rcases hnext : x.system.nextDeadline s with _ | now
    · rw [(hsound.least s).1.1 hnext] at ht
      cases ht
    · exact hdone now hnext (Std.le_trans (((hsound.least s).2 now hnext).2 t ht) hle)
  refine ⟨rfl, hidle, hdone, hlate, hfollows s hidle, List.nodup_nil, List.Pairwise.nil,
    fun time c => iff_of_false List.not_mem_nil ?_⟩
  rintro ⟨hle, harmed, hexpires, -⟩
  exact hlate _ harmed (Std.le_trans hexpires.deadline_le hle)

/-- A dispatch at the earliest deadline and a loop after it make up a loop. -/
theorem Looped.cons {firings : List (Timespec × Call n)} (hserved : Served s now x y)
    (hx : x.system.Steady) (hy : y.system.Steady) (hnow : x.system.nextDeadline s = some now)
    (hle : now ≤ limit) (h : Looped s limit y firings z) :
    Looped s limit x
      (((x.system.due s now).filterMap x.system.call?).map (fun c => (now, c)) ++ firings) z := by
  have hdue : (x.system.due s now).Nodup := by
    rcases hx with ⟨armed, hsound, -⟩
    exact hsound.nodup_due s now
  have hcalls : ((x.system.due s now).filterMap x.system.call?).Nodup :=
    hdue.filterMap fun t u c ht hu =>
      (System.timer_of_call? ht).symm.trans (System.timer_of_call? hu)
  have hlater : ∀ f ∈ firings, now < f.1 := fun f hf =>
    hserved.lt_of_expires hx hy hnow ((h.mem_iff f.1 f.2).1 hf)
  have hfirst : ∀ {f : Timespec × Call n},
      f ∈ ((x.system.due s now).filterMap x.system.call?).map (fun c => (now, c)) → f.1 = now := by
    intro f hf
    rcases List.mem_map.1 hf with ⟨c, -, rfl⟩
    rfl
  refine ⟨h.frames.trans hserved.frames, h.idle, h.ended, h.done, h.pending, ?_, ?_,
    fun time c => ?_⟩
  · refine List.nodup_append.2 ⟨hcalls.map fun c d heq => (Prod.mk.inj heq).2, h.nodup, ?_⟩
    rintro f hf g hg rfl
    have hlt := Timespec.lt_iff_nanos_lt.1 (hlater f hg)
    rw [hfirst hf] at hlt
    exact Nat.lt_irrefl _ hlt
  · refine List.pairwise_append.2 ⟨?_, h.ascending, fun f hf g hg => ?_⟩
    · exact List.pairwise_map.2 (List.pairwise_of_forall fun _ _ => Std.le_refl now)
    · have hlt := Timespec.lt_iff_nanos_lt.1 (hlater g hg)
      rw [hfirst hf, Timespec.le_iff_nanos_le]
      exact Nat.le_of_lt hlt
  · rw [List.mem_append, h.mem_iff, hserved.expires_iff hx hy hnow hle, List.mem_map]
    refine or_congr_left ?_
    constructor
    · rintro ⟨d, hd, heq⟩
      rcases Prod.mk.inj heq with ⟨rfl, rfl⟩
      exact ⟨rfl, hd⟩
    · rintro ⟨rfl, hc⟩
      exact ⟨c, hc, rfl⟩

/-- From any machine without a pass under way, the loop comes to an end. -/
theorem Reachable.exists_looped (hx : x.Reachable) (hidle : x.system.dispatching s = false)
    (limit : Timespec) : ∃ k, Looped s limit x (x.loop s limit k).1 (x.loop s limit k).2 := by
  -- every round takes some of the remaining time away
  induction hremaining : x.system.remaining s limit using Nat.strong_induction_on
    generalizing x with
  | _ k ih =>
    subst hremaining
    have hsteady : x.system.Steady := hx.steady
    have hpending : (x.system.timeout s).pending = x.system.nextDeadline s := by
      rcases hsteady with ⟨armed, hsound, hfollows⟩
      exact hfollows s hidle
    by_cases hdone : ∀ now, x.system.nextDeadline s = some now → ¬ now ≤ limit
    · exact ⟨0, .nil hsteady hidle hdone⟩
    · push Not at hdone
      rcases hdone with ⟨now, hnow, hle⟩
      rcases serve_spec hsteady hidle now with ⟨hcalls, hserved⟩
      have hy := hx.serve s now
      rcases ih _ (hserved.remaining_lt hsteady hnow hle) hy hserved.idle rfl with ⟨k, hrest⟩
      refine ⟨k + 1, ?_⟩
      rw [loop, hpending, hnow]
      dsimp only
      rw [if_pos hle, hcalls]
      exact hrest.cons hserved hsteady hy.steady hnow hle

/-- However many one-shot and periodic timers are armed on a scheduler without a pass, if their
callbacks do nothing but return, then dispatching it at each deadline that is pending, as long as it
is not after a limit, comes to an end.  The calls come in the order of time.  They are one for each
timer at its deadline and at every period after it up to the limit, with the callback and the
argument bound to it, and each is made by the dispatch at that very time.  In the end no timer is
armed for a deadline up to the limit, and what is pending is the earliest deadline. -/
theorem Reachable.closed_loop (hx : x.Reachable) (hidle : x.system.dispatching s = false)
    (limit : Timespec) :
    ∃ k, let firings := (x.loop s limit k).1
      let y := (x.loop s limit k).2
      (∀ now, (y.system.timeout s).pending = some now → ¬ now ≤ limit) ∧
        (y.frames = x.frames ∧ y.system.dispatching s = false) ∧
        firings.Pairwise (fun f g => f.1 ≤ g.1) ∧
        (firings.map fun f => (f.1, f.2.timer)).Nodup ∧
        (∀ time t, (time, t) ∈ (firings.map fun f => (f.1, f.2.timer)) ↔
          time ≤ limit ∧ t ∈ x.system.armedTimers s ∧
            ∃ k, time.nanos = (x.system.timer t).deadline.nanos +
              k * (x.system.timer t).period.nanos) ∧
        (∀ f ∈ firings, (x.system.timer f.2.timer).callback = some f.2.callback ∧
          (x.system.timer f.2.timer).arg = f.2.arg) ∧
        (∀ t ∈ y.system.armedTimers s, ¬ (y.system.timer t).deadline ≤ limit) ∧
        (y.system.timeout s).pending = y.system.nextDeadline s := by
  rcases hx.exists_looped hidle limit with ⟨k, h⟩
  refine ⟨k, h.pending ▸ h.ended, ⟨h.frames, h.idle⟩, h.ascending, ?_, fun time t => ?_,
    fun f hf => ?_, h.done, h.pending⟩
  · refine h.nodup.map_on fun f hf g hg heq => ?_
    rcases Prod.mk.inj heq with ⟨htime, htimer⟩
    have hcall := ((h.mem_iff f.1 f.2).1 hf).call
    rw [htimer, ((h.mem_iff g.1 g.2).1 hg).call] at hcall
    exact Prod.ext htime (Option.some.inj hcall).symm
  · rw [List.mem_map]
    constructor
    · rintro ⟨f, hf, heq⟩
      rcases Prod.mk.inj heq with ⟨rfl, rfl⟩
      rcases (h.mem_iff f.1 f.2).1 hf with ⟨hle, harmed, hexpires, -⟩
      exact ⟨hle, harmed, hexpires⟩
    · rintro ⟨hle, harmed, hexpires⟩
      have hsteady : x.system.Steady := hx.steady
      rcases hsteady.exists_call? harmed with ⟨c, rfl, hcall⟩
      exact ⟨(time, c), (h.mem_iff time c).2 ⟨hle, harmed, hexpires, hcall⟩, rfl⟩
  · exact System.call?_eq_some_iff.1 ((h.mem_iff f.1 f.2).1 hf).call

/-- A timer armed once, and one that is armed for every second. -/
def ticking (s : Fin m) (t u : Fin n) : Machine m n :=
  (initial fun _ => .counting).run
    [.request s (.command (.init (some t) (some 0) .none)),
      .request s (.command (.init (some u) (some 1) .none)),
      .request s (.command (.arm (some t) .precise (some (.new 2 0)) none)),
      .request s (.command (.arm (some u) .precise (some (.new 1 0)) (some (.new 1 0))))]

/-- A timer armed once and one armed for every second are called by the loop in turn. -/
theorem closed_loop_ticking :
    let x : Machine 1 2 := ticking 0 0 1
    x.Reachable ∧ x.system.dispatching 0 = false ∧
      (x.loop 0 (.new 3 0) 4).1.map (fun f => (f.1, f.2.timer)) =
        [(.new 1 0, 1), (.new 2 0, 0), (.new 2 0, 1), (.new 3 0, 1)] ∧
      ∃ k, (Timespec.new 3 0, (1 : Fin 2)) ∈
        (x.loop 0 (.new 3 0) k).1.map fun f => (f.1, f.2.timer) := by
  intro x
  have hx : x.Reachable := ⟨_, _, rfl⟩
  have hidle : x.system.dispatching 0 = false := by decide
  refine ⟨hx, hidle, by decide, ?_⟩
  rcases hx.closed_loop hidle (.new 3 0) with ⟨k, -, -, -, -, hmem, -⟩
  exact ⟨k, (hmem (.new 3 0) 1).2 ⟨by decide, by decide, 2, by decide⟩⟩

end Machine
end SoftTimer
