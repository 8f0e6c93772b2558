import SoftTimer.Proofs.Tickets

/-!
# Calls and expiries

A timer expires when a pass takes it out because it is armed and due.  This file accounts for every
call by an expiry: by one of its own, which happened in the pass that called or in a pass that began
while that one was under way.

Main definitions:

- `callees`: what the course of events tells about calls.
- `Moment.Expiry`: a place of the course at which a timer expired.

Main results:

- Theorem `Moment.Reachable.exists_expiry`: each call belongs to an expiry of its own.
-/

namespace SoftTimer

variable {m n : Nat}

/-- The timer that a pass called. -/
def Event.called? : Event m n → Option (Fin n)
  | .called _ t _ _ => some t
  | _ => none

/-- The timers that passes called, one after another. -/
def callees (es : List (Event m n)) : List (Fin n) :=
  es.filterMap Event.called?

section Places

variable {s : Fin m} {now : Timespec} {b j k : Nat} {es : List (Event m n)}

/-- At the place where a pass began stands the event that tells so. -/
theorem OpenSince.getElem?_eq (h : OpenSince s now b es) : es[b]? = some (.began s now) := by
  rcases h with ⟨before, after, rfl, rfl, -⟩
  simp

/-- A pass under way was so at every earlier place since it began. -/
theorem OpenSince.take (h : OpenSince s now b (es.take j)) (hb : b < k) (hk : k ≤ j) :
    OpenSince s now b (es.take k) := by
  rcases h with ⟨before, after, hcut, rfl, hafter⟩
  refine ⟨before, after.take (k - before.length - 1), ?_, rfl, ?_⟩
  · have htake : es.take k = (es.take j).take k := by rw [List.take_take, Nat.min_eq_left hk]
    rw [htake, hcut, List.take_append, List.take_of_length_le hb.le, List.take_cons (by omega)]
  · exact fun e he => hafter e (List.mem_of_mem_take he)

/-- Only a call tells of a timer that was called. -/
theorem called?_eq_some_iff {e : Event m n} {t : Fin n} :
    e.called? = some t ↔ ∃ s callback arg, e = .called s t callback arg := by
  cases e <;> simp [Event.called?]

end Places

namespace Moment

variable {x : Moment m n} {s r : Fin m} {t : Fin n} {i : Nat}

/-- The timer `t` expired at place `i` of the course: a pass of `r` took it out, which began at place
`b` and serves the time `now`.  Before that pass began, at the moment `y`, the timer was armed on `r`
and due. -/
structure Expiry (x : Moment m n) (t : Fin n) (i : Nat) (r : Fin m) (now : Timespec) (b : Nat)
    (y : Moment m n) : Prop where
  detached : x.system.course[i]? = some (.detached r t (y.system.timer t).deadline)
  since : OpenSince r now b (x.system.course.take i)
  reachable : y.Reachable
  run : ∃ actions, y.run actions = x
  course : y.system.course = x.system.course.take b
  armed : (y.system.timer t).armed = true
  owner : (y.system.timer t).owner = some r
  due : (y.system.timer t).deadline ≤ now

/-- Whenever a timer is taken out it expires, and no pass began between the one that takes it out
and that place. -/
theorem Reachable.expiry_of_detached (h : x.Reachable) {d : Timespec}
    (hi : x.system.course[i]? = some (.detached r t d)) :
    ∃ now b y, Expiry x t i r now b y ∧ ∀ k s now', k < i →
      x.system.course[k]? = some (.began s now') → k ≤ b := by
  rcases exists_cut_of_getElem? hi with ⟨before, after, hcut, hlen⟩
  rcases h.exists_step hcut with ⟨y, a, more, earlier, later, rest, hy, hrun, rfl, -, -, hchange⟩
  rcases hchange.of_detached with ⟨now, detached, -, rfl, hdetached, harmed, hdeadline, hdue⟩
  have htake : x.system.course.take i = y.system.course ++ .began r now :: detached := by
    rw [hcut, ← hlen, List.take_left]
  have hstate : (y.system.timer t).armed = true ∧ (y.system.timer t).owner = some r := by
    rcases hy.steady with ⟨armed, hsound, -⟩
    rw [← hsound.eq_armedTimers] at harmed
    exact (hsound.mem_iff r t).1 harmed
  refine ⟨now, y.system.course.length, y, ⟨hdeadline ▸ hi, ?_, hy, ⟨a :: more, hrun⟩, ?_, hstate.1,
    hstate.2, hdeadline ▸ hdue⟩, ?_⟩
  · refine ⟨_, _, htake, rfl, ?_⟩
    intro e he
    rcases hdetached e he with ⟨u, d', rfl⟩
    rfl
  · rw [hcut, List.append_assoc, List.take_left]
  · intro k s now' hk hbegan
    by_contra hlt
    have hmem : Event.began s now' ∈ detached := by
      have hplace : (x.system.course.take i)[k]? = some (.began s now') := by
        rw [List.getElem?_take_of_lt hk, hbegan]
      rw [htake, List.append_cons, List.getElem?_append_right (by simp; omega)] at hplace
      exact List.mem_of_getElem? hplace
    rcases hdetached _ hmem with ⟨u, d', heq⟩
    cases heq

/-- A call follows on a visit, and happens while the pass that makes it is under way. -/
theorem Reachable.visited_of_called (h : x.Reachable) {callback : CallbackId} {arg : CallbackArg}
    (hi : x.system.course[i]? = some (.called s t callback arg)) :
    ∃ j now b, i = j + 1 ∧ x.system.course[j]? = some (.visited s t) ∧
      OpenSince s now b (x.system.course.take j) ∧ OpenSince s now b (x.system.course.take i) := by
  rcases exists_cut_of_getElem? hi with ⟨before, after, hcut, hlen⟩
  rcases h.exists_step hcut with ⟨y, a, more, earlier, later, rest, hy, -, rfl, -, -, hchange⟩
  rcases hchange.of_called with ⟨rfl, rfl, ⟨c, hc, rfl⟩, -, -⟩
  rcases hy.stacked.since c hc with ⟨b, hb⟩
  refine ⟨y.system.course.length, c.now, b, ?_, ?_, ?_, ?_⟩
  · simpa using hlen.symm
  · rw [hcut]
    simp
  · rw [hcut, List.append_assoc, List.take_left]
    exact hb
  · rw [hcut, ← hlen, List.take_left]
    exact hb.append (by simp [Event.delimits])

section Tickets

variable {ticket : Holder m n → Nat} {callback : CallbackId} {arg : CallbackArg}

/-- The ticket that a visit spent tells of an expiry, in the pass itself or in one that began while
it was under way. -/
theorem Ticketed.expiry_of_visited (h : Ticketed x ticket) (hx : x.Reachable)
    {now : Timespec} {b : Nat} (hi : x.system.course[i]? = some (.visited s t))
    (hopen : OpenSince s now b (x.system.course.take i)) :
    ticket (.visit i) < i ∧ ∃ r now' b' y, Expiry x t (ticket (.visit i)) r now' b' y ∧
      (r = s ∧ now' = now ∧ b' = b ∨ b < b' ∧ OpenSince s now b (x.system.course.take b')) := by
  rcases h.spent i s t hi with ⟨hlt, hrecent⟩
  rcases h.issued (.visit i) t ⟨s, hi⟩ with ⟨r, d, hticket⟩
  rcases hx.expiry_of_detached hticket with ⟨now', b', y, hexpiry, hlatest⟩
  have hb := hopen.lt_of_began_notMem hrecent
  have hbegan : x.system.course[b]? = some (.began s now) := by
    rw [← List.getElem?_take_of_lt (hb.trans hlt)]
    exact hopen.getElem?_eq
  refine ⟨hlt, r, now', b', y, hexpiry, ?_⟩
  rcases Nat.lt_or_eq_of_le (hlatest b s now hb hbegan) with hbb' | rfl
  · have hb' : b' < ticket (.visit i) := by
      have hplace := (List.getElem?_eq_some_iff.1 hexpiry.since.getElem?_eq).1
      exact Nat.lt_of_lt_of_le hplace (List.length_take_le _ _)
    exact .inr ⟨hbb', hopen.take hbb' (hb'.trans hlt).le⟩
  · have hsame := hexpiry.since.getElem?_eq
    rw [List.getElem?_take_of_lt hb, hbegan] at hsame
    injection hsame with hsame
    injection hsame with hs hnow
    exact .inl ⟨hs.symm, hnow.symm, rfl⟩

/-- The ticket of the visit at which a timer was called tells of an expiry before the call. -/
theorem Ticketed.expiry_of_called (h : Ticketed x ticket) (hx : x.Reachable)
    (hi : x.system.course[i]? = some (.called s t callback arg)) :
    ticket (.visit (i - 1)) < i ∧ ∃ now b, OpenSince s now b (x.system.course.take i) ∧
      ∃ r now' b' y, Expiry x t (ticket (.visit (i - 1))) r now' b' y ∧
        (r = s ∧ now' = now ∧ b' = b ∨
          b < b' ∧ OpenSince s now b (x.system.course.take b')) := by
  rcases hx.visited_of_called hi with ⟨j, now, b, rfl, hj, hopen, hopen'⟩
  rcases h.expiry_of_visited hx hj hopen with ⟨hlt, hexpiry⟩
  exact ⟨Nat.lt_succ_of_lt hlt, now, b, hopen', hexpiry⟩

/-- Two calls whose visits had one ticket are one and the same. -/
theorem Ticketed.eq_of_called (h : Ticketed x ticket) (hx : x.Reachable) {j : Nat} {u : Fin n}
    {callback' : CallbackId} {arg' : CallbackArg}
    (hi : x.system.course[i]? = some (.called s t callback arg))
    (hj : x.system.course[j]? = some (.called r u callback' arg'))
    (heq : ticket (.visit (i - 1)) = ticket (.visit (j - 1))) : i = j := by
  rcases hx.visited_of_called hi with ⟨i, -, -, rfl, hi, -, -⟩
  rcases hx.visited_of_called hj with ⟨j, -, -, rfl, hj, -, -⟩
  have hsame := h.apart (.visit i) (.visit j) t u ⟨s, hi⟩ ⟨r, hj⟩ heq
  rw [Holder.visit.inj hsame]

/-- The link after the timer that a pass stands before was written since that pass began, when the
timer and the one after it were taken out. -/
theorem Ticketed.link_recent (h : Ticketed x ticket) {c : Cursor m n} {b : Nat} {u : Fin n}
    (hc : c ∈ x.passes) (hopen : OpenSince c.scheduler c.now b x.system.course)
    (hnext : c.next = some t) (hlink : (x.system.timer t).firedNext = some u) :
    ∃ k r d d', b < k ∧ x.system.course[k]? = some (.detached r t d) ∧
      x.system.course[k + 1]? = some (.detached r u d') ∧
      t ∉ taken (x.system.course.drop (k + 1)) := by
  have hlt := h.lt_link hc hnext hlink
  have hb := hopen.lt_of_began_notMem (h.recent c hc t hnext)
  rcases h.written t u hlink with ⟨k, r, d, d', hticket, hfirst, hsecond, hlast⟩
  exact ⟨k, r, d, d', by omega, hfirst, hsecond, hlast⟩

end Tickets

/-- After a pass of `s` began, passes of `s` call a timer only if it was taken out since. -/
theorem Reachable.exists_detached_of_called (h : x.Reachable) {callback : CallbackId}
    {arg : CallbackArg} {k : Nat} {now : Timespec}
    (hi : x.system.course[i]? = some (.called s t callback arg))
    (hk : x.system.course[k]? = some (.began s now)) (hki : k < i) :
    ∃ p r d, k < p ∧ p < i ∧ x.system.course[p]? = some (.detached r t d) := by
  rcases h.exists_ticketed with ⟨ticket, hticketed⟩
  rcases h.visited_of_called hi with ⟨j, -, -, rfl, hj, -, -⟩
  rcases hticketed.issued (.visit j) t ⟨s, hj⟩ with ⟨r, d, hticket⟩
  have hlt := (hticketed.spent j s t hj).1
  have hkj : k < j := by
    refine Nat.lt_of_le_of_ne (Nat.le_of_lt_succ hki) ?_
    rintro rfl
    simp [hk] at hj
  exact ⟨ticket (.visit j), r, d, hticketed.lt_ticket hj hk hkj, Nat.lt_succ_of_lt hlt, hticket⟩

/-- Each call belongs to an expiry of its own.  The expiry comes before the call, and happens in the
pass that calls or in a pass that began while that one was under way; so no timer was ever called
more often than it expired.  Nor does a pass follow a link that is older than the pass itself: the
link after a timer that it stands before was written since it began, the last time the timer was
taken out. -/
theorem Reachable.exists_expiry (h : x.Reachable) :
    ∃ expiry : Nat → Nat,
      (∀ i j s r t u callback callback' arg arg',
        x.system.course[i]? = some (.called s t callback arg) →
        x.system.course[j]? = some (.called r u callback' arg') →
        expiry i = expiry j → i = j) ∧
      (∀ i s t callback arg, x.system.course[i]? = some (.called s t callback arg) →
        expiry i < i ∧ ∃ now b, OpenSince s now b (x.system.course.take i) ∧
          ∃ r now' b' y, Expiry x t (expiry i) r now' b' y ∧
            (r = s ∧ now' = now ∧ b' = b ∨
              b < b' ∧ OpenSince s now b (x.system.course.take b'))) ∧
      (∀ t, (callees x.system.course).count t ≤ (taken x.system.course).count t) ∧
      ∀ c ∈ x.passes, ∀ b t u, OpenSince c.scheduler c.now b x.system.course →
        c.next = some t → (x.system.timer t).firedNext = some u →
        ∃ k r d d', b < k ∧ x.system.course[k]? = some (.detached r t d) ∧
          x.system.course[k + 1]? = some (.detached r u d') ∧
          t ∉ taken (x.system.course.drop (k + 1)) := by
  rcases h.exists_ticketed with ⟨ticket, hticketed⟩
  refine ⟨fun i => ticket (.visit (i - 1)),
    fun i j s r t u _ _ _ _ hi hj => hticketed.eq_of_called h hi hj,
    fun i s t _ _ hi => hticketed.expiry_of_called h hi, ?_,
    fun c hc b t u => hticketed.link_recent hc⟩
  intro t
  rw [callees, taken, List.count_filterMap, List.count_filterMap]
  apply countP_le_countP_of_places fun i => ticket (.visit (i - 1))
  · intro i e hi he
    rcases called?_eq_some_iff.1 (beq_iff_eq.1 he) with ⟨s, callback, arg, rfl⟩
    rcases hticketed.expiry_of_called h hi with
      ⟨-, now, b, -, r, now', b', y, hexpiry, -⟩
    exact ⟨_, hexpiry.detached, by simp [Event.detached?]⟩
  · intro i j e f hi he hj hf
    rcases called?_eq_some_iff.1 (beq_iff_eq.1 he) with ⟨s, callback, arg, rfl⟩
    rcases called?_eq_some_iff.1 (beq_iff_eq.1 hf) with ⟨r, callback', arg', rfl⟩
    exact hticketed.eq_of_called h hi hj

/-- A timer that is called by two passes, one nested in the other, expired twice. -/
theorem expiries_stealing :
    let x : Moment 2 3 := ((Machine.threeArmed 0 0 1 2).dispatched 0 (.new 3 0)).run (stealing 0 1 1)
    x.Reachable ∧ (callees x.system.course).count 1 = 2 ∧ 2 ≤ (taken x.system.course).count 1 := by
  intro x
  have hmachine : (Machine.threeArmed (0 : Fin 2) (0 : Fin 3) 1 2).Reachable := ⟨_, _, rfl⟩
  have hx : x.Reachable := (Reachable.dispatched hmachine 0 (.new 3 0)).run _
  have hcount : (callees (((Machine.threeArmed (0 : Fin 2) (0 : Fin 3) 1 2).dispatched 0
      (.new 3 0)).run (stealing 0 1 1)).system.course).count 1 = 2 := by decide
  rcases hx.exists_expiry with ⟨-, -, -, hle, -⟩
  exact ⟨hx, hcount, hcount.symm.le.trans (hle 1)⟩

end Moment
end SoftTimer
