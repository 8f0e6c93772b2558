import SoftTimer.Proofs.Expiry

/-!
# How far a walk goes

A pass comes to the timers of its chain, and a chain is as long as what its pass took out.  But when
the pass comes to a stolen timer, it goes on along the chain of another pass, and with three
schedulers that chain may have timers left: the pass that made it may itself have lost them, as one
of its timers was stolen before.  This file bounds the walk of a pass in every case, and shows that
with two schedulers a pass never comes to a timer that it did not take out.

Main definitions:

- `Moment.Tidy`: passes that began and ended since left no links behind.
- `Moment.Straight`: a pass has come to the first of its timers, and stands before the next one.

Main results:

- Theorem `Moment.Reachable.count_visits_le`: a pass comes to a timer at most as often as the timer
  was taken out since the pass began.
- Theorem `Moment.Throughout.straight`: with two schedulers a pass never leaves its timers.
- Theorem `Machine.Reachable.visits_bounded`: the walk of a pass.
-/

namespace SoftTimer

variable {m n : Nat}

/-! ## A pass and the timers taken out since it began -/

namespace Moment

variable {x : Moment m n} {s : Fin m} {es rest : List (Event m n)} {now : Timespec}

/-- A pass comes to a timer at most as often as the timer was taken out since the pass began. -/
theorem Reachable.count_visits_le (h : x.Reachable) {before : List (Event m n)}
    (hcourse : x.system.course = before ++ .began s now :: rest) (t : Fin n) :
    (visits s rest).count t ≤ (taken rest).count t := by
  rcases h.exists_ticketed with ⟨ticket, hticketed⟩
  rw [List.append_cons] at hcourse
  have hbegan : x.system.course[before.length]? = some (.began s now) := by
    rw [hcourse]
    simp
  generalize hfirst : before ++ [.began s now] = first at hcourse
  have hlength : before.length + 1 = first.length := by simp [← hfirst]
  have hplace : ∀ i, x.system.course[first.length + i]? = rest[i]? := by
    intro i
    rw [hcourse, getElem?_length_add]
  have hspent : ∀ i, rest[i]? = some (.visited s t) → ∃ k,
      ticket (.visit (first.length + i)) = first.length + k ∧
        ∃ r d, rest[k]? = some (.detached r t d) := by
    intro i hi
    rw [← hplace] at hi
    have hlt := hticketed.lt_ticket hi hbegan (by omega)
    rcases hticketed.issued (.visit (first.length + i)) t ⟨s, hi⟩ with ⟨r, d, hticket⟩
    obtain ⟨k, hk⟩ : ∃ k, ticket (.visit (first.length + i)) = first.length + k :=
      ⟨ticket (.visit (first.length + i)) - first.length, by omega⟩
    rw [hk, hplace] at hticket
    exact ⟨k, hk, r, d, hticket⟩
  rw [visits, taken, List.count_filterMap, List.count_filterMap]
  apply countP_le_countP_of_places fun i => ticket (.visit (first.length + i)) - first.length
  · intro i e hi he
    obtain rfl := Event.visitedBy_eq_some_iff.1 (beq_iff_eq.1 he)
    rcases hspent i hi with ⟨k, hk, r, d, hdetached⟩
    rw [hk, Nat.add_sub_cancel_left]
    exact ⟨_, hdetached, by simp [Event.detached?]⟩
  · intro i j e f hi he hj hf heq
    obtain rfl := Event.visitedBy_eq_some_iff.1 (beq_iff_eq.1 he)
    obtain rfl := Event.visitedBy_eq_some_iff.1 (beq_iff_eq.1 hf)
    rcases hspent i hi with ⟨k, hk, -⟩
    rcases hspent j hj with ⟨k', hk', -⟩
    rw [← hplace] at hi hj
    have hsame := hticketed.apart (.visit (first.length + i)) (.visit (first.length + j)) t t
      ⟨s, hi⟩ ⟨s, hj⟩ (by omega)
    injection hsame with hsame
    omega

/-! ## Two schedulers -/

/-- The timer that the innermost pass stands before, unless that is a pass of `s`. -/
def ahead (s : Fin m) (x : Moment m n) : Option (Fin n) :=
  match x.passes with
  | [] => none
  | c :: _ => if c.scheduler = s then none else c.next

/-- The timer ahead is that of the innermost pass, unless it is one of `s`. -/
theorem ahead_of_passes {c : Cursor m n} {outer : List (Cursor m n)} (h : x.passes = c :: outer) :
    x.ahead s = if c.scheduler = s then none else c.next := by
  rw [ahead, h]

/-- If all passes under way are passes of `s`, no other pass stands before a timer. -/
theorem ahead_eq_none (h : ∀ c ∈ x.passes, c.scheduler = s) : x.ahead s = none := by
  rcases hpasses : x.passes with _ | ⟨c, outer⟩
  · rw [ahead, hpasses]
  · rw [ahead_of_passes hpasses, if_pos (h c (by simp [hpasses]))]

/-- Of the timers taken out since a pass of `s` began, only those still lead to another one that the
innermost pass of another scheduler has yet to come to. -/
def Tidy (s : Fin m) (x : Moment m n) (es : List (Event m n)) : Prop :=
  ∃ waiting : List (Fin n), x.ahead s = waiting.head? ∧ waiting.Nodup ∧
    (∀ a t b, waiting = a ++ t :: b → (x.system.timer t).firedNext = b.head?) ∧
    ∀ t ∈ taken es, (x.system.timer t).firedNext ≠ none → t ∈ waiting

section Tidy

variable {y : Moment m n} {r : Fin m} {t : Fin n} {c : Cursor m n} {more : List (Event m n)}

/-- While no other pass stands before a timer, no timer taken out since leads to another one. -/
theorem Tidy.firedNext_eq_none (h : Tidy s x es) (hahead : x.ahead s = none) (ht : t ∈ taken es) :
    (x.system.timer t).firedNext = none := by
  rcases h with ⟨waiting, hhead, -, -, hmem⟩
  obtain rfl : waiting = [] := List.head?_eq_none_iff.1 (hhead.symm.trans hahead)
  by_contra hne
  simpa using hmem t ht hne

/-- Where nothing is ahead and no timer taken out leads on, everything is tidy. -/
theorem tidy_of_firedNext (hahead : x.ahead s = none)
    (hfired : ∀ t ∈ taken es, (x.system.timer t).firedNext = none) : Tidy s x es :=
  ⟨[], hahead, List.nodup_nil, by simp, fun t ht hne => absurd (hfired t ht) hne⟩

/-- With two schedulers, two that differ from a third one are the same. -/
theorem eq_of_ne_of_ne (hm : m ≤ 2) {a b c : Fin m} (hab : a ≠ b) (hac : a ≠ c) : c = b := by
  rw [Ne, Fin.ext_iff] at hab hac
  rw [Fin.ext_iff]
  omega

/-- With two schedulers, when another pass begins no other one is under way that began since, so what
it chains up is all that is left. -/
theorem Tidy.began (h : Tidy s x es) (hm : m ≤ 2) (hx : x.Stacked) {due : List (Fin n)}
    {armed : Fin m → List (Fin n)} (hrs : r ≠ s) (hidle : x.system.dispatching r = false)
    (hnd : due.Nodup) (hpasses : y.passes = ⟨r, now, due.head?⟩ :: x.passes)
    (hbegun : System.Begun r now due armed x.system y.system)
    (htaken : taken (es ++ more) = taken es ++ due) : Tidy s y (es ++ more) := by
  have hahead : x.ahead s = none :=
    ahead_eq_none fun c hc => eq_of_ne_of_ne hm hrs (hx.ne_of_idle hidle hc)
  refine ⟨due, ?_, hnd, hbegun.chained, ?_⟩
  · rw [ahead_of_passes hpasses, if_neg hrs]
  · intro t ht hne
    rw [htaken, List.mem_append] at ht
    by_contra hdue
    rw [hbegun.firedNext hdue] at hne
    exact hne (h.firedNext_eq_none hahead (ht.resolve_right hdue))

/-- A pass that comes to a timer takes its link away, so what is left is still ahead. -/
theorem Tidy.visited (h : Tidy s x es) (hcursor : x.cursor = some c) (hnext : c.next = some t)
    (hpasses : y.passes =
      { c with next := (x.system.timer t).firedNext } :: x.frames.map Frame.cursor)
    (htimer : ∀ u, y.system.timer u =
      if u = t then { x.system.timer t with firedNext := none } else x.system.timer u)
    (htaken : taken (es ++ more) = taken es) : Tidy s y (es ++ more) := by
  rw [Tidy, htaken]
  rcases h with ⟨waiting, hhead, hnd, hchained, hmem⟩
  have hkept : ∀ u ∈ taken es, (y.system.timer u).firedNext ≠ none → u ≠ t ∧ u ∈ waiting := by
    intro u hu hne
    have hut : u ≠ t := by
      rintro rfl
      simp [htimer] at hne
    rw [htimer, if_neg hut] at hne
    exact ⟨hut, hmem u hu hne⟩
  rw [ahead_of_passes (passes_of_cursor hcursor)] at hhead
  rw [ahead_of_passes hpasses]
  by_cases hcs : c.scheduler = s
  · rw [if_pos hcs] at hhead ⊢
    obtain rfl : waiting = [] := List.head?_eq_none_iff.1 hhead.symm
    exact ⟨[], rfl, hnd, by simp, fun u hu hne => (hkept u hu hne).2⟩
  · rw [if_neg hcs, hnext] at hhead
    rw [if_neg hcs]
    obtain ⟨b, rfl⟩ : ∃ b, waiting = t :: b := List.head?_eq_some_iff.1 hhead.symm
    refine ⟨b, hchained [] t b rfl, hnd.of_cons, ?_, ?_⟩
    · rintro a v d rfl
      have hvt : v ≠ t := fun heq => (List.nodup_cons.1 hnd).1 (by simp [heq])
      rw [htimer, if_neg hvt]
      exact hchained (t :: a) v d rfl
    · intro u hu hne
      rcases hkept u hu hne with ⟨hut, hmem⟩
      exact (List.mem_cons.1 hmem).resolve_left hut

/-- With two schedulers, when another pass has ended no links are left. -/
theorem Tidy.finished (h : Tidy s x es) (hm : m ≤ 2) (hx : x.Stacked)
    (hcursor : x.cursor = some c) (hnext : c.next = none) (hcs : c.scheduler ≠ s)
    (hpasses : y.passes = x.frames.map Frame.cursor) (htimers : y.system.timers = x.system.timers)
    (htaken : taken (es ++ more) = taken es) : Tidy s y (es ++ more) := by
  have hahead : x.ahead s = none := by
    rw [ahead_of_passes (passes_of_cursor hcursor), if_neg hcs, hnext]
  refine tidy_of_firedNext (ahead_eq_none fun d hd => ?_) fun u hu => ?_
  · rw [hpasses] at hd
    exact eq_of_ne_of_ne hm hcs (hx.ne_of_frame hcursor hd).symm
  · rw [htaken] at hu
    rw [System.timer, htimers]
    exact h.firedNext_eq_none hahead hu

/-- With two schedulers, a step during a pass keeps the links of the timers taken out since tidy. -/
theorem Tidy.change (h : Tidy s x es) (hm : m ≤ 2) (hx : x.Stacked)
    (hs : x.system.dispatching s = true) (hchange : Change x y more)
    (hs' : y.system.dispatching s = true) : Tidy s y (es ++ more) := by
  cases hchange with
  | other _ events hpasses _ hfired =>
    rcases h with ⟨waiting, hhead, hnd, hchained, hmem⟩
    refine ⟨waiting, ?_, hnd, ?_, ?_⟩
    · rwa [ahead, hpasses, ← ahead]
    · simpa only [hfired] using hchained
    · simpa only [hfired, taken_append, taken_other events, List.append_nil] using hmem
  | @began r now due armed _ hidle hnd hpasses hbegun =>
    have hrs : r ≠ s := by
      rintro rfl
      simp [hs] at hidle
    exact h.began hm hx hrs hidle hnd hpasses hbegun (by simp)
  | visited hcursor hnext hpasses _ htimer =>
    exact h.visited hcursor hnext hpasses htimer (by simp)
  | @finished c hcursor hnext hpasses hdispatching htimers =>
    have hcs : c.scheduler ≠ s := by
      rintro rfl
      simp [hdispatching] at hs'
    exact h.finished hm hx hcursor hnext hcs hpasses htimers (by simp)

/-- When a pass has just begun, no other pass that began since stands before a timer. -/
theorem tidy_of_status {due : List (Fin n)} (h : Status s due x [])
    (hs : x.system.dispatching s = true) : Tidy s x [] := by
  rcases h with ⟨inner, c, h⟩ | h
  · refine tidy_of_firedNext ?_ (by simp [taken])
    rcases h.passes with ⟨outer, houter⟩
    cases inner with
    | nil => rw [ahead_of_passes houter, if_pos h.scheduler]
    | cons p inner =>
      rcases h.others p List.mem_cons_self with ⟨hps, hnext⟩
      rw [ahead_of_passes houter, if_neg hps, Option.eq_none_iff_forall_ne_some]
      exact fun u hu => by simpa [taken] using hnext u hu
  · simp [h.dispatching] at hs

end Tidy

/-- So far the pass of `s` came to the first ones of its timers, and the timer that it stands before
is the one after them. -/
structure Straight (s : Fin m) (due : List (Fin n)) (x : Moment m n) (es : List (Event m n)) :
    Prop where
  init : visits s es <+: due
  next : ∀ c ∈ x.passes, c.scheduler = s → ∀ t, c.next = some t → visits s es ++ [t] <+: due

section Straight

variable {y : Moment m n} {due : List (Fin n)} {more : List (Event m n)}

/-- A pass that has just begun stands before the first of its timers. -/
theorem straight_of_status (h : Status s due x []) (hx : x.Stacked) : Straight s due x [] := by
  rcases h with ⟨inner, c, h⟩ | h
  · refine ⟨List.nil_prefix, ?_⟩
    intro d hd hds t hnext
    rcases h.passes with ⟨outer, houter⟩
    obtain rfl : d = c := hx.eq_of_scheduler_eq hd (by simp [houter]) (hds.trans h.scheduler.symm)
    rcases h.track with ⟨rest, hon⟩ | ⟨⟨before, v, later, hvisits, -⟩, -⟩
    · rw [hnext] at hon
      rcases hon.eq_cons with ⟨b, rfl⟩
      exact ⟨b, by simp [hon.due_eq]⟩
    · simp [visits] at hvisits
  · refine ⟨List.nil_prefix, ?_⟩
    intro d hd hds
    exact absurd hds.symm (hx.ne_of_idle h.dispatching hd)

/-- The pass goes straight on while it comes to no timer. -/
theorem Straight.kept (h : Straight s due x es) (hvisits : visits s more = [])
    (hpasses : ∀ c ∈ y.passes, c.scheduler = s → c ∈ x.passes) :
    Straight s due y (es ++ more) := by
  have hsame : visits s (es ++ more) = visits s es := by simp [hvisits]
  refine ⟨hsame ▸ h.init, ?_⟩
  intro c hc hcs t hnext
  rw [hsame]
  exact h.next c (hpasses c hc hcs) hcs t hnext

/-- A timer that was not taken out since leads to the next one that the pass took out. -/
theorem prefix_of_link (hstatus : Status s due x es)
    (htidy : Tidy s x es) (hs : x.system.dispatching s = true) {c : Cursor m n} {t u : Fin n}
    (hcursor : x.cursor = some c) (hcs : c.scheduler = s) (hnext : c.next = some t)
    (hlink : (x.system.timer t).firedNext = some u) : visits s es ++ [t] ++ [u] <+: due := by
  have hahead : x.ahead s = none := by rw [ahead_of_passes (passes_of_cursor hcursor), if_pos hcs]
  have ht : t ∉ taken es := fun ht => by simp [htidy.firedNext_eq_none hahead ht] at hlink
  rcases hstatus with ⟨inner, d, hunder⟩ | hover
  · obtain rfl : c = d := by
      rcases hunder.control hcursor with ⟨-, hsame⟩ | ⟨rest, outer, rfl, -⟩
      · exact hsame
      · exact absurd hcs (hunder.others c List.mem_cons_self).1
    rcases hunder.track with ⟨rest, hon⟩ | ⟨-, htaken⟩
    · rw [hnext] at hon
      rcases hon.eq_cons with ⟨b, rfl⟩
      have hb := hon.chained [] t b rfl ht
      rw [hlink] at hb
      rcases List.head?_eq_some_iff.1 hb.symm with ⟨b', rfl⟩
      exact ⟨b', by simp [hon.due_eq]⟩
    · exact absurd (htaken t hnext) ht
  · simp [hover.dispatching] at hs

/-- As long as everything is tidy, a step keeps a pass on its timers. -/
theorem Straight.change (h : Straight s due x es) (hstatus : Status s due x es)
    (htidy : Tidy s x es) (hx : x.Stacked) (hs : x.system.dispatching s = true)
    (hchange : Change x y more) : Straight s due y (es ++ more) := by
  cases hchange with
  | other _ events hpasses =>
    exact h.kept (visits_other s events) fun c hc _ => hpasses ▸ hc
  | @began r now found _ _ hidle _ hpasses =>
    have hrs : r ≠ s := by
      rintro rfl
      simp [hs] at hidle
    refine h.kept (visits_began _ _ _ _ _) fun c hc hcs => ?_
    rw [hpasses] at hc
    refine (List.mem_cons.1 hc).resolve_left ?_
    rintro rfl
    exact hrs hcs
  | @visited c t hcursor hnext hpasses =>
    have hc : c ∈ x.passes := by simp [passes_of_cursor hcursor]
    by_cases hcs : c.scheduler = s
    · refine ⟨?_, ?_⟩
      · rw [visits_append, visits_visited, if_pos hcs]
        exact h.next c hc hcs t hnext
      · intro d hd hds u hu
        rw [visits_append, visits_visited, if_pos hcs]
        rw [hpasses] at hd
        rcases List.mem_cons.1 hd with rfl | hd
        · exact prefix_of_link hstatus htidy hs hcursor hcs hnext hu
        · exact absurd (hds.trans hcs.symm) (hx.ne_of_frame hcursor hd)
    · refine h.kept (by rw [visits_visited, if_neg hcs]) fun d hd hds => ?_
      rw [hpasses] at hd
      rcases List.mem_cons.1 hd with rfl | hd
      · exact absurd hds hcs
      · simp [passes_of_cursor hcursor, hd]
  | finished hcursor _ hpasses =>
    refine h.kept (visits_finished _ _) fun d hd _ => ?_
    rw [passes_of_cursor hcursor, ← hpasses]
    exact List.mem_cons_of_mem _ hd

end Straight

end Moment

/-! ## The walk of a pass -/

/-- With two schedulers a pass never leaves its timers. -/
theorem Moment.Throughout.straight {y : Moment m n} {s : Fin m} {due : List (Fin n)}
    {es : List (Event m n)} {actions : List (Action m n)} (hrun : Throughout s y actions)
    (hy : y.Reachable) (hm : m ≤ 2) (hnd : due.Nodup) (hstatus : Status s due y [])
    (hes : (y.run actions).system.course = y.system.course ++ es) :
    visits s es <+: due := by
  obtain ⟨more, hmore, -, -, -, hend⟩ := hrun.course_induction
    (φ := fun z es => Status s due z es ∧ z.Stacked ∧
      (z.system.dispatching s = true → Tidy s z es) ∧ Straight s due z es) hy.steady
    (fun z w es more ⟨hstatus, hstacked, htidy, hstraight⟩ hs hcourse hchange =>
      ⟨hstatus.change hnd hs hchange, hstacked.change hcourse hchange,
        (htidy hs).change hm hstacked hs hchange,
        hstraight.change hstatus (htidy hs) hstacked hs hchange⟩)
    ⟨hstatus, hy.stacked, tidy_of_status hstatus, straight_of_status hstatus hy.stacked⟩
  rw [List.append_cancel_left (hes.symm.trans hmore)]
  simpa using hend.init

/-- A pass takes out some of the timers of the list.  With one or two schedulers, and whenever none
of them is stolen while it waits, it comes to the first of them in their order and to no other timer,
so to each at most once, and to no more than there were in the list.  In any case it comes to each
timer at most as often as that timer was taken out since the pass began, by the pass itself or by
others. -/
theorem Machine.Reachable.visits_bounded {x : Machine m n} (hx : x.Reachable) {s : Fin m}
    (hidle : x.system.dispatching s = false) (now : Timespec) {actions : List (Action m n)}
    (hrun : Moment.Throughout s (x.dispatched s now) actions) {es : List (Event m n)}
    (hes : ((x.dispatched s now).run actions).system.course =
      (x.dispatched s now).system.course ++ es) :
    let due := x.system.due s now
    due.Sublist (x.system.armedTimers s) ∧
      (x.dispatched s now).system.course = x.system.course ++
        .began s now :: due.map (fun t => .detached s t (x.system.timer t).deadline) ∧
      ((m ≤ 2 ∨ ∀ t ∈ due, ¬ Stolen s es t) → visits s es <+: due ∧ (visits s es).Nodup ∧
        (visits s es).length ≤ (x.system.armedTimers s).length) ∧
      (visits s es).Subperm (due ++ taken es) := by
  intro due
  have hsteady : x.system.Steady := (Moment.Reachable.ofMachine hx).steady
  have hbegun : (x.dispatched s now).Reachable := Moment.Reachable.dispatched hx s now
  rcases x.dispatched_spec hsteady hidle now with ⟨hnd, hcourse, -, hstatus⟩
  have hsub : due.Sublist (x.system.armedTimers s) := List.filter_sublist
  refine ⟨hsub, hcourse, ?_, ?_⟩
  · intro hcase
    have hinit : visits s es <+: due := by
      rcases hcase with hm | hnone
      · exact hrun.straight hbegun hm hnd hstatus hes
      · obtain ⟨more, hmore, hend⟩ := hrun.induction (φ := Status s due) hbegun.steady
          (fun _ _ _ _ h hs hchange => h.change hnd hs hchange) hstatus
        obtain rfl := List.append_cancel_left (hes.symm.trans hmore)
        exact (hend.visits_of_not_stolen hnone).1
    exact ⟨hinit, hnd.sublist hinit.sublist, hinit.length_le.trans hsub.length_le⟩
  · rw [List.subperm_ext_iff]
    intro t _
    have hcut : ((x.dispatched s now).run actions).system.course = x.system.course ++
        .began s now :: (due.map (fun t => .detached s t (x.system.timer t).deadline) ++ es) := by
      rw [hes, hcourse, List.append_assoc, List.cons_append]
    have hnone : visits s (due.map fun t => .detached s t (x.system.timer t).deadline) = [] :=
      visits_began s s now due _
    have hcount := (hbegun.run actions).count_visits_le hcut t
    rwa [visits_append, taken_append, taken_detached, hnone, List.nil_append] at hcount

/-- A pass that loses a timer to another scheduler still comes to the first ones of its timers. -/
theorem visits_stealing :
    let x : Machine 2 3 := .threeArmed 0 0 1 2
    let es := (x.dispatched 0 (.new 3 0)).added (stealing 0 1 1)
    Moment.Throughout 0 (x.dispatched 0 (.new 3 0)) (stealing 0 1 1) ∧ visits 0 es = [0, 1] ∧
      visits 0 es <+: x.system.due 0 (.new 3 0) ∧
      (visits 0 es).Subperm (x.system.due 0 (.new 3 0) ++ taken es) := by
  have hrun : Moment.Throughout 0 ((Machine.threeArmed (0 : Fin 2) (0 : Fin 3) 1 2).dispatched 0
      (.new 3 0)) (stealing 0 1 1) := by decide
  have hvisits : visits 0 (((Machine.threeArmed (0 : Fin 2) (0 : Fin 3) 1 2).dispatched 0
      (.new 3 0)).added (stealing 0 1 1)) = [0, 1] := by decide
  have hcourse : (((Machine.threeArmed (0 : Fin 2) (0 : Fin 3) 1 2).dispatched 0 (.new 3 0)).run
      (stealing 0 1 1)).system.course =
      ((Machine.threeArmed (0 : Fin 2) (0 : Fin 3) 1 2).dispatched 0 (.new 3 0)).system.course ++
        ((Machine.threeArmed (0 : Fin 2) (0 : Fin 3) 1 2).dispatched 0 (.new 3 0)).added
          (stealing 0 1 1) := by decide
  rcases Machine.Reachable.visits_bounded ⟨_, _, rfl⟩ (by decide) (.new 3 0) hrun hcourse with
    ⟨-, -, hcase, hsubperm⟩
  exact ⟨hrun, hvisits, (hcase (.inl (by decide))).1, hsubperm⟩

/-! ### A walk that goes too far -/

/-- Two timers armed on the first scheduler, and two on the second one, which has bound a fifth
timer. -/
def Machine.fiveBound : Machine 3 5 :=
  (initial fun _ => .counting).run
    [.request 0 (.command (.init (some 0) (some 0) .none)),
      .request 0 (.command (.init (some 1) (some 1) .none)),
      .request 1 (.command (.init (some 2) (some 1) .none)),
      .request 1 (.command (.init (some 3) (some 2) .none)),
      .request 1 (.command (.init (some 4) (some 1) .none)),
      .request 0 (.command (.arm (some 0) .precise (some (.new 1 0)) none)),
      .request 0 (.command (.arm (some 1) .precise (some (.new 2 0)) none)),
      .request 1 (.command (.arm (some 3) .precise (some (.new 1 0)) none)),
      .request 1 (.command (.arm (some 4) .precise (some (.new 2 0)) none))]

/-- During a pass of the first scheduler, the second one steals timer 1 from it and takes it out
together with timer 2.  But the pass of the second scheduler never comes to these two, as the third
one steals timer 4 from it, which stands before them. -/
def leavingLinks : List (Action 3 5) :=
  [.ret, .request 0 (.command (.deinit (some 1))),
    .request 1 (.command (.init (some 1) (some 1) .none)),
    .request 1 (.command (.arm (some 1) .precise (some (.new 3 0)) none)),
    .request 1 (.command (.arm (some 2) .precise (some (.new 4 0)) none)),
    .request 1 (.dispatch (.new 4 0)), .ret, .request 1 (.command (.deinit (some 4))),
    .request 2 (.command (.init (some 4) (some 1) .none)),
    .request 2 (.command (.arm (some 4) .precise (some (.new 2 0)) none)),
    .request 2 (.dispatch (.new 2 0)), .ret, .ret, .ret, .ret, .ret, .ret, .ret, .ret, .ret, .ret,
    .ret, .ret, .ret]

/-- With three schedulers a pass may come to a timer that it did not take out, and to more timers
than there were in the list: it follows a link that another pass left behind. -/
theorem exists_walk_too_far :
    ¬ ∀ (m n : Nat) (x : Machine m n) (s : Fin m) (now : Timespec) (actions : List (Action m n))
      (es : List (Event m n)), x.Reachable → x.system.dispatching s = false →
      Moment.Throughout s (x.dispatched s now) actions →
      ((x.dispatched s now).run actions).system.course =
        (x.dispatched s now).system.course ++ es →
      (∀ t ∈ visits s es, t ∈ x.system.due s now) ∧ (visits s es).Nodup ∧
        (visits s es).length ≤ (x.system.armedTimers s).length := by
  intro h
  have hvisits : visits 0 ((Machine.fiveBound.dispatched 0 (.new 2 0)).added leavingLinks) =
      [0, 1, 2] := by decide
  have hwalk := h 3 5 .fiveBound 0 (.new 2 0) leavingLinks
    ((Machine.fiveBound.dispatched 0 (.new 2 0)).added leavingLinks) ⟨_, _, rfl⟩ (by decide)
    (by decide) (by decide)
  rw [hvisits] at hwalk
  revert hwalk
  decide

end SoftTimer
