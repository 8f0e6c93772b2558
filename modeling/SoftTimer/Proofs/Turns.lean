import SoftTimer.Proofs.Reachable

/-!
# The turns of a pass

A pass takes the timers that are due out of the list and comes to them one by one.  Meanwhile
callbacks may do anything, and passes of other schedulers may begin and end.  A timer that a
callback releases can be armed on another scheduler and taken out by a pass of that scheduler while
it still waits for its turn.  Then it is stolen: it is chained up anew, and its old chain is lost.

While no waiting timer is stolen, the pass keeps to its chain.  When it comes to a stolen timer, it
goes on along the chains of other passes, and never comes to a timer again that no other pass took
out.

Main definitions:

- `visits`, `taken`, `Stolen`: what the course of events tells about turns.
- `OnTrack`, `OffTrack`: whether a pass keeps to its chain.
- `Underway`, `Over`, `Status`: a pass from its beginning to its end.

Main results:

- Theorem `Status.change`: every step leaves a pass under way, or ends it.
- Theorems `Status.visits_of_not_stolen` and `Status.visits_of_stolen`: the timers that a pass comes
  to, and their order.
-/

namespace SoftTimer

variable {m n : Nat}

/-! ## What events tell -/

/-- The timer that a pass of `s` came to. -/
def Event.visitedBy (s : Fin m) : Event m n → Option (Fin n)
  | .visited r t => if r = s then some t else none
  | _ => none

/-- The timer that a pass took out. -/
def Event.detached? : Event m n → Option (Fin n)
  | .detached _ t _ => some t
  | _ => none

/-- The timers that passes of `s` came to, one after another. -/
def visits (s : Fin m) (es : List (Event m n)) : List (Fin n) :=
  es.filterMap (Event.visitedBy s)

/-- The timers that passes took out, one after another. -/
def taken (es : List (Event m n)) : List (Fin n) :=
  es.filterMap Event.detached?

/-- Another scheduler than `s` took the timer out before a pass of `s` came to it. -/
def Stolen (s : Fin m) (es : List (Event m n)) (t : Fin n) : Prop :=
  ∃ before r d after, es = before ++ .detached r t d :: after ∧ r ≠ s ∧ t ∉ visits s before

section Events

variable {s r : Fin m} {t u : Fin n} {es more : List (Event m n)}

@[simp]
theorem visits_append (s : Fin m) (es more : List (Event m n)) :
    visits s (es ++ more) = visits s es ++ visits s more :=
  List.filterMap_append

@[simp]
theorem taken_append (es more : List (Event m n)) : taken (es ++ more) = taken es ++ taken more :=
  List.filterMap_append

/-- A timer was taken out exactly if an event tells so. -/
theorem mem_taken : t ∈ taken es ↔ ∃ r d, .detached r t d ∈ es := by
  rw [taken, List.mem_filterMap]
  constructor
  · rintro ⟨e, he, htimer⟩
    cases e <;> simp only [Event.detached?, Option.some.injEq, reduceCtorEq] at htimer
    exact ⟨_, _, htimer ▸ he⟩
  · rintro ⟨r, d, he⟩
    exact ⟨_, he, rfl⟩

/-- The event that a pass of `s` came to a timer is the only one of which that is read. -/
theorem Event.visitedBy_eq_some_iff {e : Event m n} :
    e.visitedBy s = some t ↔ e = .visited s t := by
  cases e <;> simp [visitedBy]

/-- A pass of `s` came to a timer exactly if an event tells so. -/
theorem mem_visits : t ∈ visits s es ↔ .visited s t ∈ es := by
  simp [visits, Event.visitedBy_eq_some_iff]

@[simp]
theorem visits_began (s r : Fin m) (now : Timespec) (due : List (Fin n))
    (d : Fin n → Timespec) :
    visits s (.began r now :: due.map fun t => .detached r t (d t)) = [] := by
  simp [visits, Event.visitedBy]

@[simp]
theorem taken_detached (r : Fin m) (due : List (Fin n)) (d : Fin n → Timespec) :
    taken (due.map fun t => .detached r t (d t)) = due := by
  rw [taken, List.filterMap_map]
  exact List.filterMap_some

@[simp]
theorem taken_began (r : Fin m) (now : Timespec) (due : List (Fin n)) (d : Fin n → Timespec) :
    taken (.began r now :: due.map fun t => .detached r t (d t)) = due :=
  taken_detached r due d

@[simp]
theorem visits_visited (s r : Fin m) (t : Fin n) (callback : Option CallbackId)
    (arg : CallbackArg) :
    visits s (.visited r t :: (callback.map fun callback => .called r t callback arg).toList) =
      if r = s then [t] else [] := by
  cases callback <;> by_cases hr : r = s <;> simp [visits, Event.visitedBy, hr]

@[simp]
theorem taken_visited (r : Fin m) (t : Fin n) (callback : Option CallbackId) (arg : CallbackArg) :
    taken (.visited r t :: (callback.map fun callback => .called r t callback arg).toList) = [] := by
  cases callback <;> simp [taken, Event.detached?]

@[simp]
theorem visits_finished (s r : Fin m) : visits s ([.finished r] : List (Event m n)) = [] :=
  rfl

@[simp]
theorem taken_finished (r : Fin m) : taken ([.finished r] : List (Event m n)) = [] :=
  rfl

/-- Where at most a command was answered, no pass came to a timer. -/
theorem visits_other (s : Fin m)
    (h : es = [] ∨ ∃ s c reply, es = [.answered s (.command c) reply]) : visits s es = [] := by
  rcases h with rfl | ⟨s, c, reply, rfl⟩ <;> rfl

/-- Where at most a command was answered, no timer was taken out. -/
theorem taken_other (h : es = [] ∨ ∃ s c reply, es = [.answered s (.command c) reply]) :
    taken es = [] := by
  rcases h with rfl | ⟨s, c, reply, rfl⟩ <;> rfl

/-! ### Stolen timers -/

/-- A stolen timer was taken out. -/
theorem Stolen.mem_taken (h : Stolen s es t) : t ∈ taken es := by
  rcases h with ⟨before, r, d, after, rfl, -, -⟩
  exact SoftTimer.mem_taken.2 ⟨r, d, by simp⟩

/-- A timer is stolen within two stretches of events if it is within the first, or within the second
and the pass has not come to it within the first. -/
theorem stolen_append :
    Stolen s (es ++ more) t ↔ Stolen s es t ∨ t ∉ visits s es ∧ Stolen s more t := by
  constructor
  · rintro ⟨before, r, d, after, hcut, hr, ht⟩
    rcases List.append_eq_append_iff.1 hcut with ⟨a, rfl, hmore⟩ | ⟨a, hes, hafter⟩
    · rw [visits_append, List.mem_append, not_or] at ht
      exact .inr ⟨ht.1, a, r, d, after, hmore, hr, ht.2⟩
    · cases a with
      | nil =>
        rw [List.append_nil] at hes
        exact .inr ⟨hes ▸ ht, [], r, d, after, hafter.symm, hr, List.not_mem_nil⟩
      | cons e a =>
        rcases List.cons.inj hafter with ⟨rfl, rfl⟩
        exact .inl ⟨before, r, d, a, hes, hr, ht⟩
  · rintro (⟨before, r, d, after, rfl, hr, ht⟩ | ⟨hes, before, r, d, after, rfl, hr, ht⟩)
    · exact ⟨before, r, d, after ++ more, by simp, hr, ht⟩
    · refine ⟨es ++ before, r, d, after, by simp, hr, ?_⟩
      rw [visits_append, List.mem_append, not_or]
      exact ⟨hes, ht⟩

/-- Once a pass came to a timer, it is too late to steal it. -/
theorem not_stolen_append (h : ¬ Stolen s es t) (ht : t ∈ visits s es) :
    ¬ Stolen s (es ++ more) t := by
  rw [stolen_append, not_or]
  exact ⟨h, fun hmore => hmore.1 ht⟩

/-- A timer that only other schedulers took out while it waited is stolen. -/
theorem stolen_of_mem_taken (hown : ∀ r t d, .detached r t d ∈ es → r ≠ s) (ht : t ∈ taken es)
    (hwaits : t ∉ visits s es) : Stolen s es t := by
  rcases SoftTimer.mem_taken.1 ht with ⟨r, d, hmem⟩
  rcases List.append_of_mem hmem with ⟨before, after, rfl⟩
  refine ⟨before, r, d, after, rfl, hown r t d hmem, ?_⟩
  rw [visits_append, List.mem_append, not_or] at hwaits
  exact hwaits.1

end Events

/-! ## How a pass stands to its timers -/

/-- So far the pass has come to the first timers of those it took out, and none of these was stolen
before.  Its chain leads on through the others, as far as they are not stolen. -/
structure OnTrack (s : Fin m) (due : List (Fin n)) (next : Option (Fin n)) (x : Moment m n)
    (es : List (Event m n)) (rest : List (Fin n)) : Prop where
  due_eq : due = visits s es ++ rest
  next_eq : next = rest.head?
  chained : ∀ a t b, rest = a ++ t :: b → t ∉ taken es →
    (x.system.timer t).firedNext = b.head?
  not_stolen : ∀ t ∈ visits s es, ¬ Stolen s es t

/-- The pass came to a stolen timer, the first one of those it took out that was stolen in time, and
since then to nothing but timers that other passes took out. -/
def OffTrack (s : Fin m) (due : List (Fin n)) (es : List (Event m n)) : Prop :=
  ∃ before t later, visits s es = before ++ t :: later ∧ before ++ [t] <+: due ∧
    (∀ u ∈ before, ¬ Stolen s es u) ∧ Stolen s es t ∧ ∀ u ∈ later, u ∈ taken es

/-- A pass that is off its track stays so, as long as it comes to timers only that were taken
out. -/
theorem OffTrack.append {s : Fin m} {due : List (Fin n)} {es more : List (Event m n)}
    (h : OffTrack s due es) (hmore : ∀ u ∈ visits s more, u ∈ taken (es ++ more)) :
    OffTrack s due (es ++ more) := by
  rcases h with ⟨before, t, later, hvisits, hinit, hbefore, ht, hlater⟩
  refine ⟨before, t, later ++ visits s more, by simp [hvisits], hinit, ?_, ?_, ?_⟩
  · intro u hu
    exact not_stolen_append (hbefore u hu) (by simp [hvisits, hu])
  · exact stolen_append.2 (.inl ht)
  · intro u hu
    rcases List.mem_append.1 hu with hu | hu
    · rw [taken_append]
      exact List.mem_append_left _ (hlater u hu)
    · exact hmore u hu

/-- How a pass that stands before `next` stands to the timers it took out. -/
def Track (s : Fin m) (due : List (Fin n)) (next : Option (Fin n)) (x : Moment m n)
    (es : List (Event m n)) : Prop :=
  (∃ rest, OnTrack s due next x es rest) ∨
    OffTrack s due es ∧ ∀ u, next = some u → u ∈ taken es

/-- A pass stays where it is while it comes to no timer, and the chain of the timers that are not
taken out is left alone. -/
theorem Track.append {s : Fin m} {due : List (Fin n)} {next : Option (Fin n)} {x y : Moment m n}
    {es more : List (Event m n)} (h : Track s due next x es) (hvisits : visits s more = [])
    (hfired : ∀ t, t ∉ taken (es ++ more) →
      (y.system.timer t).firedNext = (x.system.timer t).firedNext) :
    Track s due next y (es ++ more) := by
  have hsame : visits s (es ++ more) = visits s es := by simp [hvisits]
  rcases h with ⟨rest, hon⟩ | ⟨hoff, hnext⟩
  · refine .inl ⟨rest, ?_, hon.next_eq, ?_, ?_⟩
    · rw [hsame, hon.due_eq]
    · intro a t b hcut ht
      rw [hfired t ht]
      rw [taken_append, List.mem_append, not_or] at ht
      exact hon.chained a t b hcut ht.1
    · intro t ht
      rw [hsame] at ht
      exact not_stolen_append (hon.not_stolen t ht) ht
  · refine .inr ⟨hoff.append (by simp [hvisits]), ?_⟩
    intro u hu
    rw [taken_append]
    exact List.mem_append_left _ (hnext u hu)

section Visited

variable {s : Fin m} {due b : List (Fin n)} {t : Fin n} {x y : Moment m n}
  {es more : List (Event m n)}

/-- A pass on its track stands before the next one of its timers. -/
theorem OnTrack.eq_cons {rest : List (Fin n)} (h : OnTrack s due (some t) x es rest) :
    ∃ b, rest = t :: b := by
  rcases rest with _ | ⟨v, b⟩
  · simpa using h.next_eq
  · obtain rfl : t = v := by simpa using h.next_eq
    exact ⟨b, rfl⟩

/-- At the end of its chain the pass has come to all timers it took out. -/
theorem OnTrack.visits_eq {rest : List (Fin n)} (h : OnTrack s due none x es rest) :
    visits s es = due := by
  have hrest : rest = [] := List.head?_eq_none_iff.1 h.next_eq.symm
  rw [h.due_eq, hrest, List.append_nil]

/-- The timer that the pass comes to next is a new one, and does not wait a second time. -/
theorem OnTrack.fresh (h : OnTrack s due (some t) x es (t :: b)) (hnd : due.Nodup) :
    t ∉ visits s es ∧ t ∉ b := by
  rw [h.due_eq] at hnd
  constructor
  · exact fun hmem => List.disjoint_of_nodup_append hnd hmem List.mem_cons_self
  · exact (List.nodup_cons.1 (List.nodup_append.1 hnd).2.1).1

/-- Coming to a timer that was not taken out again, the pass stays on track. -/
theorem OnTrack.visited (h : OnTrack s due (some t) x es (t :: b)) (hnd : due.Nodup)
    (ht : t ∉ taken es)
    (htimer : ∀ u, y.system.timer u =
      if u = t then { x.system.timer t with firedNext := none } else x.system.timer u)
    (hvisits : visits s more = [t]) (htaken : taken more = []) :
    OnTrack s due (x.system.timer t).firedNext y (es ++ more) b := by
  have hsame : taken (es ++ more) = taken es := by simp [htaken]
  refine ⟨by simp [hvisits, h.due_eq], h.chained [] t b rfl ht, ?_, ?_⟩
  · rintro a v d rfl hv
    have hvt : v ≠ t := fun heq => (h.fresh hnd).2 (by simp [heq])
    rw [hsame] at hv
    rw [htimer, if_neg hvt]
    exact h.chained (t :: a) v d rfl hv
  · intro u hu
    rw [visits_append, hvisits, List.mem_append, List.mem_singleton] at hu
    rcases hu with hu | rfl
    · exact not_stolen_append (h.not_stolen u hu) hu
    · exact fun hstolen => ht (hsame ▸ hstolen.mem_taken)

/-- Coming to a timer that was taken out again, the pass leaves its track: that timer is the first
one that was stolen. -/
theorem OnTrack.offTrack (h : OnTrack s due (some t) x es (t :: b)) (hnd : due.Nodup)
    (ht : t ∈ taken es) (hown : ∀ r t d, .detached r t d ∈ es → r ≠ s)
    (hvisits : visits s more = [t]) : OffTrack s due (es ++ more) := by
  have hstolen : Stolen s es t := stolen_of_mem_taken hown ht (h.fresh hnd).1
  refine ⟨visits s es, t, [], by simp [hvisits], ⟨b, by simp [h.due_eq]⟩, ?_,
    stolen_append.2 (.inl hstolen), by simp⟩
  intro u hu
  exact not_stolen_append (h.not_stolen u hu) hu

/-- When the pass comes to the timer it stands before, it stays on track exactly if that timer was
not stolen. -/
theorem Track.visited (h : Track s due (some t) x es) (hnd : due.Nodup)
    (hown : ∀ r t d, .detached r t d ∈ es → r ≠ s)
    (hclosed : ∀ t ∈ taken es, ∀ u, (x.system.timer t).firedNext = some u → u ∈ taken es)
    (htimer : ∀ u, y.system.timer u =
      if u = t then { x.system.timer t with firedNext := none } else x.system.timer u)
    (hvisits : visits s more = [t]) (htaken : taken more = []) :
    Track s due (x.system.timer t).firedNext y (es ++ more) := by
  have hsame : taken (es ++ more) = taken es := by simp [htaken]
  have hleads : t ∈ taken es →
      ∀ u, (x.system.timer t).firedNext = some u → u ∈ taken (es ++ more) := by
    intro ht
    rw [hsame]
    exact hclosed t ht
  rcases h with ⟨rest, hon⟩ | ⟨hoff, hnext⟩
  · rcases hon.eq_cons with ⟨b, rfl⟩
    by_cases ht : t ∈ taken es
    · exact .inr ⟨hon.offTrack hnd ht hown hvisits, hleads ht⟩
    · exact .inl ⟨b, hon.visited hnd ht htimer hvisits htaken⟩
  · refine .inr ⟨hoff.append ?_, hleads (hnext t rfl)⟩
    intro u hu
    rw [hvisits, List.mem_singleton] at hu
    rw [hsame, hu]
    exact hnext t rfl

end Visited

/-- A pass of `s` is under way: `c` is where it stands, `inner` are the passes that began since and
have not ended.  Whatever was taken out since only leads to other timers taken out since. -/
structure Underway (s : Fin m) (due : List (Fin n)) (x : Moment m n) (es : List (Event m n))
    (inner : List (Cursor m n)) (c : Cursor m n) : Prop where
  dispatching : x.system.dispatching s = true
  scheduler : c.scheduler = s
  passes : ∃ outer, x.passes = inner ++ c :: outer
  others : ∀ p ∈ inner, p.scheduler ≠ s ∧ ∀ u, p.next = some u → u ∈ taken es
  own : ∀ r t d, .detached r t d ∈ es → r ≠ s
  closed : ∀ t ∈ taken es, ∀ u, (x.system.timer t).firedNext = some u → u ∈ taken es
  track : Track s due c.next x es

/-- A pass of `s` is over. -/
structure Over (s : Fin m) (due : List (Fin n)) (x : Moment m n) (es : List (Event m n)) :
    Prop where
  dispatching : x.system.dispatching s = false
  own : ∀ r t d, .detached r t d ∈ es → r ≠ s
  track : (visits s es = due ∧ ∀ t ∈ due, ¬ Stolen s es t) ∨ OffTrack s due es

namespace Underway

variable {s : Fin m} {due : List (Fin n)} {x y : Moment m n} {es more : List (Event m n)}
  {inner : List (Cursor m n)} {c : Cursor m n}

/-- The code in control did something that concerns no pass. -/
theorem other (h : Underway s due x es inner c)
    (hmore : more = [] ∨ ∃ s c reply, more = [.answered s (.command c) reply])
    (hpasses : y.passes = x.passes) (hdispatching : y.system.dispatching = x.system.dispatching)
    (hfired : ∀ u, (y.system.timer u).firedNext = (x.system.timer u).firedNext) :
    Underway s due y (es ++ more) inner c := by
  have htaken : taken (es ++ more) = taken es := by simp [taken_other hmore]
  refine ⟨?_, h.scheduler, ?_, ?_, ?_, ?_, ?_⟩
  · rw [hdispatching, h.dispatching]
  · rw [hpasses]
    exact h.passes
  · rw [htaken]
    exact h.others
  · intro r t d hmem
    rcases hmore with rfl | ⟨r', c', reply, rfl⟩
    · exact h.own r t d (by simpa using hmem)
    · exact h.own r t d (by simpa using hmem)
  · intro t
    rw [htaken, hfired]
    exact h.closed t
  · exact h.track.append (visits_other s hmore) fun t _ => hfired t

/-- Another pass began.  What it took out is chained up, and leads to nothing else. -/
theorem began (h : Underway s due x es inner c) {r : Fin m} {now : Timespec}
    {found : List (Fin n)} {armed : Fin m → List (Fin n)} (hidle : x.system.dispatching r = false)
    (hpasses : y.passes = ⟨r, now, found.head?⟩ :: x.passes)
    (hbegun : System.Begun r now found armed x.system y.system)
    (hmore : more = .began r now :: found.map fun t =>
      .detached r t (x.system.timer t).deadline) :
    Underway s due y (es ++ more) (⟨r, now, found.head?⟩ :: inner) c := by
  have hrs : r ≠ s := by
    rintro rfl
    simp [h.dispatching] at hidle
  have htaken : taken (es ++ more) = taken es ++ found := by simp [hmore]
  refine ⟨?_, h.scheduler, ?_, ?_, ?_, ?_, ?_⟩
  · rw [hbegun.dispatching, Function.update_of_ne hrs.symm, h.dispatching]
  · rcases h.passes with ⟨outer, houter⟩
    exact ⟨outer, by rw [hpasses, houter, List.cons_append]⟩
  · intro p hp
    rw [htaken]
    rcases List.mem_cons.1 hp with rfl | hp
    · exact ⟨hrs, fun u hu => List.mem_append_right _ (List.mem_of_head? hu)⟩
    · rcases h.others p hp with ⟨hps, hnext⟩
      exact ⟨hps, fun u hu => List.mem_append_left _ (hnext u hu)⟩
  · intro r' t d hmem
    rcases List.mem_append.1 hmem with hmem | hmem
    · exact h.own r' t d hmem
    · obtain ⟨-, rfl⟩ : t ∈ found ∧ r = r' := by
        rw [hmore] at hmem
        grind
      exact hrs
  · intro t ht u hu
    rw [htaken, List.mem_append] at ht ⊢
    by_cases hmem : t ∈ found
    · rcases List.append_of_mem hmem with ⟨a, b, hcut⟩
      rw [hbegun.chained a t b hcut] at hu
      rw [hcut]
      exact .inr (List.mem_append_right _ (List.mem_cons_of_mem _ (List.mem_of_head? hu)))
    · rw [hbegun.firedNext hmem] at hu
      exact .inl (h.closed t (ht.resolve_right hmem) u hu)
  · refine h.track.append (by simp [hmore]) ?_
    intro t ht
    rw [htaken, List.mem_append, not_or] at ht
    exact hbegun.firedNext ht.2

/-- The pass in control is the pass itself, or the innermost one that began since. -/
theorem control (h : Underway s due x es inner c) {p : Cursor m n} (hcursor : x.cursor = some p) :
    inner = [] ∧ p = c ∨
      ∃ rest outer, inner = p :: rest ∧ x.frames.map Frame.cursor = rest ++ c :: outer := by
  rcases h.passes with ⟨outer, houter⟩
  rw [Moment.passes_of_cursor hcursor] at houter
  cases inner with
  | nil => exact .inl ⟨rfl, (List.cons.inj houter).1⟩
  | cons q rest =>
    rcases List.cons.inj houter with ⟨rfl, hrest⟩
    exact .inr ⟨rest, outer, rfl, hrest⟩

/-- The pass in control came to a timer of its chain. -/
theorem visited (h : Underway s due x es inner c) (hnd : due.Nodup) {p : Cursor m n} {t : Fin n}
    (hcursor : x.cursor = some p) (hnext : p.next = some t)
    (hpasses : y.passes =
      { p with next := (x.system.timer t).firedNext } :: x.frames.map Frame.cursor)
    (hdispatching : y.system.dispatching = x.system.dispatching)
    (htimer : ∀ u, y.system.timer u =
      if u = t then { x.system.timer t with firedNext := none } else x.system.timer u)
    (hmore : more = .visited p.scheduler t ::
      ((x.system.timer t).callback.map fun callback =>
        .called p.scheduler t callback (x.system.timer t).arg).toList) :
    ∃ inner' c', Underway s due y (es ++ more) inner' c' := by
  have htaken : taken (es ++ more) = taken es := by simp [hmore]
  have hown : ∀ r u d, .detached r u d ∈ es ++ more → r ≠ s := by
    intro r u d hmem
    refine h.own r u d ((List.mem_append.1 hmem).resolve_right ?_)
    rw [hmore]
    simp
  have hclosed : ∀ u ∈ taken (es ++ more), ∀ v,
      (y.system.timer u).firedNext = some v → v ∈ taken (es ++ more) := by
    intro u hu v hv
    rw [htaken] at hu ⊢
    rw [htimer] at hv
    by_cases hut : u = t
    · simp [hut] at hv
    · rw [if_neg hut] at hv
      exact h.closed u hu v hv
  rcases h.control hcursor with ⟨rfl, rfl⟩ | ⟨rest, outer, rfl, hrest⟩
  · refine ⟨[], { p with next := (x.system.timer t).firedNext }, ?_, h.scheduler,
      ⟨x.frames.map Frame.cursor, hpasses⟩, by simp, hown, hclosed, ?_⟩
    · rw [hdispatching, h.dispatching]
    · have htrack := h.track
      rw [hnext] at htrack
      apply htrack.visited hnd h.own h.closed htimer
      · simp [hmore, h.scheduler]
      · simp [hmore]
  · rcases h.others p List.mem_cons_self with ⟨hps, hp⟩
    have ht := hp t hnext
    refine ⟨{ p with next := (x.system.timer t).firedNext } :: rest, c, ?_, h.scheduler,
      ⟨outer, ?_⟩, ?_, hown, hclosed, ?_⟩
    · rw [hdispatching, h.dispatching]
    · rw [hpasses, hrest]
      rfl
    · intro q hq
      rw [htaken]
      rcases List.mem_cons.1 hq with rfl | hq
      · exact ⟨hps, h.closed t ht⟩
      · exact h.others q (List.mem_cons_of_mem _ hq)
    · apply h.track.append
      · simp [hmore, hps]
      · intro u hu
        have hut : u ≠ t := by
          rintro rfl
          exact hu (htaken ▸ ht)
        rw [htimer, if_neg hut]

/-- The pass in control ended. -/
theorem finished (h : Underway s due x es inner c) {p : Cursor m n} (hcursor : x.cursor = some p)
    (hnext : p.next = none) (hpasses : y.passes = x.frames.map Frame.cursor)
    (hdispatching : y.system.dispatching =
      Function.update x.system.dispatching p.scheduler false)
    (htimers : y.system.timers = x.system.timers) (hmore : more = [.finished p.scheduler]) :
    (∃ inner', Underway s due y (es ++ more) inner' c) ∨ Over s due y (es ++ more) := by
  have htaken : taken (es ++ more) = taken es := by simp [hmore]
  have htimer : ∀ u, y.system.timer u = x.system.timer u :=
    fun u => congrArg (Table.get · u) htimers
  have hown : ∀ r u d, .detached r u d ∈ es ++ more → r ≠ s := by
    intro r u d hmem
    exact h.own r u d (by simpa [hmore] using hmem)
  have htrack : Track s due c.next y (es ++ more) :=
    h.track.append (by simp [hmore]) fun u _ => by rw [htimer]
  rcases h.control hcursor with ⟨rfl, rfl⟩ | ⟨rest, outer, rfl, hrest⟩
  · refine .inr ⟨?_, hown, ?_⟩
    · rw [hdispatching, h.scheduler, Function.update_self]
    · rw [hnext] at htrack
      rcases htrack with ⟨rest, hon⟩ | ⟨hoff, -⟩
      · exact .inl ⟨hon.visits_eq, hon.visits_eq ▸ hon.not_stolen⟩
      · exact .inr hoff
  · rcases h.others p List.mem_cons_self with ⟨hps, -⟩
    refine .inl ⟨rest, ?_, h.scheduler, ⟨outer, hpasses.trans hrest⟩, ?_, hown, ?_, htrack⟩
    · rw [hdispatching, Function.update_of_ne hps.symm, h.dispatching]
    · intro q hq
      rw [htaken]
      exact h.others q (List.mem_cons_of_mem _ hq)
    · intro u
      rw [htaken, htimer]
      exact h.closed u

end Underway

/-- A pass of `s` that took out the timers `due` is under way or over. -/
def Status (s : Fin m) (due : List (Fin n)) (x : Moment m n) (es : List (Event m n)) : Prop :=
  (∃ inner c, Underway s due x es inner c) ∨ Over s due x es

namespace Status

variable {s : Fin m} {due : List (Fin n)} {x y : Moment m n} {es more : List (Event m n)}

/-- Every step leaves a pass under way, or ends it. -/
theorem change (h : Status s due x es) (hnd : due.Nodup) (hs : x.system.dispatching s = true)
    (hchange : Moment.Change x y more) : Status s due y (es ++ more) := by
  rcases h with ⟨inner, c, h⟩ | h
  · cases hchange with
    | other _ hmore hpasses hdispatching hfired =>
      exact .inl ⟨_, _, h.other hmore hpasses hdispatching hfired⟩
    | began _ hidle _ hpasses hbegun => exact .inl ⟨_, _, h.began hidle hpasses hbegun rfl⟩
    | visited hcursor hnext hpasses hdispatching htimer =>
      exact .inl (h.visited hnd hcursor hnext hpasses hdispatching htimer rfl)
    | finished hcursor hnext hpasses hdispatching htimers =>
      rcases h.finished hcursor hnext hpasses hdispatching htimers rfl with ⟨inner', h'⟩ | h'
      · exact .inl ⟨_, _, h'⟩
      · exact .inr h'
  · simp [h.dispatching] at hs

/-- Since a pass began, only passes of other schedulers took timers out. -/
theorem own (h : Status s due x es) : ∀ r t d, .detached r t d ∈ es → r ≠ s := by
  rcases h with ⟨inner, c, h⟩ | h
  · exact h.own
  · exact h.own

/-- As long as no timer of the pass is stolen, it comes to them in their order. -/
theorem visits_of_not_stolen (h : Status s due x es) (hnone : ∀ t ∈ due, ¬ Stolen s es t) :
    visits s es <+: due ∧ (x.system.dispatching s = false → visits s es = due) := by
  have hoff : ¬ OffTrack s due es := by
    rintro ⟨before, t, later, -, hinit, -, ht, -⟩
    exact hnone t (hinit.subset (by simp)) ht
  rcases h with ⟨inner, c, h⟩ | h
  · rcases h.track with ⟨rest, hon⟩ | ⟨hoff', -⟩
    · refine ⟨⟨rest, hon.due_eq.symm⟩, ?_⟩
      intro hover
      simp [h.dispatching] at hover
    · exact absurd hoff' hoff
  · rcases h.track with ⟨hall, -⟩ | hoff'
    · exact ⟨by rw [hall], fun _ => hall⟩
    · exact absurd hoff' hoff

end Status

/-- The first stolen timer of a list is determined. -/
theorem eq_of_first_stolen {s : Fin m} {es : List (Event m n)} {a b c d : List (Fin n)}
    {t u : Fin n} (h : a ++ t :: b = c ++ u :: d) (ha : ∀ v ∈ a, ¬ Stolen s es v)
    (ht : Stolen s es t) (hc : ∀ v ∈ c, ¬ Stolen s es v) (hu : Stolen s es u) :
    a = c ∧ t = u := by
  rcases List.append_eq_append_iff.1 h with ⟨e, rfl, hb⟩ | ⟨e, rfl, hd⟩
  · cases e with
    | nil => simpa using (List.cons.inj hb).1
    | cons v e =>
      rcases List.cons.inj hb with ⟨rfl, -⟩
      exact absurd ht (hc t (by simp))
  · cases e with
    | nil => simpa using (List.cons.inj hd).1.symm
    | cons v e =>
      rcases List.cons.inj hd with ⟨rfl, -⟩
      exact absurd hu (ha u (by simp))

/-- A pass off its track came to all of its timers up to the first stolen one, and from there to
timers that other passes took out. -/
theorem OffTrack.visits_eq {s : Fin m} {due before after : List (Fin n)} {t : Fin n}
    {es : List (Event m n)} (h : OffTrack s due es) (hdue : due = before ++ t :: after)
    (hbefore : ∀ u ∈ before, ¬ Stolen s es u) (ht : Stolen s es t) :
    ∃ later, visits s es = before ++ t :: later ∧ ∀ u ∈ later, u ∈ taken es := by
  rcases h with ⟨a, v, later, hvisits, ⟨b, hinit⟩, ha, hv, hlater⟩
  rw [hdue, List.append_assoc] at hinit
  rcases eq_of_first_stolen hinit ha hv hbefore ht with ⟨rfl, rfl⟩
  exact ⟨later, hvisits, hlater⟩

/-- A pass still on its track did not get beyond the first stolen timer. -/
theorem OnTrack.visits_of_stolen {s : Fin m} {due before after rest : List (Fin n)} {t : Fin n}
    {next : Option (Fin n)} {x : Moment m n} {es : List (Event m n)}
    (h : OnTrack s due next x es rest) (hdue : due = before ++ t :: after)
    (ht : Stolen s es t) : visits s es <+: before := by
  have hcut := h.due_eq.symm.trans hdue
  rcases List.append_eq_append_iff.1 hcut with ⟨e, he, -⟩ | ⟨e, he, hrest⟩
  · exact ⟨e, he.symm⟩
  · cases e with
    | nil => exact ⟨[], by simpa using he⟩
    | cons v e =>
      rcases List.cons.inj hrest with ⟨rfl, -⟩
      exact absurd ht (h.not_stolen t (by simp [he]))

/-- Up to the first timer that is stolen the pass comes to its timers in their order. -/
theorem Status.visits_of_stolen {s : Fin m} {due before after : List (Fin n)} {t : Fin n}
    {x : Moment m n} {es : List (Event m n)} (h : Status s due x es)
    (hdue : due = before ++ t :: after) (hbefore : ∀ u ∈ before, ¬ Stolen s es u)
    (ht : Stolen s es t) :
    (visits s es <+: before ∨ before ++ [t] <+: visits s es) ∧
      (x.system.dispatching s = false → before ++ [t] <+: visits s es) := by
  have hoff : OffTrack s due es → before ++ [t] <+: visits s es := by
    intro hoff
    rcases hoff.visits_eq hdue hbefore ht with ⟨later, hvisits, -⟩
    exact ⟨later, by simp [hvisits]⟩
  rcases h with ⟨inner, c, h⟩ | h
  · refine ⟨?_, fun hover => by simp [h.dispatching] at hover⟩
    rcases h.track with ⟨rest, hon⟩ | ⟨hoff', -⟩
    · exact .inl (hon.visits_of_stolen hdue ht)
    · exact .inr (hoff hoff')
  · rcases h.track with ⟨-, hnone⟩ | hoff'
    · exact absurd ht (hnone t (by simp [hdue]))
    · exact ⟨.inr (hoff hoff'), fun _ => hoff hoff'⟩

end SoftTimer
