import SoftTimer.Proofs.Isolation
import SoftTimer.Proofs.Loops
import SoftTimer.Proofs.Sequence

/-!
# What collecting makes of a list

Collecting splits the list of a scheduler into the timers that are due and the rest.  Those that are
due are chained up, and then the periodic ones among them are put back, one after another, each at
its next deadline.  All are out before the first one is put back, so a timer that is late by several
periods is taken out once, and stays armed.

Main definitions:

- `placedAll`: elements put into a list one after another, each in its place.
- `System.ExactCollection`: what collecting makes of the timers and of the list.

Main results:

- Theorem `System.Sound.rearm_all_placed`: where rearming puts the timers.
- Theorem `Moment.Reachable.exact_collection`: collecting splits the list and rearms exactly.
-/

namespace SoftTimer

/-! ## Placing one element after another -/

section PlacedAll

variable {α : Type} {key : α → Timespec} {l : List α} {t : α}

/-- A list with new elements put in one after another, each of them behind the longest first part
whose keys are not above its own. -/
def placedAll (key : α → Timespec) (new l : List α) : List α :=
  new.foldl (fun l t => placed (fun u => decide (key u ≤ key t)) t l) l

/-- Placing elements one after another may be done in two parts. -/
theorem placedAll_append (a b l : List α) :
    placedAll key (a ++ b) l = placedAll key b (placedAll key a l) :=
  List.foldl_append

@[simp]
theorem mem_placedAll {new : List α} : t ∈ placedAll key new l ↔ t ∈ new ∨ t ∈ l := by
  induction new generalizing l with
  | nil => simp [placedAll]
  | cons u new ih =>
    have hrest : placedAll key (u :: new) l =
        placedAll key new (placed (fun v => decide (key v ≤ key u)) u l) := rfl
    rw [hrest, ih, mem_placed, List.mem_cons]
    tauto

end PlacedAll

/-- In a list without repetition, leaving out a first part leaves the rest. -/
theorem filter_notMem_takeWhile {α : Type} [DecidableEq α] {l : List α} (hl : l.Nodup)
    (p : α → Bool) : (l.filter fun t => decide (t ∉ l.takeWhile p)) = l.dropWhile p := by
  have hcut := List.takeWhile_append_dropWhile (p := p) (l := l)
  have hdisjoint := hl
  rw [← hcut] at hdisjoint
  have hnone : ((l.takeWhile p).filter fun t => decide (t ∉ l.takeWhile p)) = [] := by
    rw [List.filter_eq_nil_iff]
    intro t ht
    simpa using ht
  have hall : ((l.dropWhile p).filter fun t => decide (t ∉ l.takeWhile p)) = l.dropWhile p := by
    rw [List.filter_eq_self]
    intro t ht
    simpa using fun hmem => List.disjoint_of_nodup_append hdisjoint hmem ht
  calc (l.filter fun t => decide (t ∉ l.takeWhile p))
      = ((l.takeWhile p).filter fun t => decide (t ∉ l.takeWhile p)) ++
          ((l.dropWhile p).filter fun t => decide (t ∉ l.takeWhile p)) := by
        rw [← List.filter_append, hcut]
    _ = l.dropWhile p := by rw [hnone, hall, List.nil_append]

variable {m n : Nat}

namespace System

variable {sys : System m n} {armed : Fin m → List (Fin n)} {s r : Fin m} {t u : Fin n}
  {now : Timespec} {key : Fin n → Timespec} {timers : List (Fin n)}

/-! ## Where rearming puts timers -/

/-- Whether a timer will be put back when the turn comes to rearm it. -/
def renews (sys : System m n) (t : Fin n) : Bool :=
  (sys.timer t).renewal?.isSome

/-- Rearming one timer changes nothing but links in the others. -/
theorem body_rearm_of_ne (hut : u ≠ t) (s : Fin m) :
    ((sys.rearm s t).timer u).body = (sys.timer u).body :=
  (rearmed_rearm sys s t).body_of_notMem u (by simpa using hut)

/-- A disarmed timer that has a next deadline is put back by it; otherwise the list stays. -/
theorem Sound.rearm_placed (h : sys.Sound armed) (ht : (sys.timer t).armed = false)
    (howner : (sys.timer t).owner = some s)
    (hbound : ∃ callback, (sys.timer t).callback = some callback)
    (hkey : ∀ u ∈ armed s, key u = (sys.timer u).deadline)
    (hnew : ∀ d, (sys.timer t).renewal? = some d → key t = d) :
    (sys.rearm s t).Sound
      (Function.update armed s (placedAll key ([t].filter sys.renews) (armed s))) := by
  cases hrenewal : (sys.timer t).renewal? with
  | none =>
    have hstay : [t].filter sys.renews = [] := by simp [renews, hrenewal]
    have hlist : placedAll key [] (armed s) = armed s := rfl
    rw [hstay, hlist, Function.update_eq_self, rearm_of_none hrenewal]
    split
    · exact h.of_eq rfl rfl
    · exact h
  | some d =>
    have hback : [t].filter sys.renews = [t] := by simp [renews, hrenewal]
    have hplaced : placedAll key [t] (armed s) =
        placed (Threaded.isDue sys.timers d) t (armed s) := by
      apply placed_congr
      intro u hu
      rw [hkey u hu, hnew d hrenewal]
      rfl
    rw [hback, hplaced, rearm_of_some hrenewal]
    exact h.link ht rfl howner hbound

/-- The keys are still those of the list when a timer was rearmed. -/
theorem Sound.key_rearm (h : sys.Sound armed) (ht : (sys.timer t).armed = false)
    (hkey : ∀ u ∈ armed s, key u = (sys.timer u).deadline)
    (hnew : ∀ d, (sys.timer t).renewal? = some d → key t = d) :
    ∀ u ∈ placedAll key ([t].filter sys.renews) (armed s),
      key u = ((sys.rearm s t).timer u).deadline := by
  intro u hu
  by_cases hut : u = t
  · subst hut
    have hrenews : (sys.timer u).renewal?.isSome = true := by
      rcases mem_placedAll.1 hu with hu | hu
      · exact (List.mem_filter.1 hu).2
      · simp [h.armed_of_mem hu] at ht
    rcases Option.isSome_iff_exists.1 hrenews with ⟨d, hd⟩
    have hbody := (renewed_rearm sys s u).body u
    rw [if_pos (List.mem_singleton_self u),
      Timer.renewed_of_some (t := (sys.timer u).body) hd] at hbody
    rw [hnew d hd]
    exact (congrArg Timer.deadline hbody :).symm
  · rw [Timer.apply_eq_of_body_eq Timer.deadline_body (body_rearm_of_ne hut s)]
    apply hkey
    rcases mem_placedAll.1 hu with hu | hu
    · exact absurd (List.mem_singleton.1 (List.mem_filter.1 hu).1) hut
    · exact hu

/-- Disarmed timers that are rearmed one after another are put back in this order, each by its next
deadline, if it has one. -/
theorem Sound.rearm_all_placed (h : sys.Sound armed) (hnd : timers.Nodup)
    (hready : ∀ t ∈ timers, (sys.timer t).armed = false ∧ (sys.timer t).owner = some s ∧
      ∃ callback, (sys.timer t).callback = some callback)
    (hkey : ∀ u ∈ armed s, key u = (sys.timer u).deadline)
    (hnew : ∀ t ∈ timers, ∀ d, (sys.timer t).renewal? = some d → key t = d) :
    (timers.foldl (System.rearm s) sys).Sound
      (Function.update armed s (placedAll key (timers.filter sys.renews) (armed s))) := by
  induction timers generalizing sys armed with
  | nil =>
    have hlist : placedAll key [] (armed s) = armed s := rfl
    rw [List.filter_nil, hlist, Function.update_eq_self]
    exact h
  | cons t timers ih =>
    rcases List.nodup_cons.1 hnd with ⟨ht, hrest⟩
    rcases hready t List.mem_cons_self with ⟨hmark, howner, hbound⟩
    have hone := h.rearm_placed hmark howner hbound hkey (hnew t List.mem_cons_self)
    -- the others are as they were when the turn comes to them
    have hkept : ∀ u ∈ timers, ((sys.rearm s t).timer u).body = (sys.timer u).body :=
      fun u hu => body_rearm_of_ne (fun heq : u = t => ht (heq ▸ hu)) s
    have hkey' := h.key_rearm hmark hkey (hnew t List.mem_cons_self)
    have hrenewal : ∀ u ∈ timers,
        ((sys.rearm s t).timer u).renewal? = (sys.timer u).renewal? :=
      fun u hu => (congrArg Timer.renewal? (hkept u hu) :)
    have hready' : ∀ u ∈ timers, ((sys.rearm s t).timer u).armed = false ∧
        ((sys.rearm s t).timer u).owner = some s ∧
          ∃ callback, ((sys.rearm s t).timer u).callback = some callback := by
      intro u hu
      have hsame := hready u (List.mem_cons_of_mem _ hu)
      rwa [← Timer.armed_body, ← Timer.owner_body, ← Timer.callback_body, ← hkept u hu] at hsame
    have hall := ih hone hrest hready' (by rw [Function.update_self]; exact hkey')
      fun u hu d hd => hnew u (List.mem_cons_of_mem _ hu) d ((hrenewal u hu).symm.trans hd)
    have hfilter : timers.filter (sys.rearm s t).renews = timers.filter sys.renews :=
      List.filter_congr fun u hu => congrArg Option.isSome (hrenewal u hu)
    have hcut : (t :: timers).filter sys.renews =
        [t].filter sys.renews ++ timers.filter sys.renews := by
      rw [← List.filter_append]
      rfl
    rw [Function.update_self, Function.update_idem, hfilter, ← placedAll_append, ← hcut] at hall
    exact hall

/-! ## Collecting -/

/-- What collecting at `now` makes of the timers and of the list of `s`. -/
structure ExactCollection (s : Fin m) (now : Timespec) (sys : System m n) : Prop where
  /-- Both loops come to an end, and only with this result. -/
  loops : ∀ result, Collects s now sys result ↔ result = sys.collect s now
  /-- The timers that are due are the first ones of the list. -/
  due_eq : sys.due s now =
    (sys.armedTimers s).takeWhile fun t => decide ((sys.timer t).deadline ≤ now)
  /-- The chain leads along those timers, and ends. -/
  chain : Trail (fun t => ((sys.collect s now).2.timer t).firedNext) (sys.collect s now).1
    (sys.due s now)
  /-- Each of them is taken out once, in the order of the list. -/
  nodup : (sys.due s now).Nodup
  course : (sys.collect s now).2.course = sys.course ++
    (sys.due s now).map fun t => .detached s t (sys.timer t).deadline
  wellFormed : ((sys.collect s now).2.threaded s).WellFormed ((sys.collect s now).2.armedTimers s)
  /-- The list is that of the others, with the timers that have a next deadline put back. -/
  list : (sys.collect s now).2.armedTimers s =
    placedAll (fun u => ((sys.collect s now).2.timer u).deadline)
      ((sys.due s now).filter fun t => (sys.timer t).renewal?.isSome)
      ((sys.armedTimers s).filter fun u => decide (u ∉ sys.due s now))
  elsewhere : ∀ r, r ≠ s → (sys.collect s now).2.armedTimers r = sys.armedTimers r
  /-- A timer that has a next deadline is armed for it, and on the list, also if that deadline has
  come as well. -/
  renewed : ∀ t ∈ sys.due s now, ∀ deadline : Timespec, 0 < (sys.timer t).period.nanos →
    deadline.nanos = (sys.timer t).deadline.nanos + (sys.timer t).period.nanos →
      ((sys.collect s now).2.timer t).armed = true ∧
        ((sys.collect s now).2.timer t).deadline = deadline ∧
        t ∈ (sys.collect s now).2.armedTimers s
  /-- Every other timer that was due is disarmed, and keeps its deadline. -/
  stopped : ∀ t ∈ sys.due s now,
    (∀ deadline : Timespec, 0 < (sys.timer t).period.nanos →
      deadline.nanos ≠ (sys.timer t).deadline.nanos + (sys.timer t).period.nanos) →
      ((sys.collect s now).2.timer t).armed = false ∧
        ((sys.collect s now).2.timer t).deadline = (sys.timer t).deadline ∧
        t ∉ (sys.collect s now).2.armedTimers s
  /-- A timer that was not due keeps all its cells but its links in the list. -/
  kept : ∀ u, u ∉ sys.due s now →
    ((sys.collect s now).2.timer u).body = (sys.timer u).body
  /-- No timer changes its owner, its binding, its period or its class. -/
  lasting : ∀ u, ((sys.collect s now).2.timer u).owner = (sys.timer u).owner ∧
    ((sys.collect s now).2.timer u).lasting = (sys.timer u).lasting

namespace Sound

/-- The list after collecting. -/
theorem collect_placed (h : sys.Sound armed) (s : Fin m) (now : Timespec) :
    (sys.collect s now).2.Sound (Function.update armed s
      (placedAll (fun u => ((sys.collect s now).2.timer u).deadline)
        ((sys.due s now).filter sys.renews)
        ((armed s).dropWhile (Threaded.isDue sys.timers now)))) := by
  have hserviced := h.serviced_collect s now
  rcases h.detachExpired_all s now with ⟨hfst, hnd, hsound, htaken⟩
  have hsub : (armed s).takeWhile (Threaded.isDue sys.timers now) ⊆ armed s :=
    List.takeWhile_subset _
  have hdisjoint := (h.holds s).nodup
  rw [← List.takeWhile_append_dropWhile (p := Threaded.isDue sys.timers now) (l := armed s)]
    at hdisjoint
  have hcollect : (sys.collect s now).2 =
      ((armed s).takeWhile (Threaded.isDue sys.timers now)).foldl (System.rearm s)
        ((sys.detachExpired s now n).2.chain
          ((armed s).takeWhile (Threaded.isDue sys.timers now))) := by
    simp only [System.collect, hfst]
  rw [h.due_eq]
  generalize (armed s).dropWhile (Threaded.isDue sys.timers now) = rest at *
  generalize (armed s).takeWhile (Threaded.isDue sys.timers now) = due at *
  generalize (sys.detachExpired s now n).2 = a at *
  have hchained : (a.chain due).Sound (Function.update armed s rest) :=
    hsound.of_firedNext (lists_chain due a) (timer_chain due a)
  have hready : ∀ t ∈ due, ((a.chain due).timer t).armed = false ∧
      ((a.chain due).timer t).owner = some s ∧
        ∃ callback, ((a.chain due).timer t).callback = some callback := by
    intro t ht
    rw [timer_chain]
    exact htaken.ready h hsub ht
  have hkey : ∀ u ∈ rest,
      ((sys.collect s now).2.timer u).deadline = ((a.chain due).timer u).deadline := by
    intro u hu
    have hnot : u ∉ due := fun hmem => List.disjoint_of_nodup_append hdisjoint hmem hu
    have hbody := hserviced.body u
    rw [if_neg hnot] at hbody
    rw [Timer.apply_eq_of_body_eq Timer.deadline_body hbody, timer_chain, htaken.deadline]
  have hrenewal : ∀ u ∈ due, ((a.chain due).timer u).renewal? = (sys.timer u).renewal? := by
    intro u hu
    have hbody := htaken.body_chain u
    rw [if_pos hu] at hbody
    exact (congrArg Timer.renewal? hbody :)
  have hnew : ∀ t ∈ due, ∀ d, ((a.chain due).timer t).renewal? = some d →
      ((sys.collect s now).2.timer t).deadline = d := by
    intro t ht d hd
    rw [hrenewal t ht] at hd
    have hbody := hserviced.body t
    rw [if_pos ht, Timer.expired_of_some (t := (sys.timer t).body) hd] at hbody
    exact (congrArg Timer.deadline hbody :)
  have hall := hchained.rearm_all_placed hnd hready
    (by rw [Function.update_self]; exact hkey) hnew
  have hfilter : due.filter (a.chain due).renews = due.filter sys.renews :=
    List.filter_congr fun u hu => congrArg Option.isSome (hrenewal u hu)
  rw [Function.update_self, Function.update_idem, hfilter] at hall
  rw [← hcollect] at hall
  exact hall

/-- The list of the scheduler has the timers that are not due, with the renewed ones put back. -/
theorem armedTimers_collect (h : sys.Sound armed) (s : Fin m) (now : Timespec) :
    (sys.collect s now).2.armedTimers s =
      placedAll (fun u => ((sys.collect s now).2.timer u).deadline)
        ((sys.due s now).filter sys.renews)
        ((sys.armedTimers s).filter fun u => decide (u ∉ sys.due s now)) := by
  have hrest : ((armed s).filter fun u => decide (u ∉ sys.due s now)) =
      (armed s).dropWhile (Threaded.isDue sys.timers now) := by
    rw [h.due_eq]
    exact filter_notMem_takeWhile (h.holds s).nodup _
  rw [← (h.collect_placed s now).eq_armedTimers, Function.update_self, ← h.eq_armedTimers, hrest]

/-- A timer that was due is as after its expiry, up to its links. -/
theorem body_collect_of_mem (h : sys.Sound armed) (ht : t ∈ sys.due s now) :
    ((sys.collect s now).2.timer t).body =
      { (sys.timer t).body.expired with
        firedNext := ((sys.collect s now).2.timer t).firedNext } := by
  have hbody := (h.serviced_collect s now).body t
  rwa [← h.due_eq, if_pos ht] at hbody

/-- A timer that was due and has a next deadline is armed for it and on the list. -/
theorem renewed_collect (h : sys.Sound armed) (ht : t ∈ sys.due s now) {d : Timespec}
    (hd : (sys.timer t).renewal? = some d) :
    ((sys.collect s now).2.timer t).armed = true ∧
      ((sys.collect s now).2.timer t).deadline = d ∧
      t ∈ (sys.collect s now).2.armedTimers s := by
  have hbody := h.body_collect_of_mem ht
  rw [Timer.expired_of_some (t := (sys.timer t).body) hd] at hbody
  refine ⟨(congrArg Timer.armed hbody :), (congrArg Timer.deadline hbody :), ?_⟩
  rw [h.armedTimers_collect, mem_placedAll]
  exact .inl (List.mem_filter.2 ⟨ht, by rw [renews, hd, Option.isSome_some]⟩)

/-- A timer that was due and has no next deadline is disarmed, keeps its deadline and is not on the
list. -/
theorem stopped_collect (h : sys.Sound armed) (ht : t ∈ sys.due s now)
    (hnone : (sys.timer t).renewal? = none) :
    ((sys.collect s now).2.timer t).armed = false ∧
      ((sys.collect s now).2.timer t).deadline = (sys.timer t).deadline ∧
      t ∉ (sys.collect s now).2.armedTimers s := by
  have hbody := h.body_collect_of_mem ht
  rw [Timer.expired_of_none (t := (sys.timer t).body) hnone] at hbody
  refine ⟨(congrArg Timer.armed hbody :), (congrArg Timer.deadline hbody :), ?_⟩
  simp [h.armedTimers_collect, renews, hnone, ht]

/-- In a sound system collecting splits the list and rearms exactly. -/
theorem collects_exactly (h : sys.Sound armed) (s : Fin m) (now : Timespec) :
    sys.ExactCollection s now := by
  rcases h.collect s now with ⟨hfirst, hcollected⟩
  have hsound := h.collect_placed s now
  have hdue := h.due_eq s now
  rw [← hdue] at hfirst hcollected
  refine ⟨fun _ => h.collects_iff, ?due, ?chain, h.nodup_due s now, hcollected.course, ?wellFormed,
    h.armedTimers_collect s now, fun r hr => h.armedTimers_eq hsound hr, ?renewed, ?stopped,
    hcollected.body_of_notMem, ?lasting⟩
  case due =>
    rw [← h.eq_armedTimers]
    exact hdue
  case chain =>
    rw [hfirst]
    exact trail_of_cuts hcollected.chained
  case wellFormed =>
    rw [← hsound.eq_armedTimers]
    exact Threaded.wellFormed_iff_holds.2 (hsound.holds s)
  case renewed =>
    intro t ht deadline hpos hsum
    exact h.renewed_collect ht (Timer.renewal?_eq_some_iff.2 ⟨hpos, hsum⟩)
  case stopped =>
    intro t ht hnone
    refine h.stopped_collect ht (Option.eq_none_iff_forall_ne_some.2 fun d hd => ?_)
    rcases Timer.renewal?_eq_some_iff.1 hd with ⟨hpos, hsum⟩
    exact hnone d hpos hsum
  case lasting =>
    intro u
    exact ⟨(congrArg Timer.owner (hcollected.lasting u) :), hcollected.lasting u⟩

end Sound
end System

/-- Four timers on one scheduler.  The first is due at two seconds and the third at five; the others
are periodic, and their next deadlines are the same two. -/
def Machine.twoPeriodic (s : Fin m) (t u v w : Fin n) : Machine m n :=
  (initial fun _ => .counting).run
    [.request s (.command (.init (some t) (some 0) .none)),
      .request s (.command (.init (some u) (some 0) .none)),
      .request s (.command (.init (some v) (some 0) .none)),
      .request s (.command (.init (some w) (some 0) .none)),
      .request s (.command (.arm (some t) .precise (some (.new 2 0)) none)),
      .request s (.command (.arm (some u) .precise (some (.new 1 0)) (some (.new 1 0)))),
      .request s (.command (.arm (some v) .precise (some (.new 5 0)) none)),
      .request s (.command (.arm (some w) .precise (some (.new 3 0)) (some (.new 2 0))))]

namespace Moment

variable {x : Moment m n}

/-- At every reachable moment, and when a pass that begins then comes to it: collecting takes out
exactly what is due, chains it up, and puts back what has a next deadline. -/
theorem Reachable.exact_collection (hx : x.Reachable) (s : Fin m) (now : Timespec) :
    x.system.ExactCollection s now ∧ (x.system.collecting s now).ExactCollection s now := by
  rcases hx.steady with ⟨armed, hsound, -⟩
  have hcollecting : (x.system.collecting s now).Sound armed :=
    hsound.of_eq rfl
      ((System.lists_modifyScheduler _ s (by intro _; rfl)).trans (System.lists_enter _ s))
  exact ⟨hsound.collects_exactly s now, hcollecting.collects_exactly s now⟩

/-- At three seconds the second timer is a period behind.  It is put back at two seconds, and the
last one behind the third, which has the same deadline. -/
theorem exact_collection_twoPeriodic :
    let x : Machine 1 4 := .twoPeriodic 0 0 1 2 3
    (ofMachine x).Reachable ∧ x.system.ExactCollection 0 (.new 3 0) ∧
      x.system.due 0 (.new 3 0) = [1, 0, 3] ∧
      (x.system.collect 0 (.new 3 0)).2.armedTimers 0 = [1, 2, 3] := by
  intro x
  have hx : (ofMachine x).Reachable := Reachable.ofMachine ⟨_, _, rfl⟩
  exact ⟨hx, (hx.exact_collection 0 (.new 3 0)).1, by decide +kernel, by decide +kernel⟩

end Moment
end SoftTimer
