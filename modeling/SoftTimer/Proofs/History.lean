import SoftTimer.Proofs.Dispatch

/-!
# From events back to steps

The course of events tells what a run did.  This file leads from an event of the course back to the
step that added it, and says in which state an event of each kind happens.  It also says what the
course tells of the passes under way.

Main definitions:

- `OpenSince`: according to a course of events, a pass is under way since a place in it.
- `Moment.Stacked`: the passes under way, the marks of the schedulers and the course agree.

Main results:

- Theorem `Moment.run_induction`: what every step keeps, given the events it adds, runs keep.
- Theorem `Moment.exists_step_of_course`: the step that added an event.
- Theorems `Moment.Change.of_detached`, `Moment.Change.of_called` and `Moment.Change.of_answered`:
  what a step that adds such an event is.
- Theorem `Moment.Change.observe_eq`: what only commands change can be read off the course.
- Theorem `Moment.Reachable.stacked`: at every reachable moment each pass under way is one of another
  scheduler, and is under way since it began.
-/

namespace SoftTimer

variable {m n : Nat}

/-! ## Places in a course -/

/-- Whether an event is the beginning or the end of a pass of `s`. -/
def Event.delimits (s : Fin m) : Event m n → Bool
  | .began r _ => decide (r = s)
  | .finished r => decide (r = s)
  | _ => false

/-- After the events `es` a pass of `s` that serves the time `now` is under way.  It began at place
`b`, and since then no pass of `s` began or ended. -/
def OpenSince (s : Fin m) (now : Timespec) (b : Nat) (es : List (Event m n)) : Prop :=
  ∃ before after, es = before ++ .began s now :: after ∧ before.length = b ∧
    ∀ e ∈ after, e.delimits s = false

section Places

variable {s : Fin m} {now : Timespec} {b i : Nat} {e : Event m n} {es more : List (Event m n)}

/-- An event at a place cuts the course there. -/
theorem exists_cut_of_getElem? (h : es[i]? = some e) :
    ∃ before after, es = before ++ e :: after ∧ before.length = i := by
  rcases List.getElem?_eq_some_iff.1 h with ⟨hi, rfl⟩
  refine ⟨es.take i, es.drop (i + 1), ?_, List.length_take_of_le hi.le⟩
  rw [List.cons_getElem_drop_succ, List.take_append_drop]

/-- A pass stays under way as long as no pass of its scheduler begins or ends. -/
theorem OpenSince.append (h : OpenSince s now b es)
    (hmore : ∀ e ∈ more, e.delimits s = false) : OpenSince s now b (es ++ more) := by
  rcases h with ⟨before, after, rfl, hlen, hafter⟩
  refine ⟨before, after ++ more, by simp, hlen, ?_⟩
  intro e he
  rcases List.mem_append.1 he with he | he
  · exact hafter e he
  · exact hmore e he

/-- A pass is under way when it has just begun. -/
theorem OpenSince.began (es : List (Event m n)) (s : Fin m) (now : Timespec) :
    OpenSince s now es.length (es ++ [.began s now]) :=
  ⟨es, [], rfl, rfl, by simp⟩

/-- A place behind which no pass of `s` began lies behind the beginning of the pass under way. -/
theorem OpenSince.lt_of_began_notMem (h : OpenSince s now b es)
    (hi : ∀ now, .began s now ∉ es.drop i) : b < i := by
  rcases h with ⟨before, after, rfl, rfl, -⟩
  by_contra hle
  apply hi now
  rw [List.drop_append_of_le_length (Nat.le_of_not_lt hle)]
  simp

end Places

/-! ## Runs and the steps in them -/

namespace Moment

variable {x y z : Moment m n} {s r : Fin m} {t u : Fin n} {now : Timespec}
  {es earlier later : List (Event m n)}

@[simp]
theorem run_nil (x : Moment m n) : x.run [] = x :=
  rfl

@[simp]
theorem run_cons (x : Moment m n) (a : Action m n) (actions : List (Action m n)) :
    x.run (a :: actions) = (x.step a).run actions :=
  rfl

/-- A run with one more action is the run and then the step. -/
theorem run_concat (x : Moment m n) (actions : List (Action m n)) (a : Action m n) :
    x.run (actions ++ [a]) = (x.run actions).step a :=
  run_append x actions [a]

/-- The moment when a dispatch of a reachable machine has begun is reachable. -/
theorem Reachable.dispatched {x : Machine m n} (hx : x.Reachable) (s : Fin m) (now : Timespec) :
    (x.dispatched s now).Reachable :=
  (Reachable.ofMachine hx).run [.request s (.dispatch now)]

/-- What every step keeps, given the events it adds to the course, runs keep. -/
theorem run_induction {φ : Moment m n → List (Event m n) → Prop} (hx : x.system.Steady)
    (hstart : φ x [])
    (hstep : ∀ y z es more, y.system.Steady → y.system.course = x.system.course ++ es →
      z.system.course = y.system.course ++ more → Change y z more → φ y es → φ z (es ++ more))
    (actions : List (Action m n)) :
    ∃ es, (x.run actions).system.course = x.system.course ++ es ∧ φ (x.run actions) es := by
  induction actions using List.reverseRecOn with
  | nil => exact ⟨[], (List.append_nil _).symm, hstart⟩
  | append_singleton actions a ih =>
    rcases ih with ⟨es, hes, hφ⟩
    have hy := steady_run hx actions
    rcases exists_change hy a with ⟨more, hmore, hchange⟩
    rw [run_concat]
    refine ⟨es ++ more, ?_, hstep _ _ _ _ hy hes hmore hchange hφ⟩
    rw [hmore, hes, List.append_assoc]

/-- The same for the events that a run is known to add. -/
theorem run_induction_of_course {φ : Moment m n → List (Event m n) → Prop}
    {actions : List (Action m n)} (hx : x.system.Steady)
    (hes : (x.run actions).system.course = x.system.course ++ es) (hstart : φ x [])
    (hstep : ∀ y z es more, y.system.Steady → y.system.course = x.system.course ++ es →
      z.system.course = y.system.course ++ more → Change y z more → φ y es → φ z (es ++ more)) :
    φ (x.run actions) es := by
  rcases run_induction hx hstart hstep actions with ⟨added, hadded, hφ⟩
  rwa [List.append_cancel_left (hes.symm.trans hadded)]

/-- What every step keeps holds at every reachable moment. -/
theorem Reachable.change_induction {φ : Moment m n → Prop} (h : x.Reachable)
    (hinitial : ∀ kinds, φ (Moment.ofMachine (.initial kinds)))
    (hstep : ∀ y z es, z.system.course = y.system.course ++ es → Change y z es → φ y → φ z) :
    φ x := by
  rcases h with ⟨kinds, actions, rfl⟩
  have hrun := run_induction (x := Moment.ofMachine (.initial kinds)) (φ := fun y _ => φ y)
    (System.steady_initial kinds) (hinitial kinds)
    (fun y z _ more _ _ hmore hchange hy => hstep y z more hmore hchange hy) actions
  rcases hrun with ⟨-, -, hφ⟩
  exact hφ

/-- The step of a run that added an event to the course: `earlier` and `later` are the other events
that it added. -/
theorem exists_step_of_course (hx : x.system.Steady) {actions : List (Action m n)}
    {before after : List (Event m n)} {e : Event m n}
    (h : (x.run actions).system.course = x.system.course ++ (before ++ e :: after)) :
    ∃ first a last passed earlier later rest, actions = first ++ a :: last ∧
      (x.run first).system.course = x.system.course ++ passed ∧ before = passed ++ earlier ∧
      ((x.run first).step a).system.course =
        (x.run first).system.course ++ (earlier ++ e :: later) ∧ after = later ++ rest ∧
      Change (x.run first) ((x.run first).step a) (earlier ++ e :: later) := by
  induction actions using List.reverseRecOn generalizing after with
  | nil => simp at h
  | append_singleton actions a ih =>
    rcases run_induction (φ := fun _ _ => True) hx trivial
      (fun _ _ _ _ _ _ _ _ _ => trivial) actions with ⟨es, hes, -⟩
    rcases exists_change (steady_run hx actions) a with ⟨more, hmore, hchange⟩
    rw [run_concat, hmore, hes, List.append_assoc] at h
    rcases List.append_eq_append_iff.1 (List.append_cancel_left h) with
      ⟨earlier, rfl, rfl⟩ | ⟨c, rfl, hrest⟩
    · exact ⟨actions, a, [], es, earlier, after, [], rfl, hes, rfl, hmore, by simp, hchange⟩
    · cases c with
      | nil =>
        obtain rfl : e :: after = more := hrest
        exact ⟨actions, a, [], before, [], after, [], rfl, by simpa using hes, by simp, hmore,
          by simp, hchange⟩
      | cons e' c =>
        rcases List.cons.inj hrest with ⟨rfl, rfl⟩
        rcases ih hes with
          ⟨first, b, last, passed, earlier, later, rest, rfl, hpassed, hbefore, hstep, rfl, hb⟩
        exact ⟨first, b, last ++ [a], passed, earlier, later, rest ++ more, by simp, hpassed,
          hbefore, hstep, by simp, hb⟩

/-- The step that added an event to the course of a reachable moment. -/
theorem Reachable.exists_step {before after : List (Event m n)} {e : Event m n} (h : x.Reachable)
    (hcourse : x.system.course = before ++ e :: after) :
    ∃ y a more earlier later rest, y.Reachable ∧ (y.step a).run more = x ∧
      before = y.system.course ++ earlier ∧
      (y.step a).system.course = y.system.course ++ (earlier ++ e :: later) ∧
      after = later ++ rest ∧ Change y (y.step a) (earlier ++ e :: later) := by
  rcases h with ⟨kinds, actions, rfl⟩
  rcases exists_step_of_course (x := Moment.ofMachine (.initial kinds)) (System.steady_initial kinds)
    hcourse with ⟨first, a, last, passed, earlier, later, rest, rfl, hpassed, rfl, hstep, hafter,
      hchange⟩
  refine ⟨_, a, last, earlier, later, rest, ⟨kinds, first, rfl⟩, ?_, ?_, hstep, hafter, hchange⟩
  · rw [run_append]
    rfl
  · rw [hpassed]
    rfl

/-! ## Steps by their events -/

/-- A timer is taken out by a step that begins a pass, and only if it is armed and due. -/
theorem Change.of_detached {d : Timespec} (h : Change x y (earlier ++ .detached r t d :: later)) :
    ∃ now detached, x.system.dispatching r = false ∧ earlier = .began r now :: detached ∧
      (∀ e ∈ detached, ∃ u d, e = .detached r u d) ∧ t ∈ x.system.armedTimers r ∧
      (x.system.timer t).deadline = d ∧ d ≤ now := by
  generalize hes : earlier ++ .detached r t d :: later = es at h
  cases h with
  | other _ events =>
    rcases events with rfl | ⟨s, c, reply, rfl⟩
    · simp at hes
    · simp [List.append_eq_singleton_iff] at hes
  | @began s now due _ _ hidle _ _ _ hexpired =>
    cases earlier with
    | nil => simp at hes
    | cons e detached =>
      rcases List.cons.inj hes with ⟨rfl, hdue⟩
      rcases List.append_eq_map_iff.1 hdue with ⟨a, b, rfl, rfl, hb⟩
      rcases List.map_eq_cons_iff.1 hb with ⟨v, c, rfl, hv, -⟩
      injection hv with hs ht hd
      subst hs ht hd
      refine ⟨now, _, hidle, rfl, ?_, (hexpired v (by simp)).1, rfl, (hexpired v (by simp)).2⟩
      intro e he
      rcases List.mem_map.1 he with ⟨u, -, rfl⟩
      exact ⟨u, _, rfl⟩
  | @visited c v =>
    exact absurd (hes ▸ List.mem_append_right earlier List.mem_cons_self :
      Event.detached r t d ∈ _) (by simp)
  | finished => simp [List.append_eq_singleton_iff] at hes

/-- A timer is called by a step in which the pass in control comes to it, and with what is bound to
it at that moment. -/
theorem Change.of_called {callback : CallbackId} {arg : CallbackArg}
    (h : Change x y (earlier ++ .called s t callback arg :: later)) :
    earlier = [.visited s t] ∧ later = [] ∧ (∃ c ∈ x.passes, c.scheduler = s) ∧
      (x.system.timer t).callback = some callback ∧ (x.system.timer t).arg = arg := by
  generalize hes : earlier ++ .called s t callback arg :: later = es at h
  cases h with
  | other _ events =>
    rcases events with rfl | ⟨s, c, reply, rfl⟩
    · simp at hes
    · simp [List.append_eq_singleton_iff] at hes
  | began =>
    exact absurd (hes ▸ List.mem_append_right earlier List.mem_cons_self :
      Event.called s t callback arg ∈ _) (by simp)
  | @visited c v hcursor =>
    cases hcallback : (x.system.timer v).callback with
    | none => simp [hcallback, List.append_eq_singleton_iff] at hes
    | some callback' =>
      rw [hcallback] at hes
      cases earlier with
      | nil => simp at hes
      | cons e earlier =>
        rcases List.cons.inj hes with ⟨rfl, hrest⟩
        rcases List.append_eq_singleton_iff.1 hrest with ⟨rfl, hcall⟩ | ⟨-, hcall⟩
        · injection hcall with hcall hlater
          injection hcall with hs ht hcb harg
          subst hs ht hcb
          refine ⟨rfl, hlater, ⟨c, ?_, rfl⟩, hcallback, harg.symm⟩
          rw [passes_of_cursor hcursor]
          exact List.mem_cons_self
        · cases hcall
  | finished => simp [List.append_eq_singleton_iff] at hes

/-- The answer to a command comes from a step that does nothing else. -/
theorem Change.of_answered {c : Command (Option (Fin n))} {reply : Reply n}
    (h : Change x y (earlier ++ .answered s (.command c) reply :: later)) :
    earlier = [] ∧ later = [] ∧
      ∀ u, (y.system.timer u).body =
        Event.effect u (.answered s (.command c) reply) (x.system.timer u).body := by
  generalize hes : earlier ++ .answered s (.command c) reply :: later = es at h
  cases h with
  | other _ events _ _ _ hbody =>
    rcases events with rfl | ⟨r, c', reply', rfl⟩
    · simp at hes
    · rcases List.append_eq_singleton_iff.1 hes with ⟨rfl, hone⟩ | ⟨-, hone⟩
      · rcases List.cons.inj hone with ⟨heq, rfl⟩
        rw [← heq] at hbody
        exact ⟨rfl, rfl, hbody⟩
      · cases hone
  | began =>
    exact absurd (hes ▸ List.mem_append_right earlier List.mem_cons_self :
      Event.answered s (.command c) reply ∈ _) (by simp)
  | visited =>
    exact absurd (hes ▸ List.mem_append_right earlier List.mem_cons_self :
      Event.answered s (.command c) reply ∈ _) (by simp)
  | finished => simp [List.append_eq_singleton_iff] at hes

/-- What a step makes of a timer, as far as only commands change it, can be read off the events that
it adds. -/
theorem Change.observe_eq {β : Type} {φ : Timer m n → β} {g : β → Event m n → β}
    (hlasting : ∀ c d : Timer m n, c.lasting = d.lasting → φ c = φ d)
    (heffect : ∀ e c, φ (Event.effect u e c) = g (φ c) e) (h : Change x y es) :
    φ (y.system.timer u) = es.foldl g (φ (x.system.timer u)) := by
  rw [hlasting (x.system.timer u) (x.system.timer u).body rfl,
    List.foldl_hom φ fun c e => (heffect e c).symm]
  apply hlasting
  cases h with
  | other _ _ _ _ _ hbody => rw [← hbody, Timer.lasting_body]
  | began _ _ _ _ hbegun =>
    rw [foldl_effect_of_not_commands (by simp [Event.commands]), Timer.lasting_body,
      hbegun.lasting]
  | @visited c t _ _ _ _ htimer =>
    rw [foldl_effect_of_not_commands, Timer.lasting_body, htimer]
    · by_cases hut : u = t
      · rw [if_pos hut, hut]
        rfl
      · rw [if_neg hut]
    · cases (x.system.timer t).callback <;> simp [Event.commands]
  | finished _ _ _ _ htimers =>
    rw [foldl_effect_of_not_commands (by simp [Event.commands]), Timer.lasting_body, System.timer,
      htimers]
    rfl

/-! ## The passes under way -/

/-- Each of the passes under way is one of another scheduler.  These are the schedulers that are
marked, and according to the course the pass of each is under way. -/
structure Stacked (x : Moment m n) : Prop where
  nodup : (x.passes.map Cursor.scheduler).Nodup
  dispatching_iff : ∀ s,
    x.system.dispatching s = true ↔ s ∈ x.passes.map Cursor.scheduler
  since : ∀ c ∈ x.passes, ∃ b, OpenSince c.scheduler c.now b x.system.course

/-- At the start no pass is under way, and no scheduler is marked. -/
theorem stacked_initial (kinds : Fin m → RegionKind) :
    (Moment.ofMachine (.initial kinds) : Moment m n).Stacked := by
  refine ⟨List.nodup_nil, ?_, by simp [passes, ofMachine, Machine.initial]⟩
  intro s
  simp [passes, ofMachine, Machine.initial, System.initial, System.dispatching, System.scheduler]

namespace Stacked

/-- A scheduler that is not marked has no pass under way. -/
theorem ne_of_idle (h : x.Stacked) (hr : x.system.dispatching r = false) {c : Cursor m n}
    (hc : c ∈ x.passes) : r ≠ c.scheduler := by
  rintro rfl
  have hmarked := (h.dispatching_iff c.scheduler).2 (List.mem_map_of_mem hc)
  simp [hr] at hmarked

/-- The passes below the one in control are passes of other schedulers. -/
theorem ne_of_frame (h : x.Stacked) {c d : Cursor m n} (hcursor : x.cursor = some c)
    (hd : d ∈ x.frames.map Frame.cursor) : d.scheduler ≠ c.scheduler := by
  have hnodup := h.nodup
  rw [passes_of_cursor hcursor, List.map_cons] at hnodup
  exact fun heq => (List.nodup_cons.1 hnodup).1 (heq ▸ List.mem_map_of_mem hd)

/-- Passes under way of one scheduler are one and the same. -/
theorem eq_of_scheduler_eq (h : x.Stacked) {c d : Cursor m n} (hc : c ∈ x.passes)
    (hd : d ∈ x.passes) (heq : c.scheduler = d.scheduler) : c = d :=
  List.inj_on_of_nodup_map h.nodup hc hd heq

/-- Passes stay under way while the step delimits none of them. -/
theorem since_append (h : x.Stacked) (hcourse : y.system.course = x.system.course ++ es)
    {c : Cursor m n} (hc : c ∈ x.passes) (hes : ∀ e ∈ es, e.delimits c.scheduler = false) :
    ∃ b, OpenSince c.scheduler c.now b y.system.course := by
  rcases h.since c hc with ⟨b, hb⟩
  rw [hcourse]
  exact ⟨b, hb.append hes⟩

/-- A step keeps the passes under way those of the marked schedulers, one of each. -/
theorem change (h : x.Stacked) (hcourse : y.system.course = x.system.course ++ es)
    (hchange : Change x y es) : y.Stacked := by
  cases hchange with
  | other _ events hpasses hdispatching =>
    refine ⟨hpasses ▸ h.nodup, ?_, ?_⟩
    · rw [hpasses, hdispatching]
      exact h.dispatching_iff
    · rw [hpasses]
      intro c hc
      apply h.since_append hcourse hc
      rcases events with rfl | ⟨r, c, reply, rfl⟩ <;> simp [Event.delimits]
  | @began s now due _ _ hidle _ hpasses hbegun =>
    have hfresh : s ∉ x.passes.map Cursor.scheduler := by
      rw [← h.dispatching_iff, hidle]
      simp
    refine ⟨?_, ?_, ?_⟩
    · rw [hpasses]
      exact List.nodup_cons.2 ⟨hfresh, h.nodup⟩
    · intro r
      rw [hpasses, hbegun.dispatching, List.map_cons, List.mem_cons]
      by_cases hr : r = s
      · simp [hr]
      · simp [hr, h.dispatching_iff]
    · rw [hpasses]
      intro c hc
      rcases List.mem_cons.1 hc with rfl | hc
      · have hbegan := OpenSince.began x.system.course s now
        refine ⟨x.system.course.length, ?_⟩
        rw [hcourse, List.append_cons]
        exact hbegan.append (by simp [Event.delimits])
      · apply h.since_append hcourse hc
        simp [Event.delimits, h.ne_of_idle hidle hc]
  | @visited c t hcursor _ hpasses hdispatching =>
    have hsame : y.passes.map Cursor.scheduler = x.passes.map Cursor.scheduler := by
      rw [hpasses, passes_of_cursor hcursor]
      rfl
    have hquiet : ∀ s, ∀ e ∈ Event.visited c.scheduler t ::
        ((x.system.timer t).callback.map fun callback =>
          .called c.scheduler t callback (x.system.timer t).arg).toList,
        e.delimits s = false := by
      cases (x.system.timer t).callback <;> simp [Event.delimits]
    refine ⟨hsame ▸ h.nodup, ?_, ?_⟩
    · rw [hsame, hdispatching]
      exact h.dispatching_iff
    · rw [hpasses]
      intro d hd
      rcases List.mem_cons.1 hd with rfl | hd
      · exact h.since_append hcourse (c := c) (by simp [passes_of_cursor hcursor]) (hquiet _)
      · exact h.since_append hcourse (by simp [passes_of_cursor hcursor, hd]) (hquiet _)
  | @finished c hcursor _ hpasses hdispatching =>
    have hnodup := h.nodup
    have hiff := h.dispatching_iff
    rw [passes_of_cursor hcursor, ← hpasses, List.map_cons] at hnodup
    rw [passes_of_cursor hcursor, ← hpasses, List.map_cons] at hiff
    rcases List.nodup_cons.1 hnodup with ⟨hother, hrest⟩
    refine ⟨hrest, ?_, ?_⟩
    · intro r
      rw [hdispatching]
      by_cases hr : r = c.scheduler
      · simpa [hr] using hother
      · rw [Function.update_of_ne hr, hiff, List.mem_cons, or_iff_right hr]
    · intro d hd
      rw [hpasses] at hd
      apply h.since_append hcourse
      · rw [passes_of_cursor hcursor]
        exact List.mem_cons_of_mem _ hd
      · simp [Event.delimits, (h.ne_of_frame hcursor hd).symm]

end Stacked

/-- At every reachable moment each pass under way is one of another scheduler, and is under way since
it began. -/
theorem Reachable.stacked (h : x.Reachable) : x.Stacked :=
  h.change_induction stacked_initial fun _ _ _ hcourse hchange hy => hy.change hcourse hchange

end Moment
end SoftTimer
