import SoftTimer.Proofs.History
import SoftTimer.Proofs.Regions

/-!
# Re-entrancy

A callback may dispatch the scheduler whose pass called it, directly or through callbacks of other
schedulers.  The mark of the scheduler shows that a pass is under way, and such a dispatch is
ignored.  So the passes under way are as many as the schedulers at most.

Main definitions:

- `Moment.Reentrant`: the marks of the schedulers, the passes under way, and the dispatches made
  meanwhile.

Main results:

- Theorem `Moment.Reachable.dispatching_iff_openSince`: the mark is set exactly from the beginning
  of a pass to its end.
- Theorem `Machine.request_dispatch_of_dispatching`: a dispatch during a pass of the same scheduler
  is noted and ignored.
- Theorem `Moment.Reachable.reentrant`: at every reachable moment one pass of each scheduler is under
  way at most, and further dispatches of that scheduler are ignored.
-/

namespace SoftTimer

variable {m n : Nat}

/-! ## The mark and the course -/

section Places

variable {s : Fin m} {now : Timespec} {b : Nat} {es more : List (Event m n)}

/-- Events that delimit no pass of `s` do not open one. -/
theorem OpenSince.of_append (h : OpenSince s now b (es ++ more))
    (hmore : ∀ e ∈ more, e.delimits s = false) : OpenSince s now b es := by
  rcases h with ⟨before, after, hcut, hlen, hafter⟩
  have hbegan : (Event.began s now : Event m n).delimits s = true := decide_eq_true rfl
  rcases List.append_eq_append_iff.1 hcut with ⟨a, rfl, hrest⟩ | ⟨a, rfl, hrest⟩
  · have hmem : Event.began s now ∈ more := hrest ▸ List.mem_append_right a List.mem_cons_self
    simp [hmore _ hmem] at hbegan
  · cases a with
    | nil =>
      have hmem : Event.began s now ∈ more := by
        rw [← List.nil_append more, ← hrest]
        exact List.mem_cons_self
      simp [hmore _ hmem] at hbegan
    | cons e a =>
      rcases List.cons.inj hrest with ⟨rfl, rfl⟩
      exact ⟨before, a, rfl, hlen, fun e he => hafter e (List.mem_append_left _ he)⟩

/-- The end of a pass closes it. -/
theorem not_openSince_finished (s : Fin m) (now : Timespec) (b : Nat) (es : List (Event m n)) :
    ¬ OpenSince s now b (es ++ [.finished s]) := by
  rintro ⟨before, after, hcut, -, hafter⟩
  have hfinished : (Event.finished s : Event m n).delimits s = true := decide_eq_true rfl
  have hlast : (Event.began s now :: after).getLast? = some (.finished s) := by
    simpa using (congrArg List.getLast? hcut).symm
  rcases List.mem_cons.1 (List.mem_of_getLast? hlast) with heq | hmem
  · cases heq
  · simp [hafter _ hmem] at hfinished

end Places

namespace Moment

variable {x y : Moment m n} {s : Fin m} {now : Timespec} {es : List (Event m n)}

/-- A pass that is under way according to the course was so before, unless it began by this step. -/
theorem Change.dispatching_of_openSince (h : Change x y es)
    (hcourse : y.system.course = x.system.course ++ es)
    (hx : ∀ s now b, OpenSince s now b x.system.course → x.system.dispatching s = true) :
    ∀ s now b, OpenSince s now b y.system.course → y.system.dispatching s = true := by
  intro s now b hopen
  rw [hcourse] at hopen
  cases h with
  | other _ events _ hdispatching =>
    rw [hdispatching]
    refine hx s now b (hopen.of_append ?_)
    rcases events with rfl | ⟨r, c, reply, rfl⟩ <;> simp [Event.delimits]
  | @began r _ _ _ _ _ _ _ hbegun =>
    rw [hbegun.dispatching]
    by_cases hr : r = s
    · rw [hr, Function.update_self]
    · rw [Function.update_of_ne (Ne.symm hr)]
      exact hx s now b (hopen.of_append (by simp [Event.delimits, hr]))
  | @visited c t _ _ _ hdispatching =>
    rw [hdispatching]
    refine hx s now b (hopen.of_append ?_)
    cases (x.system.timer t).callback <;> simp [Event.delimits]
  | @finished c _ _ _ hdispatching =>
    rw [hdispatching]
    by_cases hc : c.scheduler = s
    · exact absurd (hc ▸ hopen) (not_openSince_finished s now b _)
    · rw [Function.update_of_ne (Ne.symm hc)]
      exact hx s now b (hopen.of_append (by simp [Event.delimits, hc]))

/-- The mark of a scheduler is set exactly from the beginning of a pass to its end. -/
theorem Reachable.dispatching_iff_openSince (h : x.Reachable) (s : Fin m) :
    x.system.dispatching s = true ↔ ∃ now b, OpenSince s now b x.system.course := by
  constructor
  · intro hs
    rcases List.mem_map.1 ((h.stacked.dispatching_iff s).1 hs) with ⟨c, hc, rfl⟩
    rcases h.stacked.since c hc with ⟨b, hb⟩
    exact ⟨c.now, b, hb⟩
  · rintro ⟨now, b, hopen⟩
    have hback : ∀ s now b, OpenSince s now b x.system.course → x.system.dispatching s = true := by
      refine h.change_induction (φ := fun x => ∀ s now b,
        OpenSince s now b x.system.course → x.system.dispatching s = true) ?_
        fun y z es hcourse hchange hy => hchange.dispatching_of_openSince hcourse hy
      rintro kinds s now b ⟨before, after, hcut, -, -⟩
      have hnil : [] = before ++ Event.began s now :: after := hcut
      simp at hnil
    exact hback s now b hopen

end Moment

/-! ## Dispatches during a pass -/

namespace Machine

variable {x : Machine m n} {s : Fin m} {now : Timespec}

/-- A dispatch during a pass of the same scheduler is noted in the log and ignored. -/
theorem request_dispatch_of_dispatching (h : x.system.dispatching s = true) (now : Timespec) :
    ∃ system, x.system.Noted s (.reentered now) system ∧
      x.request s (.dispatch now) = (.dispatched, { x with system }) := by
  refine ⟨(x.system.begin s now).2, System.noted_begin h, ?_⟩
  simp only [request, System.begin_of_dispatching h]

/-- A walk that ends its pass clears the mark of the scheduler, and no callback is left running that
was not running before. -/
theorem walk_of_dispatched {k : Nat} {next : Option (Fin n)}
    (h : (walk s now k next x).1 = .dispatched) :
    (walk s now k next x).2.frames = x.frames ∧
      (walk s now k next x).2.system.dispatching s = false := by
  have hfinish : ∀ a : System m n, (a.finish s now).dispatching s = false := by
    intro a
    rw [System.dispatching_finish, Function.update_self]
  induction k generalizing next x with
  | zero => cases next <;> exact ⟨rfl, hfinish _⟩
  | succ k ih =>
    cases next with
    | none => exact ⟨rfl, hfinish _⟩
    | some t =>
      rw [walk] at h ⊢
      dsimp only at h ⊢
      split at h
      · cases h
      · exact ih h

/-- When a dispatch returns, no pass of its scheduler is under way. -/
theorem request_dispatch_of_dispatched (hidle : x.system.dispatching s = false)
    (h : (x.request s (.dispatch now)).1 = .dispatched) :
    (x.request s (.dispatch now)).2.frames = x.frames ∧
      (x.request s (.dispatch now)).2.system.dispatching s = false := by
  simp only [request, System.begin_of_not_dispatching hidle] at h ⊢
  exact walk_of_dispatched h

/-- When the pass that called a callback ends after it returned, the pass is no longer under way. -/
theorem ret_of_dispatched {frame : Frame m n} {frames : List (Frame m n)}
    (hframes : x.frames = frame :: frames) (h : x.ret.1 = .dispatched) :
    x.ret.2.frames = frames ∧ x.ret.2.system.dispatching frame.scheduler = false := by
  simp only [ret, hframes] at h ⊢
  exact walk_of_dispatched h

/-- Passes of two schedulers are under way: the callback of `t`, called by the pass of `s`, dispatched
`r`, and now the callback of `u` runs. -/
def nested (s r : Fin m) (t u : Fin n) : Machine m n :=
  (initial fun _ => .counting).run
    [.request s (.command (.init (some t) (some 0) .none)),
      .request r (.command (.init (some u) (some 1) .none)),
      .request s (.command (.arm (some t) .precise (some (.new 1 0)) none)),
      .request r (.command (.arm (some u) .precise (some (.new 1 0)) none)),
      .request s (.dispatch (.new 1 0)), .request r (.dispatch (.new 1 0))]

end Machine

namespace Moment

variable {x : Moment m n}

/-- Callbacks of passes of different schedulers run, so they are as many as the schedulers at most. -/
theorem Stacked.frames_length_le (h : x.Stacked) : x.frames.length ≤ m := by
  have hpasses : x.passes.length ≤ m := by
    have hcard := h.nodup.length_le_card
    rwa [List.length_map, Fintype.card_fin] at hcard
  have hframes : x.frames.length ≤ x.passes.length := by
    rw [passes, List.length_append, List.length_map]
    exact Nat.le_add_left _ _
  exact hframes.trans hpasses

/-- The marks of the schedulers, the passes under way, and the dispatches made meanwhile. -/
structure Reentrant (x : Moment m n) : Prop where
  /-- The schedulers that are marked are those of the passes under way. -/
  marked_iff : ∀ s, x.system.dispatching s = true ↔ s ∈ x.passes.map Cursor.scheduler
  /-- According to the course, they are those with a pass that began and did not end. -/
  open_iff : ∀ s, x.system.dispatching s = true ↔ ∃ now b, OpenSince s now b x.system.course
  /-- No two passes under way are of one scheduler. -/
  nodup : (x.passes.map Cursor.scheduler).Nodup
  /-- No more callbacks run than there are schedulers. -/
  callbacks_le : x.frames.length ≤ m
  /-- A dispatch of a marked scheduler enters the region once and logs a warning, and that is all. -/
  ignored : x.cursor = none → ∀ s now, x.system.dispatching s = true →
    (LogLine.reentered now).level = .warn ∧ ∃ system,
      x.system.Noted s (.reentered now) system ∧
        x.toMachine.step (.request s (.dispatch now)) = (.dispatched, { x.toMachine with system })
  /-- So does a dispatch at the time that a clock shows. -/
  ignored_onTimeout : x.cursor = none → ∀ s (κ : Type) [NanosecondCounter κ] (clock : Uptime κ),
    x.system.dispatching s = true → ∃ system,
      x.system.Noted s (.reentered clock.now) system ∧
        x.toMachine.onTimeout s clock = (.dispatched, { x.toMachine with system })
  /-- If a dispatch that is not ignored calls nothing, its scheduler is not marked afterwards. -/
  returned : x.cursor = none → ∀ s now, x.system.dispatching s = false →
    (x.toMachine.step (.request s (.dispatch now))).1 = .dispatched →
      (x.toMachine.step (.request s (.dispatch now))).2.frames = x.frames ∧
        (x.toMachine.step (.request s (.dispatch now))).2.system.dispatching s = false
  /-- If it does, its scheduler is not marked when it ends after the last callback returned. -/
  resumed : x.cursor = none → ∀ frame frames, x.frames = frame :: frames →
    (x.toMachine.step .ret).1 = .dispatched → (x.toMachine.step .ret).2.frames = frames ∧
      (x.toMachine.step .ret).2.system.dispatching frame.scheduler = false

/-- At every reachable moment the marks of the schedulers are those of the passes under way, one for
each scheduler at most; a dispatch of a marked scheduler is ignored, and when any other one returns
its scheduler is not marked. -/
theorem Reachable.reentrant (h : x.Reachable) : x.Reentrant where
  marked_iff := h.stacked.dispatching_iff
  open_iff := h.dispatching_iff_openSince
  nodup := h.stacked.nodup
  callbacks_le := h.stacked.frames_length_le
  ignored _ _ now hs := ⟨rfl, Machine.request_dispatch_of_dispatching hs now⟩
  ignored_onTimeout _ _ _ _ clock hs := Machine.request_dispatch_of_dispatching hs clock.now
  returned _ _ _ hidle hreply := Machine.request_dispatch_of_dispatched hidle hreply
  resumed _ _ _ hframes hreply := Machine.ret_of_dispatched hframes hreply

/-- With passes of two schedulers under way, a dispatch of the outer one is ignored. -/
theorem reentrant_nested :
    let x : Machine 2 2 := .nested 0 1 0 1
    (ofMachine x).Reachable ∧ x.frames.length = 2 ∧ x.system.dispatching 0 = true ∧
      (ofMachine x).Reentrant ∧ ∃ system, x.system.Noted 0 (.reentered (.new 5 0)) system ∧
        x.step (.request 0 (.dispatch (.new 5 0))) = (.dispatched, { x with system }) := by
  intro x
  have hx : (ofMachine x).Reachable := Reachable.ofMachine ⟨_, _, rfl⟩
  have hframes : (Machine.nested (0 : Fin 2) 1 (0 : Fin 2) 1).frames.length = 2 := by decide
  have hs : (Machine.nested (0 : Fin 2) 1 (0 : Fin 2) 1).system.dispatching 0 = true := by decide
  have hreentrant : (ofMachine x).Reentrant := hx.reentrant
  exact ⟨hx, hframes, hs, hreentrant, (hreentrant.ignored rfl 0 (.new 5 0) hs).2⟩

end Moment
end SoftTimer
