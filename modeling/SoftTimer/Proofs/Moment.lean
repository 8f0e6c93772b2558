import SoftTimer.Machine
import SoftTimer.Proofs.Pass

/-!
# Moments

A machine only stops where code outside the schedulers is in control.  While a pass goes on from
one timer to the next, no region is held between them, and a run may be looked at there too.  This
file looks at a run at every moment at which no region is held, and shows that these runs are those
of the machine.

Main definitions:

- `Cursor`: where a pass stands.
- `Moment`: a machine together with the pass that is in control, if one is.
- `Moment.step`, `Moment.run`, `Moment.Reachable`: what happens from moment to moment.
- `Moment.passes`: the passes under way, the innermost first.

Main results:

- Theorem `Moment.exists_run_eq_step`: an action of a machine is a run through moments.
- Theorem `Moment.reachable_ofMachine_iff`: machines and moments reach the same systems.
-/

namespace SoftTimer

variable {m n : Nat}

/-- Where a pass stands. -/
structure Cursor (m n : Nat) where
  /-- The scheduler of the pass. -/
  scheduler : Fin m
  /-- The time it serves. -/
  now : Timespec
  /-- The timer to come to next. -/
  next : Option (Fin n)
deriving DecidableEq

/-- Where a pass stands while one of its callbacks runs. -/
def Frame.cursor (f : Frame m n) : Cursor m n :=
  ⟨f.scheduler, f.now, f.next⟩

/-- A machine at a moment when no region is held. -/
structure Moment (m n : Nat) extends Machine m n where
  /-- The pass that is in control, unless other code is. -/
  cursor : Option (Cursor m n) := none
deriving DecidableEq

namespace Moment

/-- The moment at which a machine stops. -/
def ofMachine (x : Machine m n) : Moment m n :=
  { x with }

/-- The passes under way, the innermost first. -/
def passes (x : Moment m n) : List (Cursor m n) :=
  x.cursor.toList ++ x.frames.map Frame.cursor

/-! ## From moment to moment -/

/-- A pass in control comes to the next timer, or ends. -/
def advance (x : Moment m n) (c : Cursor m n) : Moment m n :=
  match c.next with
  | none => { x with system := x.system.finish c.scheduler c.now, cursor := none }
  | some t =>
    let (found, system) := x.system.visit c.scheduler t
    match found.binding with
    | some (callback, arg) =>
      { system := system.emit (.called c.scheduler t callback arg)
        frames := ⟨c.scheduler, c.now, t, found.next⟩ :: x.frames
        cursor := none }
    | none => { x with system, cursor := some { c with next := found.next } }

/-- Code in control does something. -/
def act (x : Moment m n) : Action m n → Moment m n
  | .request s (.command c) =>
    let (outcome, system) := x.system.command s c
    { x with system := system.emit (.answered s (.command c) (.ofOutcome outcome)) }
  | .request s (.query q) =>
    let (answer, system) := x.system.query s q
    { x with system := system.emit (.answered s (.query q) (.answered answer)) }
  | .request s (.dispatch now) =>
    match x.system.begin s now with
    | (.ignored, system) => { x with system }
    | (.admitted first, system) => { x with system, cursor := some ⟨s, now, first⟩ }
  | .ret =>
    match x.frames with
    | [] => x
    | frame :: frames => { x with frames, cursor := some frame.cursor }

/-- The next moment.  A pass in control goes its way; otherwise the action is done. -/
def step (x : Moment m n) (a : Action m n) : Moment m n :=
  match x.cursor with
  | some c => x.advance c
  | none => x.act a

/-- The moment after a row of actions. -/
def run (x : Moment m n) (actions : List (Action m n)) : Moment m n :=
  actions.foldl step x

/-- A run continues where a shorter one ended. -/
theorem run_append (x : Moment m n) (actions more : List (Action m n)) :
    x.run (actions ++ more) = (x.run actions).run more :=
  List.foldl_append

/-- While a pass is in control, a step is one of the pass. -/
theorem step_of_cursor {x : Moment m n} {c : Cursor m n} (h : x.cursor = some c)
    (a : Action m n) : x.step a = x.advance c := by
  rw [step, h]

/-- While no pass is in control, a step is the action of a client or callback. -/
theorem step_of_no_cursor {x : Moment m n} (h : x.cursor = none) (a : Action m n) :
    x.step a = x.act a := by
  rw [step, h]

/-- The moments that some actions lead to from the start. -/
def Reachable (x : Moment m n) : Prop :=
  ∃ kinds actions, (ofMachine (.initial kinds)).run actions = x

/-- What a run leads to from a reachable moment is reachable. -/
theorem Reachable.run {x : Moment m n} (h : x.Reachable) (actions : List (Action m n)) :
    (x.run actions).Reachable := by
  rcases h with ⟨kinds, before, rfl⟩
  exact ⟨kinds, before ++ actions, run_append _ _ _⟩

/-- What holds at the start and from moment to moment holds at every reachable moment. -/
theorem Reachable.induction {φ : Moment m n → Prop} {x : Moment m n} (h : x.Reachable)
    (hinitial : ∀ kinds, φ (ofMachine (.initial kinds))) (hstep : ∀ x a, φ x → φ (x.step a)) :
    φ x := by
  rcases h with ⟨kinds, actions, rfl⟩
  induction actions using List.reverseRecOn with
  | nil => exact hinitial kinds
  | append_singleton actions a ih =>
    rw [run_append]
    exact hstep _ a ih

end Moment

/-! ## Moments and machines -/

namespace System

/-- The number of timers that lead to another one in a chain. -/
def links (sys : System m n) : Nat :=
  (Finset.univ.filter fun t => (sys.timer t).firedNext.isSome = true).card

/-- There are at most as many links of passes as timers. -/
theorem links_le (sys : System m n) : sys.links ≤ n := by
  have hcard := Finset.card_le_univ (Finset.univ.filter fun t =>
    (sys.timer t).firedNext.isSome = true)
  rwa [Fintype.card_fin] at hcard

/-- Coming to a timer takes its link away. -/
theorem links_visit_lt {sys : System m n} {t : Fin n} (s : Fin m)
    (h : (sys.timer t).firedNext ≠ none) : (sys.visit s t).2.links < sys.links := by
  refine Finset.card_lt_card (Finset.ssubset_iff_of_subset ?_ |>.2 ⟨t, ?_, ?_⟩)
  · intro u hu
    rw [Finset.mem_filter, timer_visit] at hu
    rw [Finset.mem_filter]
    refine ⟨hu.1, ?_⟩
    by_cases hut : u = t
    · simp [hut] at hu
    · simpa [hut] using hu.2
  · simpa [Option.isSome_iff_ne_none] using h
  · simp [timer_visit]

end System

namespace Machine

/-- A dispatch that is ignored answers at once. -/
theorem request_dispatch_of_ignored {x : Machine m n} {s : Fin m} {now : Timespec}
    (h : (x.system.begin s now).1 = .ignored) :
    x.request s (.dispatch now) =
      (.dispatched, { x with system := (x.system.begin s now).2 }) := by
  rcases hbegin : x.system.begin s now with ⟨admission, system⟩
  rw [hbegin] at h
  obtain rfl : admission = .ignored := h
  simp only [request, hbegin]

/-- A dispatch that is admitted comes to the timers of its chain. -/
theorem request_dispatch_of_admitted {x : Machine m n} {s : Fin m} {now : Timespec}
    {first : Option (Fin n)} (h : (x.system.begin s now).1 = .admitted first) :
    x.request s (.dispatch now) =
      proceed { x with system := (x.system.begin s now).2 } s now first := by
  rcases hbegin : x.system.begin s now with ⟨admission, system⟩
  rw [hbegin] at h
  obtain rfl : admission = .admitted first := h
  simp only [request, hbegin]

/-- However many visits are allowed for, as long as they are more than the links, a walk ends at
the same machine. -/
theorem walk_congr {s : Fin m} {now : Timespec} {k k' : Nat} {next : Option (Fin n)}
    {x : Machine m n} (hk : next ≠ none → x.system.links < k)
    (hk' : next ≠ none → x.system.links < k') :
    walk s now k next x = walk s now k' next x := by
  induction k generalizing k' next x with
  | zero =>
    cases next with
    | none => cases k' <;> rfl
    | some t => exact absurd (hk (by simp)) (Nat.not_lt_zero _)
  | succ k ih =>
    cases next with
    | none => cases k' <;> rfl
    | some t =>
      cases k' with
      | zero => exact absurd (hk' (by simp)) (Nat.not_lt_zero _)
      | succ k' =>
        have hlinks := Nat.le_of_lt_succ (hk (by simp))
        have hlinks' := Nat.le_of_lt_succ (hk' (by simp))
        have hless : (x.system.timer t).firedNext ≠ none →
            (x.system.visit s t).2.links < x.system.links := System.links_visit_lt s
        rw [walk, walk]
        dsimp only
        split
        · rfl
        · exact ih (fun hne => Nat.lt_of_lt_of_le (hless hne) hlinks)
            fun hne => Nat.lt_of_lt_of_le (hless hne) hlinks'

end Machine

namespace Moment

/-- The machine at which the pass in control stops, if one is. -/
def complete (x : Moment m n) : Machine m n :=
  match x.cursor with
  | some c => (x.toMachine.proceed c.scheduler c.now c.next).2
  | none => x.toMachine

/-- Completing a step of a pass is what the machine does when it proceeds. -/
theorem complete_advance (x : Moment m n) (c : Cursor m n) :
    (x.advance c).complete = (x.toMachine.proceed c.scheduler c.now c.next).2 := by
  rcases c with ⟨s, now, next⟩
  cases next with
  | none => rfl
  | some t =>
    cases hbinding : (x.system.visit s t).1.binding with
    | some binding => simp only [advance, complete, Machine.proceed, Machine.walk, hbinding]
    | none =>
      simp only [advance, complete, Machine.proceed, Machine.walk, hbinding]
      refine congrArg Prod.snd (Machine.walk_congr ?_ ?_)
      · intro _
        exact Nat.lt_succ_of_le (System.links_le _)
      · intro hne
        have hless : (x.system.visit s t).2.links < x.system.links :=
          System.links_visit_lt s hne
        exact Nat.lt_of_lt_of_le hless x.system.links_le

/-- Completing the action of a client or callback is what the machine does in a step. -/
theorem complete_act {x : Moment m n} (h : x.cursor = none) (a : Action m n) :
    (x.act a).complete = (x.toMachine.step a).2 := by
  rcases x with ⟨x, cursor⟩
  obtain rfl : cursor = none := h
  cases a with
  | request s what =>
    cases what with
    | command c => rfl
    | query q => rfl
    | dispatch now =>
      rcases hbegin : x.system.begin s now with ⟨admission, system⟩
      cases admission with
      | ignored => simp only [act, complete, Machine.step, Machine.request, hbegin]
      | admitted first => simp only [act, complete, Machine.step, Machine.request, hbegin]
  | ret =>
    rcases hframes : x.frames with _ | ⟨frame, frames⟩
    · simp only [act, complete, Machine.step, Machine.ret, hframes]
    · simp only [act, complete, Machine.step, Machine.ret, hframes, Frame.cursor]

/-- Where no pass is in control there is nothing to complete. -/
theorem ofMachine_complete {x : Moment m n} (h : x.cursor = none) :
    ofMachine x.complete = x := by
  rcases x with ⟨x, cursor⟩
  obtain rfl : cursor = none := h
  rfl

/-- A step of a pass does not change what completing it comes to. -/
theorem complete_step_of_cursor {x : Moment m n} {c : Cursor m n} (h : x.cursor = some c)
    (a : Action m n) : (x.step a).complete = x.complete := by
  rw [step_of_cursor h, complete_advance, complete, h]

/-- A pass that has no timer to come to gives up control. -/
theorem cursor_advance_of_next {x : Moment m n} {c : Cursor m n} (h : c.next = none) :
    (x.advance c).cursor = none := by
  rw [advance, h]

/-- A pass that stays in control has used up a link, or is at the end of its chain. -/
theorem links_advance_lt {x : Moment m n} {c c' : Cursor m n}
    (h : (x.advance c).cursor = some c') :
    c'.next = none ∨ (x.advance c).system.links < x.system.links := by
  rcases hnext : c.next with _ | t
  · rw [cursor_advance_of_next hnext] at h
    cases h
  · cases hbinding : (x.system.visit c.scheduler t).1.binding with
    | some binding =>
      simp only [advance, hnext, hbinding] at h
      cases h
    | none =>
      simp only [advance, hnext, hbinding, Option.some.injEq] at h ⊢
      by_cases hfired : (x.system.timer t).firedNext = none
      · exact .inl (h ▸ hfired)
      · exact .inr (System.links_visit_lt c.scheduler hfired)

/-- A pass in control comes to a stop by itself. -/
theorem exists_run_eq_complete (x : Moment m n) :
    ∃ actions, x.run actions = ofMachine x.complete := by
  -- the links run out, so induct on a bound for them
  suffices hbound : ∀ (k : Nat) (x : Moment m n), x.system.links < k →
      ∃ actions, x.run actions = ofMachine x.complete from
    hbound (n + 1) x (Nat.lt_succ_of_le x.system.links_le)
  intro k
  induction k with
  | zero =>
    intro x hk
    exact absurd hk (Nat.not_lt_zero _)
  | succ k ih =>
    intro x hk
    rcases hcursor : x.cursor with _ | c
    · exact ⟨[], (ofMachine_complete hcursor).symm⟩
    · have hcomplete := complete_step_of_cursor hcursor .ret
      rw [← hcomplete]
      rcases hcursor' : (x.step .ret).cursor with _ | c'
      · exact ⟨[.ret], (ofMachine_complete hcursor').symm⟩
      · have hcomplete' := complete_step_of_cursor hcursor' .ret
        rw [step_of_cursor hcursor] at hcursor'
        rcases links_advance_lt hcursor' with hnext | hless
        · have hlast : ((x.step .ret).step .ret).cursor = none := by
            rw [step_of_cursor hcursor, step_of_cursor hcursor', cursor_advance_of_next hnext]
          rw [← hcomplete']
          exact ⟨[.ret, .ret], (ofMachine_complete hlast).symm⟩
        · rw [step_of_cursor hcursor]
          rcases ih (x.advance c) (by omega) with ⟨actions, hrun⟩
          refine ⟨.ret :: actions, ?_⟩
          rw [← hrun, ← step_of_cursor hcursor .ret]
          rfl

/-- An action of a machine is a run through moments. -/
theorem exists_run_eq_step (x : Machine m n) (a : Action m n) :
    ∃ actions, (ofMachine x).run actions = ofMachine (x.step a).2 := by
  rcases exists_run_eq_complete ((ofMachine x).act a) with ⟨actions, hrun⟩
  rw [complete_act rfl] at hrun
  exact ⟨a :: actions, hrun⟩

/-- Completing a reachable moment gives a reachable machine. -/
theorem Reachable.complete {x : Moment m n} (h : x.Reachable) : x.complete.Reachable := by
  refine h.induction (φ := fun x => x.complete.Reachable)
    (fun kinds => Machine.Reachable.initial kinds) ?_
  intro x a hx
  rcases hcursor : x.cursor with _ | c
  · have hmachine : x.complete = x.toMachine := by rw [Moment.complete, hcursor]
    rw [step_of_no_cursor hcursor, complete_act hcursor, ← hmachine]
    exact hx.step a
  · rwa [complete_step_of_cursor hcursor]

/-- A reachable machine is a reachable moment. -/
theorem Reachable.ofMachine {x : Machine m n} (h : x.Reachable) : (ofMachine x).Reachable := by
  rcases h with ⟨kinds, actions, rfl⟩
  induction actions using List.reverseRecOn with
  | nil => exact ⟨kinds, [], rfl⟩
  | append_singleton actions a ih =>
    rw [Machine.run_append]
    rcases exists_run_eq_step ((Machine.initial kinds).run actions) a with ⟨more, hrun⟩
    rw [Machine.run_cons, Machine.run_nil, ← hrun]
    exact ih.run more

/-- The moments at which a machine stops are reached exactly when the machine is. -/
theorem reachable_ofMachine_iff {x : Machine m n} :
    (Moment.ofMachine x).Reachable ↔ x.Reachable :=
  ⟨fun h => h.complete, fun h => Reachable.ofMachine h⟩

end Moment
end SoftTimer
