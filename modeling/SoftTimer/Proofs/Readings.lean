import Mathlib.Algebra.GroupWithZero.Nat
import SoftTimer.Proofs.History
import SoftTimer.Proofs.Units

/-!
# From counters to expiries

A clock shows the reading of its counter modulo `2 ^ 32` seconds, and a dispatch by the clock serves
the timers whose deadlines are not above what remains.  This holds of every reading of a 64-bit
counter, also after the seconds of the clock have started anew.  Between two turns of the seconds a
clock never goes back, as long as its counter does not.

Main definitions:

- `ManualCounter.Move`, `ManualCounter.run`: moving a counter by hand, step by step.
- `Machine.Serves`: what a dispatch by a clock does at a reading of its counter.

Main results:

- Theorem `ManualCounter.toNat_run`: the reading after a row of moves.
- Theorem `Uptime.now_le_now`: within a turn of the seconds clocks compare like their counters.
- Theorem `Machine.exists_course_walk`: walking along the chain takes nothing out.
- Theorem `Machine.Reachable.serves`: a dispatch by a clock takes out exactly what is due at the
  reading, whatever the counter.
- Theorem `Machine.Reachable.served_at_readings`: the same for both counters, and when their clocks
  do not go back.
-/

namespace SoftTimer

/-! ## Moving a counter by hand -/

namespace ManualCounter

/-- A step of moving a counter by hand. -/
inductive Move where
  /-- Put it to a value. -/
  | set (ns : UInt64)
  /-- Move it forward. -/
  | advance (ns : UInt64)
deriving DecidableEq

/-- Move a counter. -/
def move (c : ManualCounter) : Move → ManualCounter
  | .set ns => c.set ns
  | .advance ns => c.advance ns

/-- Move a counter step by step. -/
def run (c : ManualCounter) (moves : List Move) : ManualCounter :=
  moves.foldl move c

/-- The reading that a move leads to.  Moving forward stops at the largest word. -/
def Move.reading (k : Nat) : Move → Nat
  | .set ns => ns.toNat
  | .advance ns => min (k + ns.toNat) (UInt64.size - 1)

/-- Moves continue where earlier ones ended. -/
theorem run_append (c : ManualCounter) (moves more : List Move) :
    c.run (moves ++ more) = (c.run moves).run more :=
  List.foldl_append

/-- A move leads to the reading that it tells. -/
theorem toNat_move (c : ManualCounter) (move : Move) :
    (c.move move).current.toNat = move.reading c.current.toNat := by
  cases move with
  | set ns => rfl
  | advance ns => exact toNat_advance c ns

/-- Moves lead to the reading that they tell one after another. -/
theorem toNat_run (c : ManualCounter) (moves : List Move) :
    (c.run moves).current.toNat = moves.foldl Move.reading c.current.toNat := by
  induction moves generalizing c with
  | nil => rfl
  | cons move moves ih =>
    rw [List.foldl_cons, ← toNat_move]
    exact ih (c.move move)

/-- A row of moves forward adds up, and stops at the largest word. -/
theorem toNat_run_advance (c : ManualCounter) (steps : List UInt64) :
    (c.run (steps.map Move.advance)).current.toNat =
      min (c.current.toNat + (steps.map UInt64.toNat).sum) (UInt64.size - 1) := by
  induction steps generalizing c with
  | nil =>
    have hlt := c.current.toNat_lt_size
    rw [List.map_nil, List.map_nil, List.sum_nil]
    exact (Nat.min_eq_left (Nat.le_sub_one_of_lt hlt)).symm
  | cons step steps ih =>
    have hrest := ih (c.advance step)
    rw [toNat_advance] at hrest
    rw [List.map_cons, List.map_cons, List.sum_cons, run, List.foldl_cons]
    refine Eq.trans hrest ?_
    omega

/-- Moving a counter forward never takes it back. -/
theorem le_toNat_run_advance (c : ManualCounter) (steps : List UInt64) :
    c.current.toNat ≤ (c.run (steps.map Move.advance)).current.toNat := by
  have hlt := c.current.toNat_lt_size
  rw [toNat_run_advance]
  omega

end ManualCounter

/-! ## Clocks within a turn of the seconds -/

namespace Uptime

variable {κ : Type} [NanosecondCounter κ] {u v : Uptime κ}

/-- The clock shows the counter modulo a turn of the seconds. -/
theorem nanos_now_eq (u : Uptime κ) :
    u.now.nanos = (NanosecondCounter.nanos u.counter).toNat % Timespec.cycle :=
  u.nanos_now

/-- If the counter did not go back, and the seconds did not start anew, the clock did not go back. -/
theorem now_le_now
    (hle : (NanosecondCounter.nanos u.counter).toNat ≤ (NanosecondCounter.nanos v.counter).toNat)
    (hturn : (NanosecondCounter.nanos u.counter).toNat / Timespec.cycle =
      (NanosecondCounter.nanos v.counter).toNat / Timespec.cycle) : u.now ≤ v.now := by
  rw [Timespec.le_iff_nanos_le, nanos_now_eq, nanos_now_eq]
  have hu := Nat.div_add_mod (NanosecondCounter.nanos u.counter).toNat Timespec.cycle
  have hv := Nat.div_add_mod (NanosecondCounter.nanos v.counter).toNat Timespec.cycle
  rw [hturn] at hu
  omega

end Uptime

variable {m n : Nat}

/-! ## What the walk of a pass takes out -/

namespace Machine

/-- Coming to timers and calling one of them takes nothing out, and neither does ending the pass. -/
theorem exists_course_walk (s : Fin m) (now : Timespec) (visits : Nat) (next : Option (Fin n))
    (x : Machine m n) :
    ∃ more, (walk s now visits next x).2.system.course = x.system.course ++ more ∧
      taken more = [] := by
  have hfinish : ∀ x : Machine m n, ∃ more,
      (x.system.finish s now).course = x.system.course ++ more ∧ taken more = [] :=
    fun x => ⟨_, System.course_finish x.system s now, taken_finished s⟩
  -- the walk recurses on the visits that are left, and only where no callback is bound
  induction visits generalizing next x with
  | zero => exact hfinish x
  | succ visits ih =>
    cases next with
    | none => exact hfinish x
    | some t =>
      have hvisit := System.course_visit x.system s t
      cases hbinding : (x.system.visit s t).1.binding with
      | some binding =>
        refine ⟨[.visited s t, .called s t binding.1 binding.2], ?_, rfl⟩
        simp only [walk, hbinding]
        rw [System.course_emit _ rfl, hvisit, List.append_assoc]
        rfl
      | none =>
        simp only [walk, hbinding]
        rcases ih (x.system.visit s t).1.next { x with system := (x.system.visit s t).2 } with
          ⟨more, hmore, htaken⟩
        refine ⟨.visited s t :: more, ?_, htaken⟩
        rw [hmore]
        dsimp only
        rw [hvisit, List.append_assoc]
        rfl

end Machine

/-- While a pass of `s` is under way, nothing else is taken out of the list of `s`. -/
theorem Moment.Throughout.detached_ne {y : Moment m n} {s : Fin m} {actions : List (Action m n)}
    (h : Moment.Throughout s y actions) (hy : y.system.Steady) :
    ∃ es, (y.run actions).system.course = y.system.course ++ es ∧
      ∀ r t d, .detached r t d ∈ es → r ≠ s := by
  have hnone : ∀ r t d, (.detached r t d : Event m n) ∈ [] → r ≠ s := by simp
  have hstep : ∀ x z (es more : List (Event m n)), (∀ r t d, .detached r t d ∈ es → r ≠ s) →
      x.system.dispatching s = true → Moment.Change x z more →
      ∀ r t d, .detached r t d ∈ es ++ more → r ≠ s := by
    intro x z es more hown hs hchange r t d hmem
    rcases List.mem_append.1 hmem with hmem | hmem
    · exact hown r t d hmem
    · rcases List.append_of_mem hmem with ⟨earlier, later, rfl⟩
      rcases hchange.of_detached with ⟨-, -, hidle, -⟩
      rintro rfl
      rw [hs] at hidle
      cases hidle
  exact h.induction (φ := fun _ es => ∀ r t d, .detached r t d ∈ es → r ≠ s) hy hstep hnone

/-! ## Dispatching by a clock -/

namespace Machine

/-- When the counter of a clock reads `ns`, the clock shows `ns` modulo a turn of the seconds.  A
dispatch of `s` by the clock takes out the timers armed on `s` whose deadlines are not above that, in
the order of the list, before anything else happens.  Until the pass is over, nothing else is taken
out of the list of `s`. -/
structure Serves {κ : Type} [NanosecondCounter κ] (x : Machine m n) (s : Fin m) (clock : Uptime κ)
    (ns : Nat) : Prop where
  nanos_now : clock.now.nanos = ns % Timespec.cycle
  normalized : clock.now.words.Normalized
  nodup : (x.system.due s clock.now).Nodup
  mem_due : ∀ t, t ∈ x.system.due s clock.now ↔ (x.system.timer t).armed = true ∧
    (x.system.timer t).owner = some s ∧ (x.system.timer t).deadline.nanos ≤ ns % Timespec.cycle
  /-- What happens until the dispatch is over, or calls a timer. -/
  taken_out : ∃ more, (x.onTimeout s clock).2.system.course = x.system.course ++
      (.began s clock.now :: (x.system.due s clock.now).map fun t =>
        .detached s t (x.system.timer t).deadline) ++ more ∧ taken more = []
  /-- What happens afterwards, while the callbacks run. -/
  nothing_else : ∀ actions, Moment.Throughout s (.ofMachine (x.onTimeout s clock).2) actions →
    ∃ es, ((Moment.ofMachine (x.onTimeout s clock).2).run actions).system.course =
        (x.onTimeout s clock).2.system.course ++ es ∧
      ∀ r t d, .detached r t d ∈ es → r ≠ s

variable {x : Machine m n} {s : Fin m}

/-- A dispatch by a clock takes out exactly what is due at the reading, whatever the counter. -/
theorem Reachable.serves {κ : Type} [NanosecondCounter κ] (hx : x.Reachable)
    (hidle : x.system.dispatching s = false) (clock : Uptime κ) {ns : Nat}
    (hns : (NanosecondCounter.nanos clock.counter).toNat = ns) : x.Serves s clock ns := by
  have hnow : clock.now.nanos = ns % Timespec.cycle := hns ▸ clock.nanos_now_eq
  have hsteady : x.system.Steady := (Moment.Reachable.ofMachine hx).steady
  rcases hsteady with ⟨armed, hsound, -⟩
  refine ⟨hnow, clock.now.nsec_lt, hsound.nodup_due s clock.now, ?mem, ?began, ?rest⟩
  case mem =>
    intro t
    rw [System.due, List.mem_filter, decide_eq_true_eq, hsound.mem_armedTimers, and_assoc,
      Timespec.le_iff_nanos_le, hnow]
  case began =>
    rcases hsound.begin hidle clock.now with ⟨hfirst, hbegun⟩
    rw [← hsound.due_eq] at hfirst hbegun
    rw [onTimeout, request_dispatch_of_admitted hfirst]
    rcases exists_course_walk s clock.now (n + 1) (x.system.due s clock.now).head?
      { x with system := (x.system.begin s clock.now).2 } with ⟨more, hmore, htaken⟩
    exact ⟨more, hmore.trans (congrArg (· ++ more) hbegun.course), htaken⟩
  case rest =>
    intro actions hrun
    have hend : (x.onTimeout s clock).2.Reachable := hx.step (.request s (.dispatch clock.now))
    exact hrun.detached_ne (Moment.Reachable.ofMachine hend).steady

/-- Outside a dispatch, a counter that was moved by hand in any way reads what the moves lead to, and
a dispatch by its clock serves that reading.  A counter of microseconds reads a thousand times its
ticks, or the largest word, and is served alike.  Neither clock goes back within a turn of the
seconds, if the one counter is only moved forward and the ticks of the other do not go back. -/
theorem Reachable.served_at_readings (hx : x.Reachable) (hidle : x.system.dispatching s = false) :
    (∀ (start : ManualCounter) (moves : List ManualCounter.Move) (drift : Int16),
      x.Serves s { counter := start.run moves, driftPpm := drift }
        (moves.foldl ManualCounter.Move.reading start.current.toNat)) ∧
    (∀ (start : ManualCounter) (steps more : List UInt64) (drift drift' : Int16),
      let earlier := start.run (steps.map .advance)
      let later := start.run ((steps ++ more).map .advance)
      later.current.toNat =
          min (start.current.toNat + ((steps ++ more).map UInt64.toNat).sum) (UInt64.size - 1) ∧
        (earlier.current.toNat / Timespec.cycle = later.current.toNat / Timespec.cycle →
          Uptime.now { counter := earlier, driftPpm := drift } ≤
            Uptime.now { counter := later, driftPpm := drift' })) ∧
    (∀ (micros : UInt64) (drift : Int16),
      x.Serves s { counter := MicrosecondCounter.mk micros, driftPpm := drift }
        (min (micros.toNat * 1000) (UInt64.size - 1))) ∧
    ∀ micros : Nat → UInt64, (∀ i j, i ≤ j → micros i ≤ micros j) →
      ∀ (i j : Nat) (drift drift' : Int16), i ≤ j →
      min ((micros i).toNat * 1000) (UInt64.size - 1) / Timespec.cycle =
          min ((micros j).toNat * 1000) (UInt64.size - 1) / Timespec.cycle →
        Uptime.now { counter := MicrosecondCounter.mk (micros i), driftPpm := drift } ≤
          Uptime.now { counter := MicrosecondCounter.mk (micros j), driftPpm := drift' } := by
  refine ⟨?moved, ?forward, ?ticking, ?ticks⟩
  case moved =>
    intro start moves drift
    exact hx.serves hidle _ (start.toNat_run moves)
  case forward =>
    intro start steps more drift drift' earlier later
    have hlater : later = earlier.run (more.map .advance) := by
      simp only [later, earlier, List.map_append, ManualCounter.run_append]
    refine ⟨start.toNat_run_advance (steps ++ more), fun hturn => ?_⟩
    refine Uptime.now_le_now ?_ hturn
    rw [hlater]
    exact earlier.le_toNat_run_advance more
  case ticking =>
    intro micros drift
    exact hx.serves hidle _ (MicrosecondCounter.toNat_nanos ⟨micros⟩)
  case ticks =>
    intro micros hmicros i j drift drift' hij hturn
    have hi := MicrosecondCounter.toNat_nanos ⟨micros i⟩
    have hj := MicrosecondCounter.toNat_nanos ⟨micros j⟩
    have hle : (micros i).toNat ≤ (micros j).toNat := UInt64.le_iff_toNat_le.1 (hmicros i j hij)
    refine Uptime.now_le_now ?_ ?_
    · rw [hi, hj]
      dsimp only
      omega
    · rw [hi, hj]
      exact hturn

/-- One and a half seconds after the seconds started anew, the timer due at two seconds stays armed
and the one due at one second is taken out.  A counter that is read every one and a half seconds does
not go back. -/
theorem served_twoArmed :
    let x : Machine 1 2 := .twoArmed 0 0 1
    let moves : List ManualCounter.Move := [.set 4294967296000000000, .advance 1500000000]
    let clock : Uptime ManualCounter := { counter := ManualCounter.run {} moves }
    let ticking (i : Nat) : Uptime MicrosecondCounter :=
      { counter := ⟨Word.clamp (1500000 * i)⟩ }
    x.Reachable ∧ x.system.dispatching 0 = false ∧ clock.now = .new 1 500000000 ∧
      x.system.due 0 clock.now = [1] ∧ x.Serves 0 clock 4294967297500000000 ∧
      x.Serves 0 (ticking 1) 1500000000 ∧ (ticking 1).now ≤ (ticking 2).now := by
  intro x moves clock ticking
  have hx : x.Reachable := ⟨_, _, rfl⟩
  have hidle : x.system.dispatching 0 = false := by decide
  have hmicros : ∀ i j : Nat, i ≤ j → Word.clamp (1500000 * i) ≤ Word.clamp (1500000 * j) := by
    intro i j hij
    rw [UInt64.le_iff_toNat_le, Word.toNat_clamp, Word.toNat_clamp]
    omega
  have hreading : min ((Word.clamp (1500000 * 1)).toNat * 1000) (UInt64.size - 1) = 1500000000 := by
    decide
  rcases hx.served_at_readings hidle with ⟨hmoved, -, hticking, hticks⟩
  have hfirst : x.Serves 0 (ticking 1) _ := hticking (Word.clamp (1500000 * 1)) defaultDriftPpm
  rw [hreading] at hfirst
  exact ⟨hx, hidle, by decide, by decide, hmoved {} moves defaultDriftPpm, hfirst,
    hticks _ hmicros 1 2 defaultDriftPpm defaultDriftPpm (by decide) (by decide)⟩

end Machine
end SoftTimer
