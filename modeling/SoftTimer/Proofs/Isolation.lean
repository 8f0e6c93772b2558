import SoftTimer.Proofs.Ownership
import SoftTimer.Proofs.Reentrancy

/-!
# Isolation of schedulers

The schedulers share the timers, and the links of all lists run through the same cells.  Still, what
is done through other schedulers changes nothing of a scheduler: neither its list, its mark, its
region and its hardware timeout, nor the timers that it owns, apart from the link that passes use.

Main definitions:

- `System.Spared`: what stays as it is for a scheduler while others work.
- `Machine.SparesAll`: a run in which neither a request is made of a scheduler nor its pass goes on.

Main results:

- Theorems `System.Sound.spared_command`, `System.Sound.spared_begin`, `System.Sound.spared_visit` and
  `System.Sound.spared_finish`: each piece of work spares all schedulers but its own.
- Theorem `Machine.Reachable.isolated`: a run that makes no request of a scheduler changes nothing of
  it, nor of its timers.
-/

namespace SoftTimer

variable {m n : Nat}

/-- If nothing changed in a timer but its links in a list, then nothing but these and the link of
passes. -/
theorem Timer.body_eq_of_body_eq {t u : Timer m n} (h : u.body = t.body) :
    u.body = { t.body with firedNext := u.firedNext } := by
  rw [Timer.apply_eq_of_body_eq Timer.firedNext_body h]
  exact h

/-! ## Lists with the same contents -/

namespace Threaded.Holds

variable {x y : Threaded m n} {l : List (Fin n)} {t : Fin n}

/-- The tail is the last timer of the list. -/
theorem tail_eq (h : x.Holds l) : x.list.tail = l.getLast? := by
  rw [← List.append_nil l] at h
  exact h.leader_eq

/-- The contents determine the ends and the length. -/
theorem list_eq (hx : x.Holds l) (hy : y.Holds l) : y.list = x.list := by
  have hhead : y.list.head = x.list.head := by rw [hx.head_eq, hy.head_eq]
  have htail : y.list.tail = x.list.tail := by rw [hx.tail_eq, hy.tail_eq]
  have hlen : y.list.len = x.list.len := by rw [hx.len_eq, hy.len_eq]
  cases hxlist : x.list
  cases hylist : y.list
  simp_all

/-- The contents determine the links. -/
theorem links_eq (hx : x.Holds l) (hy : y.Holds l) (ht : t ∈ l) :
    (y.cells.get t).prev = (x.cells.get t).prev ∧ (y.cells.get t).next = (x.cells.get t).next := by
  rcases List.append_of_mem ht with ⟨a, b, rfl⟩
  exact ⟨by rw [hx.prev_eq, hy.prev_eq], by rw [hx.next_eq, hy.next_eq]⟩

end Threaded.Holds

namespace System

variable {sys a b c : System m n} {armed armed' : Fin m → List (Fin n)} {q s : Fin m}
  {t : Fin n}

/-! ## What stays as it is -/

/-- From `a` to `b` nothing changed for the scheduler `q`.  The timers that it owns may have been
chained up anew or unchained; their links in its list are not looked at. -/
structure Spared (q : Fin m) (a b : System m n) : Prop where
  armedTimers : b.armedTimers q = a.armedTimers q
  dispatching : b.dispatching q = a.dispatching q
  region : b.region q = a.region q
  timeout : b.timeout q = a.timeout q
  body : ∀ t, (a.timer t).owner = some q →
    (b.timer t).body = { (a.timer t).body with firedNext := (b.timer t).firedNext }

namespace Spared

/-- A system spares every scheduler if nothing happens. -/
theorem refl (q : Fin m) (a : System m n) : Spared q a a :=
  ⟨rfl, rfl, rfl, rfl, fun _ _ => rfl⟩

/-- Parts of a way along which a scheduler is spared make up such a way. -/
theorem trans (hab : Spared q a b) (hbc : Spared q b c) : Spared q a c := by
  refine ⟨hbc.armedTimers.trans hab.armedTimers, hbc.dispatching.trans hab.dispatching,
    hbc.region.trans hab.region, hbc.timeout.trans hab.timeout, ?_⟩
  intro t ht
  have hself := hab.body t ht
  have howner : (b.timer t).owner = some q := (congrArg Timer.owner hself).trans ht
  rw [hbc.body t howner, hself]

/-- What changes regions only spares the schedulers whose regions it leaves alone. -/
theorem of_alike (h : a.Alike b) (hregion : b.region q = a.region q) : Spared q a b := by
  have htimer : ∀ t, b.timer t = a.timer t := fun t => congrArg (Table.get · t) h.timers
  refine ⟨?_, congrFun h.dispatching q, hregion, congrFun h.timeout q, fun t _ => ?_⟩
  · rw [System.armedTimers, threaded_eq, h.lists, h.timers]
    rfl
  · rw [htimer]
    rfl

/-- Recording an event spares every scheduler. -/
theorem emit (h : Spared q a b) (e : Event m n) : Spared q a (b.emit e) :=
  h.trans (.of_alike (alike_emit b e) rfl)

/-- The list is the same, with its ends and its length, and so is all else of the scheduler. -/
theorem scheduler_eq (h : Spared q a b) (ha : a.Sound armed) (hb : b.Sound armed') :
    b.scheduler q = a.scheduler q := by
  have harmed : armed' q = armed q := by
    rw [ha.eq_armedTimers, hb.eq_armedTimers, h.armedTimers]
  have hlist : (b.scheduler q).list = (a.scheduler q).list :=
    (ha.holds q).list_eq (harmed ▸ hb.holds q)
  have hdispatching : (b.scheduler q).dispatching = (a.scheduler q).dispatching := h.dispatching
  have hregion : (b.scheduler q).region = (a.scheduler q).region := h.region
  have htimeout : (b.scheduler q).timeout = (a.scheduler q).timeout := h.timeout
  cases hx : a.scheduler q
  cases hy : b.scheduler q
  simp_all

/-- The links in the list are the same: they are determined by it, and a timer off the list has
none. -/
theorem links_eq (h : Spared q a b) (ha : a.Sound armed) (hb : b.Sound armed')
    (ht : (a.timer t).owner = some q) :
    (b.timer t).prev = (a.timer t).prev ∧ (b.timer t).next = (a.timer t).next := by
  by_cases hmem : t ∈ armed q
  · have harmed : armed' q = armed q := by
      rw [ha.eq_armedTimers, hb.eq_armedTimers, h.armedTimers]
    exact (ha.holds q).links_eq (harmed ▸ hb.holds q) hmem
  · have hmark : (a.timer t).armed = false :=
      Bool.eq_false_iff.2 fun harmed => hmem ((ha.mem_iff q t).2 ⟨harmed, ht⟩)
    have hmark' : (b.timer t).armed = false := (congrArg Timer.armed (h.body t ht)).trans hmark
    rcases (ha.settled t).unlinked hmark with ⟨hprev, hnext⟩
    rcases (hb.settled t).unlinked hmark' with ⟨hprev', hnext'⟩
    exact ⟨hprev'.trans hprev.symm, hnext'.trans hnext.symm⟩

/-- The timers of a spared scheduler keep all cells but their links of passes. -/
theorem timer_eq (h : Spared q a b) (ha : a.Sound armed) (hb : b.Sound armed')
    (ht : (a.timer t).owner = some q) :
    b.timer t = { a.timer t with firedNext := (b.timer t).firedNext } := by
  rcases h.links_eq ha hb ht with ⟨hprev, hnext⟩
  have hbody := h.body t ht
  cases hx : a.timer t
  cases hy : b.timer t
  simp_all [Timer.body]

end Spared

/-- From `a` to `b` the scheduler `q` stayed as it was, with its list, its mark, its region and its
hardware timeout.  So did the timers that it owns, but for the link of passes. -/
structure Isolated (q : Fin m) (a b : System m n) : Prop where
  scheduler : b.scheduler q = a.scheduler q
  armedTimers : b.armedTimers q = a.armedTimers q
  timer : ∀ t, (a.timer t).owner = some q →
    b.timer t = { a.timer t with firedNext := (b.timer t).firedNext }

/-- In steady systems the armed timers determine the list with all its links. -/
theorem isolated_of_spared (h : Spared q a b) (ha : a.Steady) (hb : b.Steady) :
    Isolated q a b := by
  rcases ha with ⟨armed, hsound, -⟩
  rcases hb with ⟨armed', hsound', -⟩
  exact ⟨h.scheduler_eq hsound hsound', h.armedTimers, fun t ht => h.timer_eq hsound hsound' ht⟩

/-! ## Work of other schedulers -/

/-- A command leaves alone the timers that other schedulers hold: if it names one, it is refused. -/
theorem body_command_of_owner (hq : q ≠ s) (ht : (sys.timer t).owner = some q)
    (c : Command (Option (Fin n))) :
    ((sys.command s c).2.timer t).body = (sys.timer t).body := by
  by_cases hc : c.timer = some t
  · have hheld : (sys.timer t).heldByOther s = true :=
      Timer.heldByOther_eq_true_iff.2 ⟨q, ht, hq⟩
    rcases hresult : (sys.command s c).1 with cause | ⟨⟩
    · exact body_command_of_error hresult t
    · exact absurd (Command.barred_of_foreign hc hheld) ((command_eq_ok_iff sys s c).1 hresult)
  · exact body_command_of_ne hc sys s

/-- A query through one scheduler spares the others. -/
theorem spared_query (sys : System m n) (hq : q ≠ s) (query : Query (Option (Fin n))) :
    Spared q sys (sys.query s query).2 := by
  refine .of_alike (alike_query sys s query) ?_
  rcases sys.query_cases s query with ⟨-, heq⟩ | ⟨-, hcrossed⟩
  · rw [heq]
  · exact hcrossed.region_of_ne hq

namespace Sound

/-- Only the list of one scheduler changed. -/
theorem armedTimers_eq {l : List (Fin n)} (ha : a.Sound armed)
    (hb : b.Sound (Function.update armed s l)) (hq : q ≠ s) :
    b.armedTimers q = a.armedTimers q := by
  rw [← hb.eq_armedTimers, ← ha.eq_armedTimers, Function.update_of_ne hq]

/-- A command through one scheduler spares the others. -/
theorem spared_command (h : sys.Sound armed) (hq : q ≠ s) (c : Command (Option (Fin n))) :
    Spared q sys (sys.command s c).2 := by
  rcases h.command_update s c with ⟨l, hsound⟩
  refine ⟨h.armedTimers_eq hsound hq, congrFun (dispatching_command sys s c) q, ?_,
    timeout_command_of_ne hq sys c, ?_⟩
  · rcases sys.command_cases s c with ⟨-, heq⟩ | ⟨-, ⟨-, hcrossed⟩ | ⟨cause, -, hnoted⟩⟩
    · rw [heq]
    · exact hcrossed.region_of_ne hq
    · exact hnoted.crossed.region_of_ne hq
  · intro t ht
    exact Timer.body_eq_of_body_eq (body_command_of_owner hq ht c)

/-- A dispatch of one scheduler spares the others. -/
theorem spared_begin (h : sys.Sound armed) (hq : q ≠ s) (now : Timespec) :
    Spared q sys (sys.begin s now).2 := by
  have hregion : (sys.begin s now).2.region q = sys.region q :=
    (crossed_begin sys s now).region_of_ne hq
  cases hs : sys.dispatching s with
  | true => exact .of_alike (alike_begin_of_dispatching hs now) hregion
  | false =>
    rcases h.begin hs now with ⟨-, hbegun⟩
    rcases hbegun.sound with ⟨l, hsound⟩
    refine ⟨h.armedTimers_eq hsound hq, ?_, hregion, congrFun hbegun.timeout q, ?_⟩
    · rw [hbegun.dispatching, Function.update_of_ne hq]
    · intro t ht
      -- what is taken out is armed on `s`, so `q` does not own it
      have hkept : t ∉ (armed s).takeWhile (Threaded.isDue sys.timers now) := by
        intro hmem
        have howner := h.owner_of_mem (List.takeWhile_subset _ hmem)
        rw [ht] at howner
        exact hq (Option.some.inj howner)
      exact Timer.body_eq_of_body_eq (hbegun.body_of_notMem t hkept)

/-- Coming to a timer in a pass of one scheduler spares the others. -/
theorem spared_visit (h : sys.Sound armed) (hq : q ≠ s) (t : Fin n) :
    Spared q sys (sys.visit s t).2 := by
  refine ⟨?_, congrFun (dispatching_visit sys s t) q, (crossed_visit sys s t).region_of_ne hq,
    congrFun (timeout_visit sys s t) q, ?_⟩
  · rw [← h.eq_armedTimers, ← (h.visit s t).eq_armedTimers]
  · intro u _
    rw [timer_visit]
    split
    · next heq =>
      rw [heq]
      rfl
    · rfl

/-- The end of a pass of one scheduler spares the others. -/
theorem spared_finish (h : sys.Sound armed) (hq : q ≠ s) (now : Timespec) :
    Spared q sys (sys.finish s now) := by
  have hsound : (sys.finish s now).Sound armed :=
    h.of_eq (timers_finish sys s now) (lists_finish sys s now)
  refine ⟨?_, ?_, (crossed_finish sys s now).region_of_ne hq, timeout_finish_of_ne sys s now hq, ?_⟩
  · rw [← h.eq_armedTimers, ← hsound.eq_armedTimers]
  · rw [dispatching_finish, Function.update_of_ne hq]
  · intro t _
    have htimer : (sys.finish s now).timer t = sys.timer t :=
      congrArg (Table.get · t) (timers_finish sys s now)
    rw [htimer]
    rfl

end Sound

end System

/-! ## Runs of other schedulers -/

namespace Machine

variable {x : Machine m n} {q s : Fin m} {now : Timespec} {actions : List (Action m n)}

/-- A pass of one scheduler that goes its way spares the others. -/
theorem spared_walk {k : Nat} {next : Option (Fin n)} {armed : Fin m → List (Fin n)}
    (h : x.system.Sound armed) (hq : q ≠ s) :
    System.Spared q x.system (walk s now k next x).2.system := by
  induction k generalizing next x with
  | zero => cases next <;> exact h.spared_finish hq now
  | succ k ih =>
    cases next with
    | none => exact h.spared_finish hq now
    | some t =>
      have hvisit := h.spared_visit hq t
      rw [walk]
      dsimp only
      split
      · exact hvisit.emit _
      · have hsound : ({ x with system := (x.system.visit s t).2 } : Machine m n).system.Sound armed :=
          h.visit s t
        exact hvisit.trans (ih hsound)

/-- The action makes no request of `q`, and lets no pass of `q` go on. -/
def Spares (q : Fin m) (x : Machine m n) : Action m n → Prop
  | .request s _ => q ≠ s
  | .ret => ∀ frame ∈ x.frames.head?, q ≠ frame.scheduler

instance Spares.decidable (q : Fin m) (x : Machine m n) : ∀ a, Decidable (x.Spares q a)
  | .request s _ => inferInstanceAs (Decidable (q ≠ s))
  | .ret => inferInstanceAs (Decidable (∀ frame ∈ x.frames.head?, q ≠ frame.scheduler))

/-- No action of the run makes a request of `q` or lets a pass of `q` go on. -/
def SparesAll (q : Fin m) : Machine m n → List (Action m n) → Prop
  | _, [] => True
  | x, a :: actions => x.Spares q a ∧ SparesAll q (x.step a).2 actions

instance SparesAll.decidable (q : Fin m) :
    ∀ (x : Machine m n) (actions : List (Action m n)), Decidable (SparesAll q x actions)
  | _, [] => isTrue trivial
  | x, a :: actions =>
    have := SparesAll.decidable q (x.step a).2 actions
    inferInstanceAs (Decidable (x.Spares q a ∧ _))

/-- An action that spares a scheduler changes nothing of it. -/
theorem spared_step (hx : x.system.Steady) {a : Action m n} (ha : x.Spares q a) :
    System.Spared q x.system (x.step a).2.system := by
  rcases hx with ⟨armed, hsound, hfollows⟩
  cases a with
  | request s what =>
    cases what with
    | command c => exact (hsound.spared_command ha c).emit _
    | query query => exact (System.spared_query x.system ha query).emit _
    | dispatch now =>
      have hspared := hsound.spared_begin ha now
      rcases System.Steady.begin ⟨armed, hsound, hfollows⟩ s now with ⟨armed', hsound', -⟩
      rcases hbegin : x.system.begin s now with ⟨admission, system⟩
      rw [hbegin] at hspared hsound'
      cases admission with
      | ignored =>
        simp only [step, request, hbegin]
        exact hspared
      | admitted first =>
        have hwalk : ({ x with system } : Machine m n).system.Sound armed' := hsound'
        simp only [step, request, hbegin]
        exact hspared.trans (spared_walk hwalk ha)
  | ret =>
    rcases hframes : x.frames with _ | ⟨frame, frames⟩
    · simp only [step, ret, hframes]
      exact .refl q x.system
    · have hq : q ≠ frame.scheduler := ha frame (by simp [hframes])
      have hwalk : ({ x with frames } : Machine m n).system.Sound armed := hsound
      simp only [step, ret, hframes]
      exact spared_walk hwalk hq

/-- At a reachable machine the system is steady. -/
theorem Reachable.steady (hx : x.Reachable) : x.system.Steady :=
  (Moment.Reachable.ofMachine hx).steady

/-- A run that makes no request of a scheduler and lets no pass of it go on spares it. -/
theorem Reachable.spared_run (hx : x.Reachable) (h : SparesAll q x actions) :
    System.Spared q x.system (x.run actions).system := by
  induction actions generalizing x with
  | nil => exact .refl q x.system
  | cons a actions ih => exact (spared_step hx.steady h.1).trans (ih (hx.step a) h.2)

/-- A scheduler without a pass is spared by every action that makes no request of it. -/
theorem Reachable.spares_of_idle (hx : x.Reachable) (hidle : x.system.dispatching q = false)
    {a : Action m n} (ha : ∀ s what, a = .request s what → q ≠ s) : x.Spares q a := by
  cases a with
  | request s what => exact ha s what rfl
  | ret =>
    intro frame hframe
    have hpass : frame.cursor ∈ (Moment.ofMachine x).passes :=
      List.mem_map_of_mem (List.mem_of_mem_head? hframe)
    exact (Moment.Reachable.ofMachine hx).stacked.ne_of_idle hidle hpass

/-- While no pass of a scheduler is under way, a run without requests of it lets none go on. -/
theorem Reachable.sparesAll_of_idle (hx : x.Reachable) (hidle : x.system.dispatching q = false)
    (h : ∀ s what, .request s what ∈ actions → q ≠ s) : SparesAll q x actions := by
  induction actions generalizing x with
  | nil => trivial
  | cons a actions ih =>
    have ha : x.Spares q a :=
      hx.spares_of_idle hidle fun s what heq => h s what (heq ▸ List.mem_cons_self)
    have hidle' : (x.step a).2.system.dispatching q = false :=
      (spared_step hx.steady ha).dispatching.trans hidle
    exact ⟨ha, ih (hx.step a) hidle' fun s what hmem => h s what (List.mem_cons_of_mem _ hmem)⟩

/-- Whatever is done through other schedulers, in any order and nested in any way, leaves a scheduler
and its timers as they are.  A callback that returns to a pass of the scheduler lets that pass go on,
so this must not happen; if no pass is under way at first, it cannot. -/
theorem Reachable.isolated (hx : x.Reachable) (q : Fin m) (actions : List (Action m n)) :
    (SparesAll q x actions → System.Isolated q x.system (x.run actions).system) ∧
    (x.system.dispatching q = false → (∀ s what, .request s what ∈ actions → q ≠ s) →
      System.Isolated q x.system (x.run actions).system) := by
  have hspared : SparesAll q x actions → System.Isolated q x.system (x.run actions).system :=
    fun h => System.isolated_of_spared (hx.spared_run h) hx.steady (hx.run actions).steady
  exact ⟨hspared, fun hidle h => hspared (hx.sparesAll_of_idle hidle h)⟩

/-- While a pass of scheduler 0 is under way, a callback of a pass of scheduler 1 tries to cancel a
timer of scheduler 0, and returns.  When no pass is under way, scheduler 1 arms a timer, and its pass
calls it. -/
theorem isolated_nested :
    let x : Machine 2 2 := .nested 0 1 0 1
    let y : Machine 2 3 := .twoArmed 0 0 1
    let actions : List (Action 2 2) := [.request 1 (.command (.cancel (some 0))), .ret]
    let more : List (Action 2 3) :=
      [.request 1 (.command (.init (some 2) (some 2) .none)),
        .request 1 (.command (.arm (some 2) .precise (some (.new 1 0)) none)),
        .request 1 (.dispatch (.new 3 0)), .ret]
    x.Reachable ∧ y.Reachable ∧ System.Isolated 0 x.system (x.run actions).system ∧
      System.Isolated 0 y.system (y.run more).system := by
  intro x y actions more
  have hx : (Machine.nested (0 : Fin 2) 1 (0 : Fin 2) 1).Reachable := ⟨_, _, rfl⟩
  have hy : (Machine.twoArmed (0 : Fin 2) (0 : Fin 3) 1).Reachable := ⟨_, _, rfl⟩
  have hspares : SparesAll 0 (Machine.nested (0 : Fin 2) 1 (0 : Fin 2) 1)
      [.request 1 (.command (.cancel (some 0))), .ret] := by decide
  have hidle : (Machine.twoArmed (0 : Fin 2) (0 : Fin 3) 1).system.dispatching 0 = false := by
    decide
  exact ⟨hx, hy, (hx.isolated 0 actions).1 hspares,
    (hy.isolated 0 more).2 hidle (by simp [more])⟩

end Machine
end SoftTimer
