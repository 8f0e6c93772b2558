import SoftTimer.Proofs.Order

/-!
# Arrivals

The list of a scheduler is the stable sort by deadline of the timers armed on it, taken in the order
in which they were last put in.  Only the deadlines and the order among equal ones matter: two runs
that agree on these end with the same list, and timers with different deadlines may be armed in any
order.

Main definitions:

- `System.arrivals`: the timers armed on a scheduler, in the order of their latest insertions.
- `Moment.inserting`: the timers that a step puts into the list of a scheduler.
- `System.SameQueue`: two systems show the same list of a scheduler.

Main results:

- Theorem `System.Ordered.armedTimers_eq_of_arrivals`: the arrivals determine the list.
- Theorem `Moment.exists_armedAll`: what arming timers one after another does.
- Theorem `Moment.Reachable.fires_in_order`: the list is the stable sort of the arrivals, and what
  follows for pairs of runs.
-/

namespace SoftTimer

variable {m n : Nat}

/-! ## Arrivals -/

namespace System

variable {sys a b : System m n} {armed : Fin m → List (Fin n)} {s : Fin m} {t u : Fin n}

/-- The timers armed on a scheduler, in the order of their latest insertions. -/
def arrivals (sys : System m n) (s : Fin m) : List (Fin n) :=
  (sys.insertions s).dedup.filter fun t =>
    (sys.timer t).armed && decide ((sys.timer t).owner = some s)

namespace Ordered

/-- No timer is on a list twice. -/
theorem nodup (h : sys.Ordered) (s : Fin m) : (sys.armedTimers s).Nodup := by
  rcases h with ⟨armed, hsound, -⟩
  rw [← hsound.eq_armedTimers]
  exact (hsound.holds s).nodup

/-- The deadlines of a list do not decrease. -/
theorem ascending (h : sys.Ordered) (s : Fin m) :
    (sys.armedTimers s).Pairwise fun t u => (sys.timer t).deadline ≤ (sys.timer u).deadline := by
  rcases h with ⟨armed, hsound, -⟩
  rw [← hsound.eq_armedTimers]
  exact (hsound.holds s).ascending

/-- Timers with equal deadlines stand in the order of their latest insertions. -/
theorem sequenced (h : sys.Ordered) (s : Fin m) :
    Sequenced (fun t => (sys.timer t).deadline) (sys.insertions s) (sys.armedTimers s) := by
  rcases h with ⟨armed, hsound, horder⟩
  rw [← hsound.eq_armedTimers]
  exact horder s

/-- The timers that are armed and belong to a scheduler are those on its list. -/
theorem mem_filter_iff (h : sys.Ordered) :
    ((sys.timer t).armed && decide ((sys.timer t).owner = some s)) = true ↔
      t ∈ sys.armedTimers s := by
  rcases h with ⟨armed, hsound, -⟩
  rw [hsound.mem_armedTimers, Bool.and_eq_true, decide_eq_true_eq]

/-- The list of a scheduler is the stable sort of the arrivals by deadline. -/
theorem armedTimers_eq (h : sys.Ordered) (s : Fin m) :
    sys.armedTimers s = (sys.arrivals s).mergeSort fun t u =>
      decide ((sys.timer t).deadline ≤ (sys.timer u).deadline) :=
  (h.sequenced s).eq_mergeSort (h.ascending s) (h.nodup s) fun _ => h.mem_filter_iff

end Ordered

/-! ## Runs that end with the same list -/

/-- Two systems show the same list of `s`: the timers on it, their links, what clients hear of it
and, while no pass is under way, what is pending on the hardware. -/
structure SameQueue (s : Fin m) (a b : System m n) : Prop where
  armedTimers : b.armedTimers s = a.armedTimers s
  list : (b.scheduler s).list = (a.scheduler s).list
  links : ∀ t ∈ a.armedTimers s,
    (b.timer t).prev = (a.timer t).prev ∧ (b.timer t).next = (a.timer t).next
  nextDeadline : (b.query s .nextDeadline).1 = (a.query s .nextDeadline).1
  armedCount : (b.query s .armedCount).1 = (a.query s .armedCount).1
  pending : a.dispatching s = false → b.dispatching s = false →
    (b.timeout s).pending = (a.timeout s).pending

/-- Steady systems whose timers on the list of `s` are the same, with the same deadlines, show the
same list. -/
theorem Steady.sameQueue (ha : a.Steady) (hb : b.Steady)
    (hlist : b.armedTimers s = a.armedTimers s)
    (hdeadline : ∀ t ∈ a.armedTimers s, (b.timer t).deadline = (a.timer t).deadline) :
    SameQueue s a b := by
  rcases ha with ⟨armed, ha, hafollows⟩
  rcases hb with ⟨armed', hb, hbfollows⟩
  obtain rfl := ha.eq_armedTimers
  obtain rfl := hb.eq_armedTimers
  have hholds : (b.threaded s).Holds (a.armedTimers s) := hlist ▸ hb.holds s
  have hnext : b.nextDeadline s = a.nextDeadline s :=
    ha.nextDeadline_congr hb (congrArg List.head? hlist) hdeadline
  have hends : (b.scheduler s).list = (a.scheduler s).list := (ha.holds s).list_eq hholds
  refine ⟨hlist, hends, fun t ht => (ha.holds s).links_eq hholds ht, ?_, ?_, fun hida hidb => ?_⟩
  · rw [query_nextDeadline, query_nextDeadline, hnext]
  · rw [query_armedCount, query_armedCount, hends]
  · exact (hbfollows s hidb).trans (hnext.trans (hafollows s hida).symm)

/-- The arrivals and the deadlines determine the list. -/
theorem Ordered.armedTimers_eq_of_arrivals (ha : a.Ordered) (hb : b.Ordered)
    (hmem : ∀ t, t ∈ a.armedTimers s ↔ t ∈ b.armedTimers s)
    (hdeadline : ∀ t ∈ a.armedTimers s, (b.timer t).deadline = (a.timer t).deadline)
    (hties : ∀ t u, (a.timer t).deadline = (a.timer u).deadline →
      [t, u].Sublist (a.arrivals s) → [t, u].Sublist (b.arrivals s)) :
    b.armedTimers s = a.armedTimers s := by
  have hseq := (ha.sequenced s).sublist (List.Sublist.refl _) hdeadline
  have hascending := (ha.ascending s).imp_of_mem
    (S := fun t u => (b.timer t).deadline ≤ (b.timer u).deadline) fun {t u} ht hu hle => by
      rwa [hdeadline t ht, hdeadline u hu]
  refine (hseq.eq_of_perm (hb.sequenced s) hascending (hb.ascending s)
    ((List.perm_ext_iff_of_nodup (ha.nodup s) (hb.nodup s)).2 hmem) ?_).symm
  intro t u ht hu heq htie
  rw [hdeadline t ht, hdeadline u hu] at heq
  have hpair : [t, u].Sublist (a.arrivals s) :=
    pair_sublist_filter htie (ha.mem_filter_iff.2 ht) (ha.mem_filter_iff.2 hu)
  exact (hties t u heq hpair).trans List.filter_sublist

end System

/-! ## What steps put in -/

namespace Moment

variable {x y z : Moment m n} {s : Fin m} {t : Fin n}

/-- The timers that a step puts into the list of `s`, in their order: the timer of a command to arm
it that is carried out, and at the beginning of a pass those that are due and have a next
deadline. -/
def inserting (x : Moment m n) (s : Fin m) (a : Action m n) : List (Fin n) :=
  match x.cursor, a with
  | none, .request r (.command c) =>
    if r = s ∧ (x.system.command r c).1 = .ok () then c.inserts else []
  | none, .request r (.dispatch now) =>
    if r = s ∧ x.system.dispatching r = false then
      (x.system.due r now).filter fun t => (x.system.timer t).renewal?.isSome
    else []
  | _, _ => []

/-- A command puts its timer into the list of its scheduler if it is one to arm it and is carried
out. -/
theorem insertions_step_command (hcursor : x.cursor = none) (s r : Fin m)
    (c : Command (Option (Fin n))) :
    (x.act (.request r (.command c))).system.insertions s =
      x.system.insertions s ++ x.inserting s (.request r (.command c)) := by
  have hemit : (x.act (.request r (.command c))).system.insertions s =
      (x.system.command r c).2.insertions s := System.insertions_emit _ s rfl
  simp only [hemit, inserting, hcursor]
  rcases houtcome : (x.system.command r c).1 with cause | ⟨⟩
  · simpa using System.insertions_command_of_error houtcome s
  · simpa using System.insertions_command_of_ok houtcome s

/-- A dispatch that begins a pass puts those timers back that are due and have a next deadline. -/
theorem insertions_step_dispatch (h : x.system.Steady) (hcursor : x.cursor = none) (s r : Fin m)
    (now : Timespec) :
    (x.act (.request r (.dispatch now))).system.insertions s =
      x.system.insertions s ++ x.inserting s (.request r (.dispatch now)) := by
  simp only [inserting, hcursor]
  cases hr : x.system.dispatching r with
  | true =>
    rw [act_dispatch_of_dispatching hr]
    simpa [hr] using System.insertions_begin_of_dispatching hr now s
  | false =>
    rcases h with ⟨armed, hsound, -⟩
    rw [act_dispatch_of_admitted (hsound.begin hr now).1, hsound.due_eq]
    simpa [hr] using (hsound.serviced_begin hr now).insertions s

/-- What a step puts into a list is told by the request and the state of the timers. -/
theorem insertions_step (h : x.system.Steady) (s : Fin m) (a : Action m n) :
    (x.step a).system.insertions s = x.system.insertions s ++ x.inserting s a := by
  rcases hcursor : x.cursor with _ | c
  · rw [step_of_no_cursor hcursor]
    cases a with
    | request r what =>
      cases what with
      | command c => exact insertions_step_command hcursor s r c
      | query q =>
        simp only [inserting, hcursor, List.append_nil]
        exact (System.insertions_emit _ s rfl).trans (System.insertions_query x.system r s q)
      | dispatch now => exact insertions_step_dispatch h hcursor s r now
    | ret =>
      simp only [inserting, hcursor, List.append_nil, act]
      split <;> rfl
  · simp only [step_of_cursor hcursor, inserting, hcursor, List.append_nil]
    rcases hnext : c.next with _ | t
    · rw [advance_finish hnext]
      exact System.insertions_finish x.system c.scheduler s c.now
    · refine Eq.trans ?_ (System.insertions_visit x.system c.scheduler s t)
      rw [system_advance hnext]
      split
      · exact System.insertions_emit _ s rfl
      · rfl

end Moment

/-! ## Arming in another order -/

/-- Whether a command is admitted does not depend on links. -/
theorem Command.admits_body {c : Command (Option (Fin n))} {s : Fin m} {cell : Timer m n} :
    c.Admits s cell.body ↔ c.Admits s cell := by
  cases c <;> rfl

/-- What a timer is armed with. -/
structure Plan where
  /-- Its class. -/
  priority : PriorityClass
  /-- Its deadline. -/
  deadline : Timespec
  /-- Its period, if it has one. -/
  period : Option Timespec

/-- The command to arm a timer as planned. -/
def Plan.command (plan : Fin n → Plan) (t : Fin n) : Command (Option (Fin n)) :=
  .arm (some t) (plan t).priority (some (plan t).deadline) (plan t).period

/-- Arm timers as planned, one after another. -/
def Plan.actions (plan : Fin n → Plan) (s : Fin m) (ts : List (Fin n)) : List (Action m n) :=
  ts.map fun t => .request s (.command (Plan.command plan t))

namespace Moment

variable {x y z : Moment m n} {s : Fin m} {plan : Fin n → Plan} {ts new : List (Fin n)}
  {t u : Fin n}

/-- From `x` to `y` it was tried to arm the timers `ts` as planned.  Those that admitted it, `new`,
were put into the list of `s`; nothing changed in the others but links. -/
structure ArmedAll (s : Fin m) (plan : Fin n → Plan) (ts new : List (Fin n)) (x y : Moment m n) :
    Prop where
  cursor : y.cursor = none
  sublist : new.Sublist ts
  mem_iff : ∀ t ∈ ts, t ∈ new ↔ (Plan.command plan t).Admits s (x.system.timer t)
  insertions : y.system.insertions s = x.system.insertions s ++ new
  body : ∀ u, (y.system.timer u).body =
    if u ∈ new then (Plan.command plan u).effect s (x.system.timer u).body
    else (x.system.timer u).body

/-- Where no timer is to be armed, none is. -/
theorem armedAll_nil (hcursor : x.cursor = none) : ArmedAll s plan [] [] x x :=
  ⟨hcursor, List.nil_sublist _, by simp, by simp, by simp⟩

/-- A timer whose command is carried out is armed as planned. -/
theorem armedAll_single_of_ok (hcursor : x.cursor = none)
    (h : (x.system.command s (Plan.command plan t)).1 = .ok ()) :
    ArmedAll s plan [t] [t] x (x.act (.request s (.command (Plan.command plan t)))) := by
  rcases System.command_of_ok h with ⟨u, hu, hadmits, -⟩
  obtain rfl : t = u := by simpa [Plan.command, Command.timer] using hu
  refine ⟨hcursor, List.Sublist.refl _, by simpa using hadmits, ?_, fun u => ?_⟩
  · refine (System.insertions_emit _ s rfl).trans ((System.insertions_command_of_ok h s).trans ?_)
    rw [if_pos rfl]
    rfl
  · by_cases hut : u = t
    · subst hut
      rw [if_pos (List.mem_singleton_self u)]
      exact System.body_command_of_ok h rfl
    · have hne : (Plan.command plan t).timer ≠ some u := by
        simpa [Plan.command, Command.timer] using Ne.symm hut
      rw [if_neg (by simpa using hut)]
      exact System.body_command_of_ne hne x.system s

/-- A timer whose command is refused is left as it is, but for links. -/
theorem armedAll_single_of_error {cause : Refusal} (hcursor : x.cursor = none)
    (h : (x.system.command s (Plan.command plan t)).1 = .error cause) :
    ArmedAll s plan [t] [] x (x.act (.request s (.command (Plan.command plan t)))) := by
  refine ⟨hcursor, List.nil_sublist _, fun u hu => ?_, ?_, fun u => ?_⟩
  · obtain rfl := List.mem_singleton.1 hu
    refine iff_of_false List.not_mem_nil fun hadmits => ?_
    have hok : (x.system.command s (Plan.command plan u)).1 = .ok () :=
      System.command_arm_of_admits hadmits
    rw [hok] at h
    cases h
  · rw [List.append_nil]
    exact (System.insertions_emit _ s rfl).trans (System.insertions_command_of_error h s)
  · rw [if_neg List.not_mem_nil]
    exact System.body_command_of_error h u

/-- The command to arm one timer as planned is carried out or refused. -/
theorem exists_armedAll_single (hcursor : x.cursor = none) (s : Fin m) (plan : Fin n → Plan)
    (t : Fin n) :
    ∃ new, ArmedAll s plan [t] new x (x.step (.request s (.command (Plan.command plan t)))) := by
  rw [step_of_no_cursor hcursor]
  rcases h : (x.system.command s (Plan.command plan t)).1 with cause | ⟨⟩
  · exact ⟨_, armedAll_single_of_error hcursor h⟩
  · exact ⟨_, armedAll_single_of_ok hcursor h⟩

/-- Arming one timer and then others, of which it is none, arms them all. -/
theorem ArmedAll.cons {new' : List (Fin n)} (hone : ArmedAll s plan [t] new x y)
    (hrest : ArmedAll s plan ts new' y z) (ht : t ∉ ts) :
    ArmedAll s plan (t :: ts) (new ++ new') x z := by
  have hnew : ∀ u, u ∈ ts → u ∉ new := fun u hu hmem =>
    ht ((List.mem_singleton.1 (hone.sublist.subset hmem)) ▸ hu)
  have hnew' : t ∉ new' := fun hmem => ht (hrest.sublist.subset hmem)
  have hkept : ∀ u ∈ ts, (y.system.timer u).body = (x.system.timer u).body := by
    intro u hu
    rw [hone.body, if_neg (hnew u hu)]
  refine ⟨hrest.cursor, hone.sublist.append hrest.sublist, fun u hu => ?_, ?_, fun u => ?_⟩
  · rcases List.mem_cons.1 hu with rfl | hu
    · rw [← hone.mem_iff u (List.mem_singleton_self u), List.mem_append, or_iff_left hnew']
    · rw [← Command.admits_body, ← hkept u hu, Command.admits_body, ← hrest.mem_iff u hu,
        List.mem_append, or_iff_right (hnew u hu)]
  · rw [hrest.insertions, hone.insertions, List.append_assoc]
  · rw [hrest.body]
    by_cases hu : u ∈ new'
    · rw [if_pos hu, if_pos (List.mem_append_right new hu), hkept u (hrest.sublist.subset hu)]
    · rw [if_neg hu, hone.body]
      simp [hu]

/-- After the commands to arm timers as planned, those that admitted it are armed. -/
theorem exists_armedAll (hcursor : x.cursor = none) (s : Fin m) (plan : Fin n → Plan)
    (hnd : ts.Nodup) : ∃ new, ArmedAll s plan ts new x (x.run (Plan.actions plan s ts)) := by
  induction ts generalizing x with
  | nil => exact ⟨[], armedAll_nil hcursor⟩
  | cons t ts ih =>
    rcases List.nodup_cons.1 hnd with ⟨ht, hrest⟩
    rcases exists_armedAll_single hcursor s plan t with ⟨new, hone⟩
    rcases ih hone.cursor hrest with ⟨new', hall⟩
    exact ⟨new ++ new', hone.cons hall ht⟩

/-- Whether a timer is armed does not depend on when its turn comes. -/
theorem ArmedAll.perm {ts' new' : List (Fin n)} (h : ArmedAll s plan ts new x y)
    (h' : ArmedAll s plan ts' new' x z) (hperm : ts.Perm ts') (hts : ts.Nodup) :
    new.Perm new' := by
  have hnd' := (hperm.nodup_iff.1 hts).sublist h'.sublist
  refine (List.perm_ext_iff_of_nodup (hts.sublist h.sublist) hnd').2 fun t => ?_
  by_cases ht : t ∈ ts
  · rw [h.mem_iff t ht, h'.mem_iff t (hperm.subset ht)]
  · exact iff_of_false (fun hmem => ht (h.sublist.subset hmem))
      fun hmem => ht (hperm.symm.subset (h'.sublist.subset hmem))

/-- Those that were armed have the deadlines that were planned. -/
theorem ArmedAll.deadline (h : ArmedAll s plan ts new x y) (ht : t ∈ new) :
    (y.system.timer t).deadline = (plan t).deadline := by
  have hself := h.body t
  rw [if_pos ht] at hself
  exact (congrArg Timer.deadline hself :)

/-- In whichever order they were armed, the timers end with the same cells, but for links. -/
theorem ArmedAll.body_eq {ts' new' : List (Fin n)} (h : ArmedAll s plan ts new x y)
    (h' : ArmedAll s plan ts' new' x z) (hnew : new.Perm new') (u : Fin n) :
    (z.system.timer u).body = (y.system.timer u).body := by
  rw [h.body, h'.body]
  simp only [hnew.mem_iff]

/-- Of two timers with equal deadlines at most one was armed, and it arrived after the other one in
whichever order they were armed. -/
theorem ArmedAll.pair_sublist_arrivals {ts' new' : List (Fin n)} (h : ArmedAll s plan ts new x y)
    (h' : ArmedAll s plan ts' new' x z) (hnew : new.Perm new')
    (hnd : (ts.map fun t => (plan t).deadline).Nodup)
    (heq : (y.system.timer t).deadline = (y.system.timer u).deadline)
    (htie : [t, u].Sublist (y.system.arrivals s)) : [t, u].Sublist (z.system.arrivals s) := by
  have hdedup : [t, u].Sublist (z.system.insertions s).dedup := by
    rw [h'.insertions]
    refine pair_sublist_dedup_of_perm (fun t => (y.system.timer t).deadline) hnew ?_ heq ?_
    · rw [List.map_congr_left fun t => h.deadline]
      exact hnd.sublist (h.sublist.map _)
    · rw [← h.insertions]
      exact htie.trans List.filter_sublist
  have harmed : ∀ v ∈ [t, u], ((z.system.timer v).armed &&
      decide ((z.system.timer v).owner = some s)) = true := by
    intro v hv
    have hbody := h.body_eq h' hnew v
    rw [Timer.apply_eq_of_body_eq Timer.armed_body hbody,
      Timer.apply_eq_of_body_eq Timer.owner_body hbody]
    exact (List.mem_filter.1 (htie.subset hv)).2
  exact pair_sublist_filter hdedup (harmed t (by simp)) (harmed u (by simp))

/-- Timers with different deadlines may be armed in any order. -/
theorem sameQueue_run_of_perm {ts' : List (Fin n)} (hx : x.Reachable) (hcursor : x.cursor = none)
    (hperm : ts.Perm ts') (hnd : (ts.map fun t => (plan t).deadline).Nodup) :
    System.SameQueue s (x.run (Plan.actions plan s ts)).system
      (x.run (Plan.actions plan s ts')).system := by
  have hts : ts.Nodup := hnd.of_map _
  rcases exists_armedAll hcursor s plan hts with ⟨new, hall⟩
  rcases exists_armedAll hcursor s plan (hperm.nodup_iff.1 hts) with ⟨new', hall'⟩
  have hy := hx.run (Plan.actions plan s ts)
  have hz := hx.run (Plan.actions plan s ts')
  have hnew := hall.perm hall' hperm hts
  have hbody := hall.body_eq hall' hnew
  have hdeadline := fun u => Timer.apply_eq_of_body_eq Timer.deadline_body (hbody u)
  refine hy.steady.sameQueue hz.steady (hy.ordered.armedTimers_eq_of_arrivals hz.ordered ?_
    (fun u _ => hdeadline u) fun t u => hall.pair_sublist_arrivals hall' hnew hnd)
    fun u _ => hdeadline u
  intro u
  rw [← hy.ordered.mem_filter_iff, ← hz.ordered.mem_filter_iff,
    Timer.apply_eq_of_body_eq Timer.armed_body (hbody u),
    Timer.apply_eq_of_body_eq Timer.owner_body (hbody u)]

/-- At every reachable moment the list of a scheduler is the stable sort by deadline of the timers
armed on it, in the order of their latest insertions.  Insertions are the arms that are carried out
and the rearms of a pass, which come in the order of the list.  So two runs that end with the same
armed timers, the same deadlines and the same order of insertions among equal deadlines show the
same list at the end; and timers with different deadlines may be armed in any order. -/
theorem Reachable.fires_in_order (hx : x.Reachable) (s : Fin m) :
    x.system.armedTimers s = (x.system.arrivals s).mergeSort (fun t u =>
        decide ((x.system.timer t).deadline ≤ (x.system.timer u).deadline)) ∧
      (∀ a, (x.step a).system.insertions s = x.system.insertions s ++ x.inserting s a) ∧
      (∀ y : Moment m n, y.Reachable →
        (∀ t, t ∈ x.system.armedTimers s ↔ t ∈ y.system.armedTimers s) →
        (∀ t ∈ x.system.armedTimers s,
          (y.system.timer t).deadline = (x.system.timer t).deadline) →
        (∀ t u, (x.system.timer t).deadline = (x.system.timer u).deadline →
          ([t, u].Sublist (x.system.arrivals s) ↔ [t, u].Sublist (y.system.arrivals s))) →
        System.SameQueue s x.system y.system) ∧
      ∀ (plan : Fin n → Plan) (ts ts' : List (Fin n)), x.cursor = none → ts.Perm ts' →
        (ts.map fun t => (plan t).deadline).Nodup →
        System.SameQueue s (x.run (Plan.actions plan s ts)).system
          (x.run (Plan.actions plan s ts')).system := by
  refine ⟨hx.ordered.armedTimers_eq s, insertions_step hx.steady s, ?_, ?_⟩
  · intro y hy hmem hdeadline hties
    exact hx.steady.sameQueue hy.steady (hx.ordered.armedTimers_eq_of_arrivals hy.ordered hmem
      hdeadline fun t u heq => (hties t u heq).1) hdeadline
  · intro plan ts ts' hcursor hperm hnd
    exact sameQueue_run_of_perm hx hcursor hperm hnd

/-- Three timers that are bound. -/
def threeBound (s : Fin m) (t u v : Fin n) : Moment m n :=
  (ofMachine (.initial fun _ => .counting)).run
    [.request s (.command (.init (some t) (some 0) .none)),
      .request s (.command (.init (some u) (some 1) .none)),
      .request s (.command (.init (some v) (some 2) .none))]

/-- A plan for some timers, given their deadlines in seconds. -/
def planned (secs : List UInt32) (t : Fin n) : Plan :=
  ⟨.precise, .new (secs.getD t 0) 0, none⟩

/-- Three timers are armed in two different orders, and fire in one. -/
theorem order_threeBound :
    let bound : Moment 1 3 := threeBound 0 0 1 2
    let plan := planned [5, 3, 5]
    let x := bound.run (Plan.actions plan 0 [0, 1, 2])
    let y := bound.run (Plan.actions plan 0 [2, 0] ++
      .request 0 (.command (.cancel (some 2))) :: Plan.actions plan 0 [2, 1])
    let distinct := planned [5, 3, 4]
    x.Reachable ∧ y.Reachable ∧ x.system.armedTimers 0 = [1, 0, 2] ∧
      x.system.arrivals 0 = [0, 1, 2] ∧ y.system.arrivals 0 = [0, 2, 1] ∧
      System.SameQueue 0 x.system y.system ∧
      System.SameQueue 0 (bound.run (Plan.actions distinct 0 [0, 1, 2])).system
        (bound.run (Plan.actions distinct 0 [2, 0, 1])).system := by
  intro bound plan x y distinct
  have hbound : bound.Reachable := ⟨_, _, rfl⟩
  have hx : x.Reachable := hbound.run _
  have hy : y.Reachable := hbound.run _
  have harmed : x.system.armedTimers 0 = [1, 0, 2] := by decide
  have hfirst : x.system.arrivals 0 = [0, 1, 2] := by decide
  have hsecond : y.system.arrivals 0 = [0, 2, 1] := by decide
  refine ⟨hx, hy, harmed, hfirst, hsecond, (hx.fires_in_order 0).2.2.1 y hy ?_ ?_ ?_,
    (hbound.fires_in_order 0).2.2.2 distinct _ _ (by decide) (by decide) (by decide)⟩
  · decide
  · decide
  · rw [hfirst, hsecond]
    decide

end Moment
end SoftTimer
