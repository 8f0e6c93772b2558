import SoftTimer.Proofs.Pass

/-!
# Insertions

A timer is put into the list of a scheduler when it is armed, and again whenever a pass rearms it.
This file reads from the record which timers were put in, and says which ones a command and the
beginning of a pass put in, in which order, and what a pass makes of the timers that it rearms.

Main definitions:

- `System.insertions`: the timers that were put into the list of a scheduler, in the order of time.
- `Timer.renewal?`, `Timer.renewed`: the next deadline of a timer, and the timer rearmed for it.

Main results:

- Theorem `System.insertions_command_of_ok`: a command that arms a timer puts it in; others put none
  in.
- Theorem `System.renewed_rearm_all`: what rearming timers one after another makes of them.
- Theorem `System.Sound.serviced_begin`: a pass rearms each timer that it takes out, if it has a next
  deadline, in the order in which it took them out.
-/

namespace SoftTimer

variable {m n : Nat}

/-! ## Timers that are rearmed -/

namespace Timer

/-- The next deadline of a periodic timer, if it can be represented. -/
def renewal? (t : Timer m n) : Option Timespec :=
  if t.isPeriodic then t.deadline.checkedAdd t.period else none

/-- A timer after it was rearmed for its next deadline.  Without one it stays as it is. -/
def renewed (t : Timer m n) : Timer m n :=
  match t.renewal? with
  | some deadline => { t with deadline, armed := true }
  | none => t

/-- A timer that is rearmed is armed for its next deadline, if it has one. -/
theorem renewed_of_some {t : Timer m n} {deadline : Timespec} (h : t.renewal? = some deadline) :
    t.renewed = { t with deadline, armed := true } := by
  rw [renewed, h]

/-- A timer without a next deadline is not rearmed. -/
theorem renewed_of_none {t : Timer m n} (h : t.renewal? = none) : t.renewed = t := by
  rw [renewed, h]

/-- A timer has a next deadline exactly when it is periodic and its deadline and period have a
sum. -/
theorem renewal?_eq_some_iff {t : Timer m n} {deadline : Timespec} :
    t.renewal? = some deadline ↔
      0 < t.period.nanos ∧ deadline.nanos = t.deadline.nanos + t.period.nanos := by
  have hzero : t.period.isZero = true ↔ t.period.nanos = 0 := by
    rw [Timespec.isZero_iff, ← Timespec.nanos_inj, Timespec.nanos_zero]
  rw [renewal?, isPeriodic, ← Timespec.checkedAdd_eq_some_iff, Nat.pos_iff_ne_zero, ne_eq, ← hzero]
  cases t.period.isZero <;> simp

/-- Rearming does not look at the link of passes. -/
theorem renewed_relinked (t : Timer m n) (next : Option (Fin n)) :
    { t with firedNext := next }.renewed = { t.renewed with firedNext := next } := by
  have hrenewal : { t with firedNext := next }.renewal? = t.renewal? := rfl
  cases h : t.renewal? with
  | some deadline => rw [renewed_of_some h, renewed_of_some (hrenewal.trans h)]
  | none => rw [renewed_of_none h, renewed_of_none (hrenewal.trans h)]

/-- A timer after a pass took it out and rearmed it, if it has a next deadline. -/
def expired (t : Timer m n) : Timer m n :=
  { t with armed := false }.renewed

/-- A timer that expires is armed for its next deadline, if it has one. -/
theorem expired_of_some {t : Timer m n} {deadline : Timespec} (h : t.renewal? = some deadline) :
    t.expired = { t with deadline, armed := true } :=
  renewed_of_some (t := { t with armed := false }) h

/-- A timer that expires and has no next deadline is disarmed. -/
theorem expired_of_none {t : Timer m n} (h : t.renewal? = none) :
    t.expired = { t with armed := false } :=
  renewed_of_none (t := { t with armed := false }) h

end Timer

/-! ## Insertions in the record -/

/-- The timer that a command puts into a list when it is carried out. -/
def Command.inserts : Command (Option (Fin n)) → List (Fin n)
  | .arm timer _ _ _ => timer.toList
  | _ => []

/-- The timer that was put into the list of `s`. -/
def Event.insertedInto (s : Fin m) : Event m n → Option (Fin n)
  | .inserted r t _ => if r = s then some t else none
  | _ => none

namespace System

variable {sys sys' : System m n} {armed : Fin m → List (Fin n)} {s r : Fin m} {t u : Fin n}
  {now : Timespec}

/-- The timers that were put into the list of `s`, in the order of time. -/
def insertions (sys : System m n) (s : Fin m) : List (Fin n) :=
  (sys.trace.filterMap (Event.insertedInto s)).reverse

/-- An event that tells of no insertion into the list adds none. -/
theorem insertions_of_none {e : Event m n} (h : sys'.trace = e :: sys.trace)
    (he : e.insertedInto s = none) : sys'.insertions s = sys.insertions s := by
  rw [insertions, h, List.filterMap_cons_none he, insertions]

section Steps

variable (sys : System m n) (s r : Fin m) (t : Fin n)

/-- Emitting an event that tells of no insertion into the list adds none. -/
theorem insertions_emit {e : Event m n} (he : e.insertedInto r = none) :
    (sys.emit e).insertions r = sys.insertions r :=
  insertions_of_none rfl he

@[simp]
theorem insertions_modifyTimer (f : Timer m n → Timer m n) :
    (sys.modifyTimer t f).insertions r = sys.insertions r :=
  rfl

@[simp]
theorem insertions_log (line : LogLine) : (sys.log s line).insertions r = sys.insertions r :=
  insertions_emit sys r rfl

@[simp]
theorem insertions_enter : (sys.enter s).2.insertions r = sys.insertions r :=
  insertions_of_none (trace_enter sys s) rfl

@[simp]
theorem insertions_leave (restore : Nat) :
    (sys.leave s restore).insertions r = sys.insertions r := by
  unfold leave
  split
  · exact insertions_emit _ r rfl
  · exact insertions_emit _ r rfl

@[simp]
theorem insertions_callTimeout (call : TimeoutEvent) :
    (sys.callTimeout s call).insertions r = sys.insertions r :=
  insertions_emit _ r rfl

@[simp]
theorem insertions_program : (sys.program s).insertions r = sys.insertions r := by
  rw [program_eq]
  split <;> simp

/-- Linking a timer is an insertion into the list of its scheduler, and into no other. -/
theorem insertions_link :
    (sys.link s t).2.insertions r = sys.insertions r ++ if s = r then [t] else [] := by
  rw [insertions, trace_link]
  by_cases hr : s = r
  · simp [insertions, Event.insertedInto, hr]
  · simp [insertions, Event.insertedInto, hr]

@[simp]
theorem insertions_expectLinked :
    (sys.expectLinked s t).insertions r = sys.insertions r := by
  unfold expectLinked
  dsimp only
  split <;> split
  · exact insertions_emit _ r rfl
  · rfl
  · exact (insertions_emit _ r rfl).trans (insertions_emit _ r rfl)
  · exact insertions_emit _ r rfl

@[simp]
theorem insertions_unlink : (sys.unlink s t).2.insertions r = sys.insertions r :=
  insertions_expectLinked sys s r t

@[simp]
theorem insertions_disarm : (sys.disarm s t).insertions r = sys.insertions r := by
  unfold disarm
  dsimp only
  split
  · split <;> simp
  · rfl

/-- Scheduling a timer is one insertion into the list of its scheduler. -/
theorem insertions_schedule (priority : PriorityClass) (deadline period : Timespec) :
    (sys.schedule s t priority deadline period).insertions r =
      sys.insertions r ++ if s = r then [t] else [] := by
  rw [schedule_eq]
  dsimp only
  split
  · rw [insertions_program, insertions_link, insertions_modifyTimer]
  · rw [insertions_link, insertions_modifyTimer]

end Steps

/-! ## Commands and queries -/

/-- A command that is carried out puts in the timer that it arms, and no other one. -/
theorem insertions_command_of_ok {c : Command (Option (Fin n))} (h : (sys.command s c).1 = .ok ())
    (r : Fin m) :
    (sys.command s c).2.insertions r = sys.insertions r ++ if s = r then c.inserts else [] := by
  rcases command_of_ok h with ⟨t, ht, -, heq⟩
  rw [heq, insertions_leave]
  cases c with
  | init timer callback arg => simp [carryOut, Command.inserts]
  | deinit timer => simp [carryOut, Command.inserts]
  | arm timer priority deadline period =>
    obtain rfl : timer = some t := ht
    rw [carryOut, insertions_schedule, insertions_enter]
    rfl
  | cancel timer => simp [carryOut, Command.inserts]

/-- Work that fails inserts nothing. -/
theorem insertions_perform_of_error {work : System m n → Except Conflict (System m n)}
    {cause : Refusal} (h : (sys.perform s work).1 = .error cause) (r : Fin m) :
    (sys.perform s work).2.insertions r = sys.insertions r := by
  cases hresult : work (sys.enter s).2 with
  | ok b => simp [perform_of_ok hresult] at h
  | error cause => simp [perform_of_error hresult]

/-- A command that is refused puts no timer in. -/
theorem insertions_command_of_error {c : Command (Option (Fin n))} {cause : Refusal}
    (h : (sys.command s c).1 = .error cause) (r : Fin m) :
    (sys.command s c).2.insertions r = sys.insertions r := by
  cases c with
  | init timer callback arg =>
    cases timer <;> cases callback <;> first | rfl | exact insertions_perform_of_error h r
  | deinit timer => cases timer <;> first | rfl | exact insertions_perform_of_error h r
  | arm timer priority deadline period =>
    cases timer <;> cases deadline <;> first | rfl | exact insertions_perform_of_error h r
  | cancel timer => cases timer <;> first | rfl | exact insertions_perform_of_error h r

section Queries

variable (sys : System m n) (s r : Fin m)

/-- Looking at a system inserts nothing. -/
theorem insertions_inspect {α : Type} (view : System m n → α) :
    (sys.inspect s view).2.insertions r = sys.insertions r :=
  (insertions_leave _ s r _).trans (insertions_enter sys s r)

/-- Looking at a timer inserts nothing. -/
theorem insertions_look {α : Type} (timer : Option (Fin n)) (absent : α) (view : Timer m n → α) :
    (sys.look s timer absent view).2.insertions r = sys.insertions r := by
  cases timer with
  | none => rfl
  | some t => exact insertions_inspect sys s r _

/-- Queries insert nothing. -/
theorem insertions_query (q : Query (Option (Fin n))) :
    (sys.query s q).2.insertions r = sys.insertions r := by
  cases q <;> first | exact insertions_look sys s r _ _ _ | exact insertions_inspect sys s r _

end Queries

/-! ## Rearming -/

/-- A timer that has a next deadline is linked again by that deadline. -/
theorem rearm_of_some {deadline : Timespec} (h : (sys.timer t).renewal? = some deadline) :
    sys.rearm s t =
      ((sys.modifyTimer t fun c => { c with deadline, armed := true }).link s t).2 := by
  by_cases hperiodic : (sys.timer t).isPeriodic
  · rw [Timer.renewal?, if_pos hperiodic] at h
    simp only [rearm, if_pos hperiodic, h]
  · rw [Timer.renewal?, if_neg hperiodic] at h
    cases h

/-- A timer without a next deadline is not put in; if it is periodic, this is logged. -/
theorem rearm_of_none (h : (sys.timer t).renewal? = none) :
    sys.rearm s t =
      if (sys.timer t).isPeriodic then sys.log s (.overflow (sys.timer t).deadline) else sys := by
  by_cases hperiodic : (sys.timer t).isPeriodic
  · rw [Timer.renewal?, if_pos hperiodic] at h
    simp only [rearm, if_pos hperiodic, h]
  · simp only [rearm, if_neg hperiodic]

/-- From `a` to `b` the timers given were rearmed, one after another.  Links apart, nothing else
changed in the timers. -/
structure Renewed (s : Fin m) (timers : List (Fin n)) (a b : System m n) : Prop where
  body : ∀ u, (b.timer u).body =
    if u ∈ timers then (a.timer u).body.renewed else (a.timer u).body
  insertions : ∀ r, b.insertions r = a.insertions r ++
    if s = r then timers.filter fun t => (a.timer t).renewal?.isSome else []

/-- What rearming a timer makes of it. -/
theorem renewed_rearm (sys : System m n) (s : Fin m) (t : Fin n) :
    Renewed s [t] sys (sys.rearm s t) := by
  have hcell : (sys.timer t).body.renewal? = (sys.timer t).renewal? := rfl
  cases h : (sys.timer t).renewal? with
  | some deadline =>
    rw [rearm_of_some h]
    refine ⟨fun u => ?_, fun r => ?_⟩
    · rw [body_link, timer_modifyTimer]
      by_cases hut : u = t
      · rw [if_pos hut, if_pos (by simpa using hut), hut, Timer.renewed_of_some (hcell.trans h)]
        rfl
      · rw [if_neg hut, if_neg (by simpa using hut)]
    · rw [insertions_link, insertions_modifyTimer]
      simp [h]
  | none =>
    rw [rearm_of_none h]
    refine ⟨fun u => ?_, fun r => ?_⟩
    · have htimer : ((if (sys.timer t).isPeriodic then sys.log s (.overflow (sys.timer t).deadline)
          else sys).timer u) = sys.timer u := by
        split <;> rfl
      rw [htimer]
      by_cases hut : u = t
      · rw [if_pos (by simpa using hut), hut, Timer.renewed_of_none (hcell.trans h)]
      · rw [if_neg (by simpa using hut)]
    · have hsame : (if (sys.timer t).isPeriodic then sys.log s (.overflow (sys.timer t).deadline)
          else sys).insertions r = sys.insertions r := by
        split
        · exact insertions_log sys s r _
        · rfl
      rw [hsame]
      simp [h]

/-- Rearming timers one after another gives each of them its next deadline, if it has one, and puts
it in. -/
theorem renewed_rearm_all {timers : List (Fin n)} (hnd : timers.Nodup) (sys : System m n)
    (s : Fin m) : Renewed s timers sys (timers.foldl (System.rearm s) sys) := by
  induction timers generalizing sys with
  | nil => exact ⟨by simp, by simp⟩
  | cons t timers ih =>
    rcases List.nodup_cons.1 hnd with ⟨ht, hrest⟩
    have hone := renewed_rearm sys s t
    have hall := ih hrest (sys.rearm s t)
    -- the others are as they were when the turn comes to them
    have hkept : ∀ u ∈ timers, ((sys.rearm s t).timer u).body = (sys.timer u).body := by
      intro u hu
      rw [hone.body, if_neg (by simpa using fun heq : u = t => ht (heq ▸ hu))]
    rw [List.foldl_cons]
    refine ⟨fun u => ?_, fun r => ?_⟩
    · rw [hall.body]
      by_cases hu : u ∈ timers
      · rw [if_pos hu, if_pos (List.mem_cons_of_mem t hu), hkept u hu]
      · rw [if_neg hu, hone.body]
        simp [hu]
    · have hsame : timers.filter (fun u => ((sys.rearm s t).timer u).renewal?.isSome) =
          timers.filter fun u => (sys.timer u).renewal?.isSome := by
        refine List.filter_congr fun u hu => ?_
        have hrenewal := congrArg Timer.renewal? (hkept u hu)
        exact congrArg Option.isSome hrenewal
      rw [hall.insertions, hone.insertions, hsame]
      by_cases hs : s = r
      · rw [if_pos hs, if_pos hs, if_pos hs, List.append_assoc, ← List.filter_append]
        rfl
      · rw [if_neg hs, if_neg hs, if_neg hs, List.append_nil, List.append_nil]

/-! ## The beginning of a pass -/

section Detached

variable (sys : System m n) (s r : Fin m)

/-- Taking an expired timer out inserts nothing. -/
theorem insertions_unlinkExpired (h : sys.unlinkExpired s now = some (t, sys')) :
    sys'.insertions r = sys.insertions r := by
  rcases Option.map_eq_some_iff.1 h with ⟨⟨u, x⟩, -, heq⟩
  rcases Prod.mk.inj heq with ⟨-, rfl⟩
  exact insertions_expectLinked sys s r u

/-- The loop that takes out expired timers inserts nothing. -/
theorem insertions_detachExpired (limit : Nat) :
    (sys.detachExpired s now limit).2.insertions r = sys.insertions r := by
  induction limit generalizing sys with
  | zero => rfl
  | succ limit ih =>
    rw [detachExpired]
    split
    · rfl
    · next t sys' hexpired =>
      dsimp only
      rw [ih, insertions_emit _ r rfl, insertions_modifyTimer]
      exact insertions_unlinkExpired sys s r hexpired

/-- Chaining timers up inserts nothing. -/
theorem insertions_chain (timers : List (Fin n)) :
    (sys.chain timers).insertions r = sys.insertions r := by
  rcases exists_chain_eq timers sys with ⟨cells, h⟩
  rw [h]
  rfl

end Detached

/-- What a pass of `s` made of the timers `due` when it began: each was taken out and, if it has a
next deadline, rearmed.  Links apart, nothing else changed in the timers. -/
structure Serviced (s : Fin m) (due : List (Fin n)) (a b : System m n) : Prop where
  body : ∀ u, (b.timer u).body =
    if u ∈ due then { (a.timer u).body.expired with firedNext := (b.timer u).firedNext }
    else (a.timer u).body
  insertions : ∀ r, b.insertions r = a.insertions r ++
    if s = r then due.filter fun t => (a.timer t).renewal?.isSome else []

/-- The timers that were taken out, when the turn comes to rearm them. -/
theorem TakenOut.body_chain {due : List (Fin n)} (h : TakenOut s due sys sys') (u : Fin n) :
    ((sys'.chain due).timer u).body =
      if u ∈ due then
        { (sys.timer u).body with
          armed := false, firedNext := ((sys'.chain due).timer u).firedNext }
      else (sys.timer u).body := by
  have hself := h.body u
  by_cases hu : u ∈ due
  · rw [if_pos hu] at hself
    have hchain : ((sys'.chain due).timer u).body =
        { (sys'.timer u).body with firedNext := ((sys'.chain due).timer u).firedNext } :=
      congrArg Timer.body (timer_chain due sys' u)
    rw [if_pos hu, hchain, hself]
  · rw [if_neg hu] at hself
    rw [if_neg hu, timer_chain, firedNext_chain_of_notMem sys' hu, ← hself]

/-- Timers that were taken out and chained are rearmed. -/
theorem TakenOut.serviced {due : List (Fin n)} (h : TakenOut s due sys sys') (hnd : due.Nodup)
    (hinsertions : ∀ r, sys'.insertions r = sys.insertions r) :
    Serviced s due sys (due.foldl (rearm s) (sys'.chain due)) := by
  have hrenewed := renewed_rearm_all hnd (sys'.chain due) s
  refine ⟨fun u => ?_, fun r => ?_⟩
  · have hself := hrenewed.body u
    by_cases hu : u ∈ due
    · rw [if_pos hu, h.body_chain, if_pos hu,
        Timer.renewed_relinked { (sys.timer u).body with armed := false }] at hself
      have hlink : ((due.foldl (rearm s) (sys'.chain due)).timer u).firedNext =
          ((sys'.chain due).timer u).firedNext := (congrArg Timer.firedNext hself :)
      rw [if_pos hu, hlink]
      exact hself
    · rw [if_neg hu, hself, if_neg hu, h.body_chain, if_neg hu]
  · have hsame : due.filter (fun t => ((sys'.chain due).timer t).renewal?.isSome) =
        due.filter fun t => (sys.timer t).renewal?.isSome := by
      refine List.filter_congr fun u hu => ?_
      have hcell := (h.body_chain u).trans (if_pos hu)
      exact (congrArg (fun c : Timer m n => c.renewal?.isSome) hcell :)
    rw [hrenewed.insertions, insertions_chain, hinsertions, hsame]

/-- What is due is taken out and then rearmed, in the order of the list. -/
theorem Sound.serviced_collect (h : sys.Sound armed) (s : Fin m) (now : Timespec) :
    Serviced s ((armed s).takeWhile (Threaded.isDue sys.timers now)) sys
      (sys.collect s now).2 := by
  have hinit := List.takeWhile_prefix (Threaded.isDue sys.timers now) (l := armed s)
  have hnd := (h.holds s).nodup.sublist hinit.sublist
  rcases h.detachExpired (hinit.length_le.trans (h.holds s).length_le) with ⟨hfst, -, htaken⟩
  simp only [System.collect, hfst]
  exact htaken.serviced hnd fun r => insertions_detachExpired sys s r n

/-- The same for the beginning of a pass. -/
theorem Sound.serviced_begin (h : sys.Sound armed) (hidle : sys.dispatching s = false)
    (now : Timespec) :
    Serviced s ((armed s).takeWhile (Threaded.isDue sys.timers now)) sys (sys.begin s now).2 := by
  have hcollecting : (sys.collecting s now).Sound armed :=
    h.of_eq rfl ((lists_modifyScheduler _ s (by intro _; rfl)).trans (lists_enter sys s))
  have hcollected := hcollecting.serviced_collect s now
  rw [begin_of_not_dispatching hidle]
  have htimer : ∀ u, ((((sys.collecting s now).collect s now).2.leave s (sys.enter s).1).timer u) =
      ((sys.collecting s now).collect s now).2.timer u :=
    fun u => congrArg (Table.get · u) (timers_leave _ _ _)
  refine ⟨fun u => ?_, fun r => ?_⟩
  · rw [htimer]
    exact hcollected.body u
  · rw [insertions_leave, hcollected.insertions]
    refine congrArg (· ++ _) ?_
    exact (insertions_of_none rfl rfl).trans (insertions_enter sys s r)

/-- A dispatch that is ignored inserts nothing. -/
theorem insertions_begin_of_dispatching (h : sys.dispatching s = true) (now : Timespec)
    (r : Fin m) : (sys.begin s now).2.insertions r = sys.insertions r := by
  rw [begin_of_dispatching h, insertions_leave, insertions_log, insertions_enter]

/-! ## The other steps of a pass -/

/-- Coming to a timer inserts nothing. -/
theorem insertions_visit (sys : System m n) (s r : Fin m) (t : Fin n) :
    (sys.visit s t).2.insertions r = sys.insertions r := by
  rw [visit_snd, insertions_leave, insertions_emit _ r rfl, insertions_modifyTimer,
    insertions_enter]

/-- The end of a pass inserts nothing. -/
theorem insertions_finish (sys : System m n) (s r : Fin m) (now : Timespec) :
    (sys.finish s now).insertions r = sys.insertions r := by
  rw [finish_eq, insertions_leave, insertions_emit _ r rfl, insertions_log, programmed,
    insertions_program]
  exact insertions_enter sys s r

end System
end SoftTimer
