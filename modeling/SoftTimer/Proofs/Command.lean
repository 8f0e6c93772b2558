import SoftTimer.Proofs.Sound

/-!
# What commands do

A command enters the region, is refused or does its work there, and leaves.  This file says what
work inside the region changes, and derives what every command keeps: soundness, the hardware
following the head of the list, passes and their chains, and all timers but the one it names.

Main results:

- Theorem `System.command_induction`: what the pieces of work keep, commands keep.
- Theorem `System.body_command_of_ne`: commands change nothing but links in timers they do not name.
- Theorems `System.body_command_of_ok` and `System.body_command_of_error`: what a command makes of
  the timer it names, and that a refused one makes nothing of it.
- Theorems `System.dispatching_command` and `System.firedNext_command`: commands leave passes alone.
- Theorem `System.Sound.command`: commands keep systems sound, and the hardware following the list.
-/

namespace SoftTimer

/-- The timer that a command names. -/
def Command.timer {ρ : Type} : Command ρ → ρ
  | .init timer _ _ => timer
  | .deinit timer => timer
  | .arm timer _ _ _ => timer
  | .cancel timer => timer

/-- What a command through `s` makes of the timer it names when it is carried out, links apart. -/
def Command.effect {ρ : Type} {m n : Nat} (s : Fin m) : Command ρ → Timer m n → Timer m n
  | .init _ callback arg, t => t.reset callback arg
  | .deinit _, t => t.reset none .none
  | .arm _ priority deadline period, t =>
    { t with
      deadline := deadline.getD .zero, period := period.getD .zero, priority, armed := true
      owner := some s }
  | .cancel _, t => { t with armed := false }

/-- What the work of a command through `s` asks of the timer it names. -/
def Command.Admits {ρ : Type} {m n : Nat} (s : Fin m) : Command ρ → Timer m n → Prop
  | .init _ _ _, t => t.heldByOther s = false ∧ t.armed = false
  | .deinit _, t => t.heldByOther s = false
  | .arm _ _ _ _, t =>
    t.heldByOther s = false ∧ t.armed = false ∧ ∃ callback, t.callback = some callback
  | .cancel _, t => t.heldByOther s = false

namespace System

variable {m n : Nat} {sys sys' : System m n} {armed : Fin m → List (Fin n)} {s r : Fin m}
  {t u : Fin n}

/-! ## Work inside the region -/

section Perform

variable {work : System m n → Except Conflict (System m n)}

/-- Work that succeeds is carried out inside the region. -/
theorem perform_of_ok (h : work (sys.enter s).2 = .ok sys') :
    sys.perform s work = (.ok (), sys'.leave s (sys.enter s).1) := by
  simp [perform, locked, h]

/-- Work that is ruled out is reported and logged inside the region, and nothing is carried out. -/
theorem perform_of_error {cause : Conflict} (h : work (sys.enter s).2 = .error cause) :
    sys.perform s work = (.error (.conflict cause),
      ((sys.enter s).2.log s (.rejected cause)).leave s (sys.enter s).1) := by
  simp [perform, locked, h]

/-- Two systems differ at most in their regions and in what was recorded. -/
structure Alike (a b : System m n) : Prop where
  timers : b.timers = a.timers
  lists : b.lists = a.lists
  dispatching : b.dispatching = a.dispatching
  timeout : b.timeout = a.timeout

/-- A system is like itself. -/
theorem Alike.refl (a : System m n) : Alike a a :=
  ⟨rfl, rfl, rfl, rfl⟩

/-- What is like a system that is like another one is like that one. -/
theorem Alike.trans {a b c : System m n} (hab : Alike a b) (hbc : Alike b c) : Alike a c :=
  ⟨hbc.timers.trans hab.timers, hbc.lists.trans hab.lists,
    hbc.dispatching.trans hab.dispatching, hbc.timeout.trans hab.timeout⟩

/-- Entering a region changes that region and what was recorded. -/
theorem alike_enter (sys : System m n) (s : Fin m) : sys.Alike (sys.enter s).2 :=
  ⟨rfl, lists_enter sys s, dispatching_enter sys s, timeout_enter sys s⟩

/-- Leaving a region changes that region and what was recorded. -/
theorem alike_leave (sys : System m n) (s : Fin m) (restore : Nat) :
    sys.Alike (sys.leave s restore) :=
  ⟨timers_leave sys s restore, lists_leave sys s restore, dispatching_leave sys s restore,
    timeout_leave sys s restore⟩

/-- Recording an event changes what was recorded. -/
theorem alike_emit (sys : System m n) (e : Event m n) : sys.Alike (sys.emit e) :=
  ⟨rfl, rfl, rfl, rfl⟩

/-- A property that regions and records do not influence survives a piece of work, if it survives
the work where that is not refused. -/
theorem perform_induction {φ : System m n → Prop} (halike : ∀ a b, Alike a b → φ a → φ b)
    (hwork : ∀ b, φ (sys.enter s).2 → work (sys.enter s).2 = .ok b → φ b) (h : φ sys) :
    φ (sys.perform s work).2 := by
  have henter := halike _ _ (alike_enter sys s) h
  cases hresult : work (sys.enter s).2 with
  | ok b =>
    rw [perform_of_ok hresult]
    exact halike _ _ (alike_leave _ _ _) (hwork b henter hresult)
  | error cause =>
    rw [perform_of_error hresult]
    exact halike _ _ (alike_leave _ _ _) (halike _ _ (alike_emit _ _) henter)

end Perform

section Try

variable {callback : CallbackId} {arg : CallbackArg} {priority : PriorityClass}
  {deadline period : Timespec}

/-- A timer is bound exactly if no other scheduler holds it and it is not armed. -/
theorem tryInit_eq_ok_iff :
    sys.tryInit s t callback arg = .ok sys' ↔
      (sys.timer t).heldByOther s = false ∧ (sys.timer t).armed = false ∧
        sys' = sys.modifyTimer t fun c => c.reset (some callback) arg := by
  cases hheld : (sys.timer t).heldByOther s <;> cases harmed : (sys.timer t).armed <;>
    simp [tryInit, hheld, harmed, eq_comm (a := sys')]

/-- A timer is released exactly if no other scheduler holds it; it is disarmed and blanked. -/
theorem tryDeinit_eq_ok_iff :
    sys.tryDeinit s t = .ok sys' ↔
      (sys.timer t).heldByOther s = false ∧
        sys' = (sys.disarm s t).modifyTimer t fun c => c.reset none .none := by
  cases hheld : (sys.timer t).heldByOther s <;> simp [tryDeinit, hheld, eq_comm (a := sys')]

/-- A timer is cancelled exactly if no other scheduler holds it; it is disarmed. -/
theorem tryCancel_eq_ok_iff :
    sys.tryCancel s t = .ok sys' ↔
      (sys.timer t).heldByOther s = false ∧ sys' = sys.disarm s t := by
  cases hheld : (sys.timer t).heldByOther s <;> simp [tryCancel, hheld, eq_comm (a := sys')]

/-- A timer is armed exactly if no other scheduler holds it, it is not armed, and it is bound. -/
theorem tryArm_eq_ok_iff :
    sys.tryArm s t priority deadline period = .ok sys' ↔
      (sys.timer t).heldByOther s = false ∧ (sys.timer t).armed = false ∧
        (∃ callback, (sys.timer t).callback = some callback) ∧
          sys' = sys.schedule s t priority deadline period := by
  cases hheld : (sys.timer t).heldByOther s <;> cases harmed : (sys.timer t).armed <;>
    cases hbound : (sys.timer t).callback <;>
      simp [tryArm, hheld, harmed, hbound, eq_comm (a := sys')]

end Try

/-- After a timer was disarmed it is not armed. -/
theorem armed_disarm (sys : System m n) (s : Fin m) (t : Fin n) :
    ((sys.disarm s t).timer t).armed = false := by
  have hbody := congrArg Timer.armed (body_disarm sys s t t)
  rwa [if_pos rfl, Timer.armed_body] at hbody

/-- To show that commands keep a property that regions and records do not influence, it is enough
to look at the pieces of work: binding, disarming, unbinding and scheduling the timer named. -/
theorem command_induction {φ : System m n → Prop} {c : Command (Option (Fin n))}
    (halike : ∀ a b, Alike a b → φ a → φ b)
    (hreset : ∀ a t binding arg, c.timer = some t → φ a → (a.timer t).armed = false →
      φ (a.modifyTimer t fun cell => cell.reset binding arg))
    (hdisarm : ∀ a t, c.timer = some t → φ a → (a.timer t).heldByOther s = false →
      φ (a.disarm s t))
    (hschedule : ∀ a t callback priority deadline period, c.timer = some t → φ a →
      (a.timer t).armed = false → (a.timer t).callback = some callback →
        φ (a.schedule s t priority deadline period))
    (h : φ sys) : φ (sys.command s c).2 := by
  cases c with
  | init timer callback arg =>
    cases timer <;> cases callback <;> try exact h
    refine perform_induction halike ?_ h
    intro b henter hok
    rcases tryInit_eq_ok_iff.1 hok with ⟨-, harmed, rfl⟩
    exact hreset _ _ _ _ rfl henter harmed
  | deinit timer =>
    cases timer <;> try exact h
    refine perform_induction halike ?_ h
    intro b henter hok
    rcases tryDeinit_eq_ok_iff.1 hok with ⟨hheld, rfl⟩
    exact hreset _ _ _ _ rfl (hdisarm _ _ rfl henter hheld) (armed_disarm _ _ _)
  | arm timer priority deadline period =>
    cases timer <;> cases deadline <;> try exact h
    refine perform_induction halike ?_ h
    intro b henter hok
    rcases tryArm_eq_ok_iff.1 hok with ⟨-, harmed, ⟨callback, hbound⟩, rfl⟩
    exact hschedule _ _ _ _ _ _ rfl henter harmed hbound
  | cancel timer =>
    cases timer <;> try exact h
    refine perform_induction halike ?_ h
    intro b henter hok
    rcases tryCancel_eq_ok_iff.1 hok with ⟨hheld, rfl⟩
    exact hdisarm _ _ rfl henter hheld

/-! ## What commands leave alone -/

/-- Commands leave the marks of passes alone. -/
theorem dispatching_command (sys : System m n) (s : Fin m) (c : Command (Option (Fin n))) :
    (sys.command s c).2.dispatching = sys.dispatching := by
  refine command_induction (φ := fun a => a.dispatching = sys.dispatching) ?_ ?_ ?_ ?_ rfl
  · intro a b hab ha
    rw [hab.dispatching, ha]
  · intro a t binding arg _ ha _
    exact ha
  · intro a t _ ha _
    rw [dispatching_disarm, ha]
  · intro a t callback priority deadline period _ ha _ _
    rw [dispatching_schedule, ha]

/-- Commands call no hardware timeout but that of their scheduler. -/
theorem timeout_command_of_ne (h : r ≠ s) (sys : System m n) (c : Command (Option (Fin n))) :
    (sys.command s c).2.timeout r = sys.timeout r := by
  refine command_induction (φ := fun a => a.timeout r = sys.timeout r) ?_ ?_ ?_ ?_ rfl
  · intro a b hab ha
    rw [hab.timeout, ha]
  · intro a t binding arg _ ha _
    exact ha
  · intro a t _ ha _
    rw [timeout_disarm_of_ne a s t h, ha]
  · intro a t callback priority deadline period _ ha _ _
    rw [timeout_schedule_of_ne a s t priority deadline period h, ha]

/-- Commands change nothing but links in timers that they do not name. -/
theorem body_command_of_ne {c : Command (Option (Fin n))} (h : c.timer ≠ some u) (sys : System m n)
    (s : Fin m) : ((sys.command s c).2.timer u).body = (sys.timer u).body := by
  have hne : ∀ t, c.timer = some t → u ≠ t := fun t ht heq => h (heq ▸ ht)
  refine command_induction (φ := fun a => (a.timer u).body = (sys.timer u).body) ?_ ?_ ?_ ?_ rfl
  · intro a b hab ha
    rw [timer, hab.timers]
    exact ha
  · intro a t binding arg ht ha _
    rwa [timer_modifyTimer_of_ne a (hne t ht)]
  · intro a t ht ha _
    rwa [body_disarm, if_neg (hne t ht)]
  · intro a t callback priority deadline period ht ha _ _
    rwa [body_schedule, if_neg (hne t ht)]

/-- Commands leave the chains of passes as they are, even where they bind a timer anew. -/
theorem firedNext_command (sys : System m n) (s : Fin m) (c : Command (Option (Fin n)))
    (u : Fin n) : ((sys.command s c).2.timer u).firedNext = (sys.timer u).firedNext := by
  refine command_induction
    (φ := fun a => (a.timer u).firedNext = (sys.timer u).firedNext) ?_ ?_ ?_ ?_ rfl
  · intro a b hab ha
    rw [timer, hab.timers]
    exact ha
  · intro a t binding arg _ ha _
    exact (apply_timer_modifyTimer a t u (φ := Timer.firedNext) (by intro _; rfl)).trans ha
  · intro a t _ ha _
    rw [firedNext_disarm, ha]
  · intro a t callback priority deadline period _ ha _ _
    rw [firedNext_schedule, ha]

/-- The outcome of a piece of work tells whether it was done. -/
theorem perform_fst_eq_ok_iff {work : System m n → Except Conflict (System m n)} :
    (sys.perform s work).1 = .ok () ↔ ∃ b, work (sys.enter s).2 = .ok b := by
  cases hresult : work (sys.enter s).2 with
  | ok b => simp [perform_of_ok hresult]
  | error cause => simp [perform_of_error hresult]

/-- A piece of work that is done leaves its mark on the timers; leaving the region does not. -/
theorem body_perform_of_ok {work : System m n → Except Conflict (System m n)} {cell : Timer m n}
    (h : (sys.perform s work).1 = .ok ())
    (hwork : ∀ b, work (sys.enter s).2 = .ok b → (b.timer t).body = cell) :
    ((sys.perform s work).2.timer t).body = cell := by
  rcases perform_fst_eq_ok_iff.1 h with ⟨b, hresult⟩
  rw [perform_of_ok hresult, timer, timers_leave]
  exact hwork b hresult

/-- A command that is carried out has its effect on the timer it names. -/
theorem body_command_of_ok {c : Command (Option (Fin n))} (h : (sys.command s c).1 = .ok ())
    (ht : c.timer = some t) :
    ((sys.command s c).2.timer t).body = c.effect s (sys.timer t).body := by
  cases c with
  | init timer callback arg =>
    obtain rfl : timer = some t := ht
    cases callback with
    | none => cases h
    | some callback =>
      refine body_perform_of_ok h fun b hok => ?_
      rcases tryInit_eq_ok_iff.1 hok with ⟨-, -, rfl⟩
      rw [timer_modifyTimer_self]
      rfl
  | deinit timer =>
    obtain rfl : timer = some t := ht
    refine body_perform_of_ok h fun b hok => ?_
    rcases tryDeinit_eq_ok_iff.1 hok with ⟨-, rfl⟩
    have hfired := firedNext_disarm (sys.enter s).2 s t t
    rw [timer_modifyTimer_self, Timer.reset, hfired]
    rfl
  | arm timer priority deadline period =>
    obtain rfl : timer = some t := ht
    cases deadline with
    | none => cases h
    | some deadline =>
      refine body_perform_of_ok h fun b hok => ?_
      rcases tryArm_eq_ok_iff.1 hok with ⟨-, -, -, rfl⟩
      rw [body_schedule, if_pos rfl]
      rfl
  | cancel timer =>
    obtain rfl : timer = some t := ht
    refine body_perform_of_ok h fun b hok => ?_
    rcases tryCancel_eq_ok_iff.1 hok with ⟨-, rfl⟩
    rw [body_disarm, if_pos rfl]
    rfl

/-- The work of a command through `s` on the timer `t`, inside the region. -/
def carryOut (sys : System m n) (s : Fin m) (t : Fin n) : Command (Option (Fin n)) → System m n
  | .init _ callback arg => sys.modifyTimer t fun c => c.reset callback arg
  | .deinit _ => (sys.disarm s t).modifyTimer t fun c => c.reset none .none
  | .arm _ priority deadline period =>
    sys.schedule s t priority (deadline.getD .zero) (period.getD .zero)
  | .cancel _ => sys.disarm s t

/-- A command that is carried out does its work on the timer it names, and that timer admits it. -/
theorem command_of_ok {c : Command (Option (Fin n))} (h : (sys.command s c).1 = .ok ()) :
    ∃ t, c.timer = some t ∧ c.Admits s (sys.timer t) ∧
      (sys.command s c).2 = ((sys.enter s).2.carryOut s t c).leave s (sys.enter s).1 := by
  cases c with
  | init timer callback arg =>
    cases timer <;> cases callback <;> try cases h
    rcases perform_fst_eq_ok_iff.1 h with ⟨b, hok⟩
    rcases tryInit_eq_ok_iff.1 hok with ⟨hheld, harmed, rfl⟩
    exact ⟨_, rfl, ⟨hheld, harmed⟩, congrArg Prod.snd (perform_of_ok hok)⟩
  | deinit timer =>
    cases timer <;> try cases h
    rcases perform_fst_eq_ok_iff.1 h with ⟨b, hok⟩
    rcases tryDeinit_eq_ok_iff.1 hok with ⟨hheld, rfl⟩
    exact ⟨_, rfl, hheld, congrArg Prod.snd (perform_of_ok hok)⟩
  | arm timer priority deadline period =>
    cases timer <;> cases deadline <;> try cases h
    rcases perform_fst_eq_ok_iff.1 h with ⟨b, hok⟩
    rcases tryArm_eq_ok_iff.1 hok with ⟨hheld, harmed, hbound, rfl⟩
    exact ⟨_, rfl, ⟨hheld, harmed, hbound⟩, congrArg Prod.snd (perform_of_ok hok)⟩
  | cancel timer =>
    cases timer <;> try cases h
    rcases perform_fst_eq_ok_iff.1 h with ⟨b, hok⟩
    rcases tryCancel_eq_ok_iff.1 hok with ⟨hheld, rfl⟩
    exact ⟨_, rfl, hheld, congrArg Prod.snd (perform_of_ok hok)⟩

/-- Arming is carried out whenever the timer admits it. -/
theorem command_arm_of_admits {timer : Option (Fin n)} {priority : PriorityClass}
    {deadline : Timespec} {period : Option Timespec}
    (h : (Command.arm timer priority (some deadline) period).Admits s (sys.timer t)) :
    (sys.command s (.arm (some t) priority (some deadline) period)).1 = .ok () := by
  rcases h with ⟨hheld, harmed, hbound⟩
  exact perform_fst_eq_ok_iff.2 ⟨_, tryArm_eq_ok_iff.2 ⟨hheld, harmed, hbound, rfl⟩⟩

/-- Work that fails changes regions and what was recorded, and nothing else. -/
theorem alike_perform_of_error {work : System m n → Except Conflict (System m n)} {cause : Refusal}
    (h : (sys.perform s work).1 = .error cause) : sys.Alike (sys.perform s work).2 := by
  cases hresult : work (sys.enter s).2 with
  | ok b => simp [perform_of_ok hresult] at h
  | error cause =>
    rw [perform_of_error hresult]
    exact ((alike_enter sys s).trans (alike_emit _ _)).trans (alike_leave _ s _)

/-- A command that is refused changes nothing but regions and records. -/
theorem alike_command_of_error {c : Command (Option (Fin n))} {cause : Refusal}
    (h : (sys.command s c).1 = .error cause) : sys.Alike (sys.command s c).2 := by
  cases c with
  | init timer callback arg =>
    cases timer <;> cases callback <;>
      first | exact .refl sys | exact alike_perform_of_error h
  | deinit timer => cases timer <;> first | exact .refl sys | exact alike_perform_of_error h
  | arm timer priority deadline period =>
    cases timer <;> cases deadline <;>
      first | exact .refl sys | exact alike_perform_of_error h
  | cancel timer => cases timer <;> first | exact .refl sys | exact alike_perform_of_error h

/-- A command that is refused leaves all timers as they are. -/
theorem body_command_of_error {c : Command (Option (Fin n))} {cause : Refusal}
    (h : (sys.command s c).1 = .error cause) (u : Fin n) :
    ((sys.command s c).2.timer u).body = (sys.timer u).body := by
  rw [timer, (alike_command_of_error h).timers, timer]

/-! ## Soundness -/

namespace Sound

/-- Programming the hardware keeps a system sound. -/
theorem program (h : sys.Sound armed) (s : Fin m) : (sys.program s).Sound armed :=
  h.of_eq (timers_program sys s) (lists_program sys s)

/-- Disarming a timer that no other scheduler holds takes it off the list, if it is there. -/
theorem disarm (h : sys.Sound armed) (hheld : (sys.timer t).heldByOther s = false) :
    (sys.disarm s t).Sound (Function.update armed s ((armed s).erase t)) := by
  cases harmed : (sys.timer t).armed with
  | true =>
    have hunlink := h.unlink (h.mem_of_not_held harmed hheld)
    rw [disarm_of_armed sys s t harmed]
    dsimp only
    split
    · exact hunlink.program s
    · exact hunlink
  | false =>
    rw [disarm_of_not_armed sys s t harmed,
      List.erase_of_not_mem (h.notMem_of_not_armed harmed s), Function.update_eq_self]
    exact h

/-- Scheduling a disarmed timer with a callback puts it into its place. -/
theorem schedule (h : sys.Sound armed) (harmed : (sys.timer t).armed = false)
    {callback : CallbackId} (hbound : (sys.timer t).callback = some callback)
    (priority : PriorityClass) (deadline period : Timespec) :
    (sys.schedule s t priority deadline period).Sound
      (Function.update armed s
        (placed (Threaded.isDue sys.timers deadline) t (armed s))) := by
  have hlink := h.link (s := s) harmed
    (f := fun c => { c with deadline, period, priority, armed := true, owner := some s })
    rfl rfl ⟨callback, hbound⟩
  rw [schedule_eq]
  dsimp only
  split
  · exact hlink.program s
  · exact hlink

/-- In a sound system the next deadline is that of the first timer of the list. -/
theorem nextDeadline_eq (h : sys.Sound armed) (s : Fin m) :
    sys.nextDeadline s = (armed s).head?.map fun t => (sys.timer t).deadline := by
  rw [System.nextDeadline_eq, ← (h.holds s).head_eq]
  rfl

/-- The next deadline depends on the first timer of a list and its deadline only. -/
theorem nextDeadline_congr {armed' : Fin m → List (Fin n)} (h : sys.Sound armed)
    (h' : sys'.Sound armed') (hhead : (armed' r).head? = (armed r).head?)
    (hdeadline : ∀ u ∈ armed r, (sys'.timer u).deadline = (sys.timer u).deadline) :
    sys'.nextDeadline r = sys.nextDeadline r := by
  rw [h.nextDeadline_eq, h'.nextDeadline_eq, hhead]
  exact Option.map_congr fun u hu => hdeadline u (List.mem_of_head? hu)

end Sound

/-! ## The hardware follows the list -/

/-- What is pending on the hardware timeout is the earliest deadline of the list. -/
def Follows (sys : System m n) (s : Fin m) : Prop :=
  (sys.timeout s).pending = sys.nextDeadline s

/-- The hardware follows a list as long as neither changes. -/
theorem Follows.of_eq (h : sys.Follows r) (htimeout : sys'.timeout r = sys.timeout r)
    (hnext : sys'.nextDeadline r = sys.nextDeadline r) : sys'.Follows r := by
  rw [Follows, htimeout, hnext]
  exact h

/-- Like systems have the same next deadlines. -/
theorem nextDeadline_of_alike {a b : System m n} (h : Alike a b) (r : Fin m) :
    b.nextDeadline r = a.nextDeadline r := by
  rw [nextDeadline_eq, nextDeadline_eq, h.timers, h.lists]

/-- Programming one timeout changes no next deadline. -/
theorem nextDeadline_program (sys : System m n) (s r : Fin m) :
    (sys.program s).nextDeadline r = sys.nextDeadline r := by
  rw [nextDeadline_eq, nextDeadline_eq, timers_program, lists_program]

/-- After programming the hardware of one scheduler follows its list, and that of the others is as
before. -/
theorem follows_program (h : r ≠ s → sys.Follows r) : (sys.program s).Follows r := by
  by_cases hr : r = s
  · subst hr
    exact (pending_timeout_program sys r).trans (nextDeadline_program sys r r).symm
  · exact (h hr).of_eq (timeout_program_of_ne sys s hr) (nextDeadline_program sys s r)

namespace Sound

/-- When the list of `s` changes, the hardware of every scheduler keeps following its list, as long
as that of `s` is programmed whenever the head of the list changes. -/
theorem follows_relinked {l : List (Fin n)} {changed : Bool} (h : sys.Sound armed)
    (h' : sys'.Sound (Function.update armed s l)) (htimeout : sys'.timeout = sys.timeout)
    (hdeadline : ∀ u ∈ armed r, (sys'.timer u).deadline = (sys.timer u).deadline)
    (hhead : changed = false → l.head? = (armed s).head?) (hfollows : sys.Follows r) :
    (if changed then sys'.program s else sys').Follows r := by
  have hkept : (r = s → l.head? = (armed s).head?) → sys'.Follows r := by
    intro hsame
    refine hfollows.of_eq (congrFun htimeout r) (h.nextDeadline_congr h' ?_ hdeadline)
    by_cases hr : r = s
    · subst hr
      rw [Function.update_self, hsame rfl]
    · rw [Function.update_of_ne hr]
  cases changed with
  | true => exact follows_program fun hr => hkept fun heq => absurd heq hr
  | false => exact hkept fun _ => hhead rfl

/-- Disarming keeps the hardware of every scheduler following its list: if the head was taken out,
the hardware is programmed for the new one, and otherwise the head stays. -/
theorem follows_disarm (h : sys.Sound armed) (hheld : (sys.timer t).heldByOther s = false)
    (hfollows : sys.Follows r) : (sys.disarm s t).Follows r := by
  cases harmed : (sys.timer t).armed with
  | false => rwa [disarm_of_not_armed sys s t harmed]
  | true =>
    have hmem := h.mem_of_not_held harmed hheld
    have hfirst : ((sys.modifyTimer t fun c => { c with armed := false }).unlink s t).1 = true ↔
        (armed s).head? = some t := (h.holds_disarmed t s).remove_fst_of_mem hmem
    rw [disarm_of_armed sys s t harmed]
    refine h.follows_relinked (h.unlink hmem) (timeout_unlink _ s t) ?_ ?_ hfollows
    · intro u _
      have hbody := body_unlink (sys.modifyTimer t fun c => { c with armed := false }) s t u
      rw [Timer.apply_eq_of_body_eq Timer.deadline_body hbody]
      exact apply_timer_modifyTimer sys t u (φ := Timer.deadline) (by intro _; rfl)
    · intro hnot
      refine head?_erase_of_ne fun heq => ?_
      rw [hfirst.2 heq] at hnot
      cases hnot

/-- Scheduling keeps the hardware of every scheduler following its list: if the timer became the
head, the hardware is programmed for it, and otherwise the head stays. -/
theorem follows_schedule (h : sys.Sound armed) (harmed : (sys.timer t).armed = false)
    {callback : CallbackId} (hbound : (sys.timer t).callback = some callback)
    (priority : PriorityClass) (deadline period : Timespec) (hfollows : sys.Follows r) :
    (sys.schedule s t priority deadline period).Follows r := by
  have hlink := h.link (s := s) harmed
    (f := fun c => { c with deadline, period, priority, armed := true, owner := some s })
    rfl rfl ⟨callback, hbound⟩
  have hfirst := h.link_fst harmed
    (fun c => { c with deadline, period, priority, armed := true, owner := some s }) s
  rw [schedule_eq]
  refine h.follows_relinked hlink (timeout_link _ s t) ?_ ?_ hfollows
  · intro u hu
    have hut : u ≠ t := fun heq => h.notMem_of_not_armed harmed r (heq ▸ hu)
    have hbody := body_link (sys.modifyTimer t fun c =>
      { c with deadline, period, priority, armed := true, owner := some s }) s t u
    rw [Timer.apply_eq_of_body_eq Timer.deadline_body hbody, timer_modifyTimer_of_ne sys hut]
  · intro hnot
    refine head?_placed.resolve_left fun heq => ?_
    rw [hfirst.2 heq] at hnot
    cases hnot

end Sound

/-- A command changes no list but that of its scheduler. -/
theorem Sound.command_update (h : sys.Sound armed) (s : Fin m) (c : Command (Option (Fin n))) :
    ∃ l, (sys.command s c).2.Sound (Function.update armed s l) := by
  refine command_induction (φ := fun a => ∃ l, a.Sound (Function.update armed s l)) ?_ ?_ ?_ ?_
    ⟨armed s, by rwa [Function.update_eq_self]⟩
  · rintro a b hab ⟨l, ha⟩
    exact ⟨l, ha.of_eq hab.timers hab.lists⟩
  · rintro a t binding arg - ⟨l, ha⟩ ht
    exact ⟨l, ha.modifyTimer ht rfl ⟨rfl, rfl⟩⟩
  · rintro a t - ⟨l, ha⟩ hheld
    have hdisarm := ha.disarm hheld
    rw [Function.update_idem] at hdisarm
    exact ⟨_, hdisarm⟩
  · rintro a t callback priority deadline period - ⟨l, ha⟩ ht hbound
    have hschedule := ha.schedule (s := s) ht hbound priority deadline period
    rw [Function.update_idem] at hschedule
    exact ⟨_, hschedule⟩

/-- A command keeps systems sound, and on sound systems it keeps the hardware of every scheduler
following its list. -/
theorem Sound.command (h : sys.Sound armed) (s : Fin m) (c : Command (Option (Fin n))) :
    ∃ armed', (sys.command s c).2.Sound armed' ∧
      ∀ r, sys.Follows r → (sys.command s c).2.Follows r := by
  refine command_induction
    (φ := fun a => ∃ armed', a.Sound armed' ∧ ∀ r, sys.Follows r → a.Follows r)
    ?_ ?_ ?_ ?_ ⟨armed, h, fun _ hr => hr⟩
  · rintro a b hab ⟨armed', ha, hfollows⟩
    refine ⟨armed', ha.of_eq hab.timers hab.lists, fun r hr => ?_⟩
    exact (hfollows r hr).of_eq (congrFun hab.timeout r) (nextDeadline_of_alike hab r)
  · rintro a t binding arg - ⟨armed', ha, hfollows⟩ ht
    have hreset := ha.modifyTimer (f := fun cell => cell.reset binding arg) ht rfl ⟨rfl, rfl⟩
    refine ⟨armed', hreset, fun r hr => (hfollows r hr).of_eq rfl ?_⟩
    refine ha.nextDeadline_congr hreset rfl fun u hu => ?_
    have hut : u ≠ t := fun heq => ha.notMem_of_not_armed ht r (heq ▸ hu)
    rw [timer_modifyTimer_of_ne a hut]
  · rintro a t - ⟨armed', ha, hfollows⟩ hheld
    exact ⟨_, ha.disarm hheld, fun r hr => ha.follows_disarm hheld (hfollows r hr)⟩
  · rintro a t callback priority deadline period - ⟨armed', ha, hfollows⟩ ht hbound
    exact ⟨_, ha.schedule ht hbound priority deadline period,
      fun r hr => ha.follows_schedule ht hbound priority deadline period (hfollows r hr)⟩

end System
end SoftTimer
