import SoftTimer.Proofs.Course
import SoftTimer.System.Pass

/-!
# What a pass does to timers

A pass begins by taking out the timers that are due, chaining them up and rearming the periodic
ones.  Then it comes to the timers of its chain, and at the end it programs the hardware.  This
file gives for each of these steps the parts of a system that it changes.

Main results:

- Theorem `System.Sound.detachExpired`: what is due is taken out, in the order of the list.
- Theorem `System.firedNext_chain`: along the chain every timer leads to the next one.
- Theorem `System.Sound.begin`: what a pass finds and leaves when it begins.
- Theorems `System.Sound.visit` and `System.Sound.finish`: coming to a timer, and the end.
-/

namespace SoftTimer

/-- The cells of a timer that passes leave alone: all but its deadline, its mark and its links. -/
def Timer.lasting {m n : Nat} (t : Timer m n) : Timer m n :=
  { t with deadline := .zero, armed := false, prev := none, next := none, firedNext := none }

/-- What lasts of a timer does not depend on its links. -/
theorem Timer.lasting_body {m n : Nat} (t : Timer m n) : t.body.lasting = t.lasting :=
  rfl

namespace System

variable {m n : Nat} {sys sys' : System m n} {armed : Fin m → List (Fin n)} {s r : Fin m}
  {t u : Fin n} {now : Timespec}

/-- Two systems whose schedulers differ at most in their lists. -/
structure SameOffLists (a b : System m n) : Prop where
  dispatching : b.dispatching = a.dispatching
  region : b.region = a.region
  timeout : b.timeout = a.timeout

namespace SameOffLists

variable {a b c : System m n}

/-- A system is the same as itself off the lists. -/
theorem refl (a : System m n) : SameOffLists a a :=
  ⟨rfl, rfl, rfl⟩

/-- What is the same off the lists as a system that is the same as another one is the same as that
one. -/
theorem trans (hab : SameOffLists a b) (hbc : SameOffLists b c) : SameOffLists a c :=
  ⟨hbc.dispatching.trans hab.dispatching, hbc.region.trans hab.region,
    hbc.timeout.trans hab.timeout⟩

end SameOffLists

/-! ## Taking out what is due -/

/-- The timers `taken` were taken out of the list of `s` and disarmed.  Links apart, nothing else
changed in the timers. -/
structure TakenOut (s : Fin m) (taken : List (Fin n)) (a b : System m n) : Prop where
  frame : SameOffLists a b
  body : ∀ u, (b.timer u).body =
    if u ∈ taken then { (a.timer u).body with armed := false } else (a.timer u).body
  course : b.course = a.course ++ taken.map fun t => .detached s t (a.timer t).deadline

/-- Nothing is taken out at first. -/
theorem TakenOut.nil (s : Fin m) (a : System m n) : TakenOut s [] a a :=
  ⟨.refl a, by simp, by simp⟩

/-- The deadlines are those from before. -/
theorem TakenOut.deadline {taken : List (Fin n)} (h : TakenOut s taken sys sys') (u : Fin n) :
    (sys'.timer u).deadline = (sys.timer u).deadline := by
  have hbody := congrArg Timer.deadline (h.body u)
  rw [Timer.deadline_body] at hbody
  rw [hbody]
  split <;> rfl

/-- What was taken out is disarmed, and keeps its owner and its callback. -/
theorem TakenOut.ready {taken : List (Fin n)} (htaken : TakenOut s taken sys sys')
    (h : sys.Sound armed) (hsub : taken ⊆ armed s) (ht : t ∈ taken) :
    (sys'.timer t).armed = false ∧ (sys'.timer t).owner = some s ∧
      ∃ callback, (sys'.timer t).callback = some callback := by
  have hself := htaken.body t
  rw [if_pos ht] at hself
  rcases (h.settled t).bound (h.armed_of_mem (hsub ht)) with ⟨callback, hbound⟩
  exact ⟨congrArg Timer.armed hself,
    (congrArg Timer.owner hself).trans (h.owner_of_mem (hsub ht)),
    callback, (congrArg Timer.callback hself).trans hbound⟩

/-- Taking out one timer and then others takes them all out. -/
theorem TakenOut.cons {b c : System m n} {taken : List (Fin n)} (hone : TakenOut s [t] sys b)
    (hrest : TakenOut s taken b c) : TakenOut s (t :: taken) sys c := by
  refine ⟨hone.frame.trans hrest.frame, ?_, ?_⟩
  · intro u
    rw [hrest.body, hone.body]
    by_cases hut : u = t
    · simp [hut]
    · simp [hut]
  · rw [hrest.course, hone.course]
    simp [hone.deadline]

/-- The system after the first timer of the list, which is due, was taken out. -/
def detachHead (sys : System m n) (s : Fin m) (t : Fin n) : System m n :=
  ((sys.setThreaded s ((sys.threaded s).remove t).2).modifyTimer t fun c =>
    { c with armed := false }).emit
      (.detached s t ((sys.setThreaded s ((sys.threaded s).remove t).2).timer t).deadline)

/-- What detaching the head of a list makes of the system. -/
theorem takenOut_detachHead (sys : System m n) (s : Fin m) (t : Fin n) :
    TakenOut s [t] sys (sys.detachHead s t) := by
  have hbody : ∀ u, ((sys.setThreaded s ((sys.threaded s).remove t).2).timer u).body =
      (sys.timer u).body := fun u => Threaded.body_remove _ _ _
  refine ⟨⟨?_, ?_, ?_⟩, ?_, ?_⟩
  · exact dispatching_setThreaded sys s _
  · exact region_setThreaded sys s _
  · exact timeout_setThreaded sys s _
  · intro u
    rw [show (sys.detachHead s t).timer u = ((sys.setThreaded s ((sys.threaded s).remove
      t).2).modifyTimer t fun c => { c with armed := false }).timer u from rfl, timer_modifyTimer]
    by_cases hut : u = t
    · subst hut
      rw [if_pos rfl, if_pos (List.mem_singleton_self u), ← hbody u]
      rfl
    · rw [if_neg hut, if_neg (by simpa using hut), hbody u]
  · rw [detachHead, course_emit _ rfl, course_modifyTimer, course_setThreaded]
    rw [Timer.apply_eq_of_body_eq Timer.deadline_body (hbody t)]
    rfl

/-- The loop that takes out timers starts with the first one that is due, if there is one. -/
theorem detachExpired_succ (limit : Nat) (h : sys.Sound armed) :
    sys.detachExpired s now (limit + 1) =
      match ((armed s).takeWhile (Threaded.isDue sys.timers now)).head? with
      | none => ([], sys)
      | some t =>
        (t :: ((sys.detachHead s t).detachExpired s now limit).1,
          ((sys.detachHead s t).detachExpired s now limit).2) := by
  rw [detachExpired, h.unlinkExpired_eq]
  cases ((armed s).takeWhile (Threaded.isDue sys.timers now)).head? <;> rfl

/-- Where nothing is due, nothing is taken out. -/
theorem Sound.takenOut_nil (h : sys.Sound armed)
    (hdue : (armed s).takeWhile (Threaded.isDue sys.timers now) = []) :
    sys.Sound (Function.update armed s ((armed s).dropWhile (Threaded.isDue sys.timers now))) ∧
      TakenOut s ((armed s).takeWhile (Threaded.isDue sys.timers now)) sys sys := by
  have hcut := List.takeWhile_append_dropWhile (p := Threaded.isDue sys.timers now)
    (l := armed s)
  rw [hdue, List.nil_append] at hcut
  rw [hcut, Function.update_eq_self, hdue]
  exact ⟨h, .nil s sys⟩

/-- Detaching the head leaves a sound system, with the rest of the list. -/
theorem Sound.detachHead {l : List (Fin n)} (h : sys.Sound armed) (hl : armed s = t :: l) :
    (sys.detachHead s t).Sound (Function.update armed s l) := by
  have hmem : t ∈ armed s := hl ▸ List.mem_cons_self
  have hsound : (sys.detachHead s t).Sound (Function.update armed s ((armed s).erase t)) :=
    (h.detach hmem).of_eq rfl rfl
  rwa [hl, List.erase_cons_head] at hsound

/-- Taking timers out does not change which ones are due. -/
theorem TakenOut.isDue_eq {taken : List (Fin n)} (h : TakenOut s taken sys sys')
    (now : Timespec) : Threaded.isDue sys'.timers now = Threaded.isDue sys.timers now := by
  funext u
  exact congrArg (fun d => decide (d ≤ now)) (h.deadline u)

/-- The timers that are due are taken out, in the order of the list.  They are its first ones. -/
theorem Sound.detachExpired {limit : Nat} (h : sys.Sound armed)
    (hlimit : ((armed s).takeWhile (Threaded.isDue sys.timers now)).length ≤ limit) :
    (sys.detachExpired s now limit).1 = (armed s).takeWhile (Threaded.isDue sys.timers now) ∧
      (sys.detachExpired s now limit).2.Sound
        (Function.update armed s ((armed s).dropWhile (Threaded.isDue sys.timers now))) ∧
      TakenOut s ((armed s).takeWhile (Threaded.isDue sys.timers now)) sys
        (sys.detachExpired s now limit).2 := by
  induction limit generalizing sys armed with
  | zero =>
    have hdue := List.length_eq_zero_iff.1 (Nat.le_zero.1 hlimit)
    exact ⟨hdue.symm, h.takenOut_nil hdue⟩
  | succ limit ih =>
    rw [detachExpired_succ limit h]
    by_cases hdue : (armed s).takeWhile (Threaded.isDue sys.timers now) = []
    · have hkeep := h.takenOut_nil hdue
      rw [hdue] at hkeep ⊢
      exact ⟨rfl, hkeep⟩
    · -- the head is due: it is taken out, and the rest of the list is treated alike
      obtain ⟨t, l, hl, ht⟩ : ∃ t l, armed s = t :: l ∧ Threaded.isDue sys.timers now t = true := by
        rcases hl : armed s with _ | ⟨t, l⟩
        · simp [hl] at hdue
        · refine ⟨t, l, rfl, ?_⟩
          by_contra ht
          exact hdue (by rw [hl, List.takeWhile_cons_of_neg ht])
      have hone := takenOut_detachHead sys s t
      rw [hl, List.takeWhile_cons_of_pos ht] at hlimit
      have hrest := ih (h.detachHead hl) (by
        rw [Function.update_self, hone.isDue_eq]
        exact Nat.le_of_succ_le_succ hlimit)
      rw [Function.update_self, hone.isDue_eq, Function.update_idem] at hrest
      rcases hrest with ⟨hfst, hsound, htaken⟩
      rw [hl, List.takeWhile_cons_of_pos ht, List.dropWhile_cons_of_pos ht, List.head?_cons]
      dsimp only
      exact ⟨by rw [hfst], hsound, hone.cons htaken⟩

/-! ## The chain -/

/-- Chaining timers up changes cells of timers and nothing else. -/
theorem exists_chain_eq (timers : List (Fin n)) (sys : System m n) :
    ∃ cells, sys.chain timers = { sys with timers := cells } := by
  induction timers generalizing sys with
  | nil => exact ⟨sys.timers, rfl⟩
  | cons t timers ih =>
    rcases ih (sys.modifyTimer t fun c => { c with firedNext := timers.head? }) with ⟨cells, h⟩
    exact ⟨cells, h⟩

section Chain

variable (timers : List (Fin n)) (sys : System m n)

/-- Chaining timers up changes no list. -/
theorem lists_chain : (sys.chain timers).lists = sys.lists := by
  rcases exists_chain_eq timers sys with ⟨cells, h⟩
  rw [h]
  rfl

/-- Chaining timers up changes no marks and no timeouts. -/
theorem sameOffLists_chain : SameOffLists sys (sys.chain timers) := by
  rcases exists_chain_eq timers sys with ⟨cells, h⟩
  rw [h]
  exact ⟨rfl, rfl, rfl⟩

/-- Chaining timers up is no notable event. -/
theorem course_chain : (sys.chain timers).course = sys.course := by
  rcases exists_chain_eq timers sys with ⟨cells, h⟩
  rw [h]
  rfl

end Chain

/-- Chaining changes nothing but the links of passes. -/
theorem timer_chain (timers : List (Fin n)) (sys : System m n) (u : Fin n) :
    (sys.chain timers).timer u =
      { sys.timer u with firedNext := ((sys.chain timers).timer u).firedNext } := by
  induction timers generalizing sys with
  | nil => rfl
  | cons t timers ih =>
    rw [chain, ih, timer_modifyTimer]
    by_cases hut : u = t
    · rw [if_pos hut, hut]
    · rw [if_neg hut]

/-- Timers that are not chained up keep their links of passes. -/
theorem firedNext_chain_of_notMem {timers : List (Fin n)} (sys : System m n) (h : u ∉ timers) :
    ((sys.chain timers).timer u).firedNext = (sys.timer u).firedNext := by
  induction timers generalizing sys with
  | nil => rfl
  | cons t timers ih =>
    rw [List.mem_cons, not_or] at h
    rw [chain, ih _ h.2, timer_modifyTimer_of_ne _ h.1]

/-- Along the chain every timer leads to the next one, and the last one to nothing. -/
theorem firedNext_chain {a b : List (Fin n)} (sys : System m n) (h : (a ++ t :: b).Nodup) :
    ((sys.chain (a ++ t :: b)).timer t).firedNext = b.head? := by
  induction a generalizing sys with
  | nil =>
    rw [List.nil_append, chain, firedNext_chain_of_notMem _ (List.nodup_cons.1 h).1,
      timer_modifyTimer_self]
  | cons v a ih => exact ih _ (List.nodup_cons.1 h).2

/-- A system stays sound whatever becomes of the links of passes. -/
theorem Sound.of_firedNext (h : sys.Sound armed) (hlists : sys'.lists = sys.lists)
    (hcell : ∀ u, sys'.timer u = { sys.timer u with firedNext := (sys'.timer u).firedNext }) :
    sys'.Sound armed := by
  constructor
  · intro s
    apply (h.holds s).congr (congrFun hlists s)
    intro u _
    have hprev : (sys'.timer u).prev = (sys.timer u).prev := by rw [hcell u]
    have hnext : (sys'.timer u).next = (sys.timer u).next := by rw [hcell u]
    have hdeadline : (sys'.timer u).deadline = (sys.timer u).deadline := by rw [hcell u]
    exact ⟨hprev, hnext, hdeadline⟩
  · intro s u
    rw [h.mem_iff, hcell u]
  · intro u
    rcases h.settled u with ⟨howned, hbound, hunlinked⟩
    rw [hcell u]
    exact ⟨howned, hbound, hunlinked⟩

/-! ## Rearming -/

/-- The timers `rearmed` may have been put back into the list of `s`.  Nothing changed in other
timers but links, and in these nothing but links, deadlines and marks. -/
structure Rearmed (rearmed : List (Fin n)) (a b : System m n) : Prop where
  frame : SameOffLists a b
  body : ∀ u, (b.timer u).body =
    { (a.timer u).body with deadline := (b.timer u).deadline, armed := (b.timer u).armed }
  body_of_notMem : ∀ u, u ∉ rearmed → (b.timer u).body = (a.timer u).body
  course : b.course = a.course

/-- Nothing is rearmed at first. -/
theorem Rearmed.nil (a : System m n) : Rearmed [] a a :=
  ⟨.refl a, fun _ => rfl, fun _ _ => rfl, rfl⟩

/-- Rearming one timer and then others rearms them all. -/
theorem Rearmed.cons {a b c : System m n} {rearmed : List (Fin n)} (hone : Rearmed [t] a b)
    (hrest : Rearmed rearmed b c) : Rearmed (t :: rearmed) a c := by
  refine ⟨hone.frame.trans hrest.frame, ?_, ?_, hrest.course.trans hone.course⟩
  · intro u
    rw [hrest.body, hone.body]
  · intro u hu
    rw [List.mem_cons, not_or] at hu
    rw [hrest.body_of_notMem u hu.2, hone.body_of_notMem u (by simpa using hu.1)]

/-- A timer is rearmed if its deadline and its mark changed and nothing else off the lists did. -/
theorem Rearmed.of_body {a b : System m n} (hframe : SameOffLists a b)
    (hself : ∃ deadline mark, (b.timer t).body = { (a.timer t).body with deadline, armed := mark })
    (hother : ∀ u, u ≠ t → (b.timer u).body = (a.timer u).body) (hcourse : b.course = a.course) :
    Rearmed [t] a b := by
  have heq : ∀ {x y : Timer m n} {deadline : Timespec} {mark : Bool},
      x.body = { y.body with deadline, armed := mark } →
        x.body = { y.body with deadline := x.deadline, armed := x.armed } := by
    intro x y deadline mark h
    obtain rfl : x.deadline = deadline := congrArg Timer.deadline h
    obtain rfl : x.armed = mark := congrArg Timer.armed h
    exact h
  refine ⟨hframe, ?_, ?_, hcourse⟩
  · intro u
    by_cases hut : u = t
    · rcases hself with ⟨deadline, mark, hbody⟩
      rw [hut]
      exact heq hbody
    · exact heq (hother u hut)
  · intro u hu
    exact hother u (by simpa using hu)

/-- What rearming a timer makes of the system. -/
theorem rearmed_rearm (sys : System m n) (s : Fin m) (t : Fin n) :
    Rearmed [t] sys (sys.rearm s t) := by
  unfold rearm
  split
  · split
    · next deadline _ =>
      refine .of_body ⟨dispatching_link _ s t, region_link _ s t, timeout_link _ s t⟩
        ⟨deadline, true, ?_⟩ ?_ (course_link _ s t)
      · rw [body_link, timer_modifyTimer_self]
        rfl
      · intro u hut
        rw [body_link, timer_modifyTimer_of_ne _ hut]
    · exact .of_body ⟨rfl, rfl, rfl⟩ ⟨_, _, rfl⟩ (fun _ _ => rfl) (course_log _ _ _)
  · exact .of_body (.refl sys) ⟨_, _, rfl⟩ (fun _ _ => rfl) rfl

/-- Rearming a disarmed timer leaves a sound system. -/
theorem Sound.rearm (h : sys.Sound armed) (ht : (sys.timer t).armed = false)
    (howner : (sys.timer t).owner = some s)
    (hbound : ∃ callback, (sys.timer t).callback = some callback) :
    ∃ l, (sys.rearm s t).Sound (Function.update armed s l) := by
  unfold System.rearm
  split
  · split
    · exact ⟨_, h.link ht rfl howner hbound⟩
    · exact ⟨armed s, by rw [Function.update_eq_self]; exact h.of_eq rfl rfl⟩
  · exact ⟨armed s, by rwa [Function.update_eq_self]⟩

/-- Rearming disarmed timers one after another leaves a sound system; only the list of `s` grows. -/
theorem Sound.rearm_all {timers : List (Fin n)} (h : sys.Sound armed) (hnd : timers.Nodup)
    (ht : ∀ t ∈ timers, (sys.timer t).armed = false ∧ (sys.timer t).owner = some s ∧
      ∃ callback, (sys.timer t).callback = some callback) :
    (∃ l, (timers.foldl (System.rearm s) sys).Sound (Function.update armed s l)) ∧
      Rearmed timers sys (timers.foldl (System.rearm s) sys) := by
  induction timers generalizing sys armed with
  | nil => exact ⟨⟨armed s, by rwa [Function.update_eq_self]⟩, .nil sys⟩
  | cons t timers ih =>
    rcases ht t List.mem_cons_self with ⟨hmark, howner, hbound⟩
    rcases h.rearm hmark howner hbound with ⟨l, hone⟩
    have hstep := rearmed_rearm sys s t
    have hrest : ∀ u ∈ timers, ((sys.rearm s t).timer u).armed = false ∧
        ((sys.rearm s t).timer u).owner = some s ∧
          ∃ callback, ((sys.rearm s t).timer u).callback = some callback := by
      intro u hu
      have hne : u ≠ t := fun heq => (List.nodup_cons.1 hnd).1 (heq ▸ hu)
      have hbody := hstep.body_of_notMem u (by simpa using hne)
      have hsame := ht u (List.mem_cons_of_mem _ hu)
      rwa [← Timer.armed_body, ← Timer.owner_body, ← Timer.callback_body, ← hbody] at hsame
    rcases ih hone (List.nodup_cons.1 hnd).2 hrest with ⟨⟨l', hsound⟩, hrearmed⟩
    rw [Function.update_idem] at hsound
    exact ⟨⟨l', hsound⟩, hstep.cons hrearmed⟩

/-! ## Collecting -/

/-- A pass of `s` has collected the timers `taken`: they are chained up, no other scheduler has
another list, and no binding, period or owner has changed. -/
structure Collected (s : Fin m) (taken : List (Fin n)) (armed : Fin m → List (Fin n))
    (a b : System m n) : Prop where
  sound : ∃ l, b.Sound (Function.update armed s l)
  frame : SameOffLists a b
  chained : ∀ c t d, taken = c ++ t :: d → (b.timer t).firedNext = d.head?
  lasting : ∀ u, (b.timer u).lasting = (a.timer u).lasting
  body_of_notMem : ∀ u, u ∉ taken → (b.timer u).body = (a.timer u).body
  course : b.course = a.course ++ taken.map fun t => .detached s t (a.timer t).deadline

/-- Collecting takes out what is due, chains it up and rearms it. -/
theorem Sound.collect (h : sys.Sound armed) (s : Fin m) (now : Timespec) :
    (sys.collect s now).1 = ((armed s).takeWhile (Threaded.isDue sys.timers now)).head? ∧
      Collected s ((armed s).takeWhile (Threaded.isDue sys.timers now)) armed sys
        (sys.collect s now).2 := by
  have hinit := List.takeWhile_prefix (Threaded.isDue sys.timers now) (l := armed s)
  have hnd := (h.holds s).nodup.sublist hinit.sublist
  have hlen := hinit.length_le.trans (h.holds s).length_le
  rcases h.detachExpired hlen with ⟨hfst, hdetached, htaken⟩
  generalize hdue : (armed s).takeWhile (Threaded.isDue sys.timers now) = due at *
  have hcollect : sys.collect s now = (due.head?, due.foldl (System.rearm s)
      ((sys.detachExpired s now n).2.chain due)) := by
    simp only [System.collect, hfst]
  generalize (sys.detachExpired s now n).2 = a at *
  have hchained : (a.chain due).Sound _ :=
    hdetached.of_firedNext (lists_chain due a) (timer_chain due a)
  have hbody : ∀ u, u ∉ due → (a.chain due).timer u = a.timer u := by
    intro u hu
    rw [timer_chain, firedNext_chain_of_notMem a hu]
  have hready : ∀ t ∈ due, ((a.chain due).timer t).armed = false ∧
      ((a.chain due).timer t).owner = some s ∧
        ∃ callback, ((a.chain due).timer t).callback = some callback := by
    intro t ht
    rw [timer_chain]
    exact htaken.ready h hinit.subset ht
  rcases hchained.rearm_all hnd hready with ⟨⟨l, hsound⟩, hrearmed⟩
  rw [Function.update_idem] at hsound
  rw [hcollect]
  refine ⟨rfl, ⟨l, hsound⟩, ?_, ?_, ?_, ?_, ?_⟩
  · exact (htaken.frame.trans (sameOffLists_chain due a)).trans hrearmed.frame
  · rintro c t d rfl
    exact (congrArg Timer.firedNext (hrearmed.body t)).trans (firedNext_chain a hnd)
  · intro u
    have htakenOut : (a.timer u).lasting = (sys.timer u).lasting := by
      have hself := congrArg Timer.lasting (htaken.body u)
      rw [Timer.lasting_body] at hself
      rw [hself]
      split <;> rfl
    have hchain : ((a.chain due).timer u).lasting = (a.timer u).lasting := by
      rw [timer_chain]
      rfl
    have hlast := congrArg Timer.lasting (hrearmed.body u)
    rw [Timer.lasting_body] at hlast
    exact hlast.trans (hchain.trans htakenOut)
  · intro u hu
    rw [hrearmed.body_of_notMem u hu, hbody u hu, htaken.body, if_neg hu]
  · rw [hrearmed.course, course_chain, htaken.course]

/-! ## The course of a pass -/

/-- The system in which a pass collects: inside the region, with the pass marked. -/
def collecting (sys : System m n) (s : Fin m) (now : Timespec) : System m n :=
  ((sys.enter s).2.modifyScheduler s fun c => { c with dispatching := true }).emit (.began s now)

/-- While a pass is under way another dispatch is logged inside the region, and that is all. -/
theorem begin_of_dispatching (h : sys.dispatching s = true) :
    sys.begin s now =
      (.ignored, ((sys.enter s).2.log s (.reentered now)).leave s (sys.enter s).1) := by
  have henter : ((sys.enter s).2.scheduler s).dispatching = true :=
    (congrFun (dispatching_enter sys s) s).trans h
  simp only [begin, locked, henter, if_true]

/-- A pass that begins collects inside the region, and starts at the first timer of the chain. -/
theorem begin_of_not_dispatching (h : sys.dispatching s = false) :
    sys.begin s now = (.admitted ((sys.collecting s now).collect s now).1,
      ((sys.collecting s now).collect s now).2.leave s (sys.enter s).1) := by
  have henter : ((sys.enter s).2.scheduler s).dispatching = false :=
    (congrFun (dispatching_enter sys s) s).trans h
  simp only [begin, locked, henter]
  rfl

/-- A dispatch that is ignored changes nothing but regions and records. -/
theorem alike_begin_of_dispatching (h : sys.dispatching s = true) (now : Timespec) :
    sys.Alike (sys.begin s now).2 := by
  rw [begin_of_dispatching h]
  exact ((alike_enter sys s).trans (alike_emit _ _)).trans (alike_leave _ s _)

/-- A dispatch that is ignored is no notable event. -/
theorem course_begin_of_dispatching (h : sys.dispatching s = true) (now : Timespec) :
    (sys.begin s now).2.course = sys.course := by
  have hregion : ((sys.enter s).2.log s (.reentered now)).region = (sys.enter s).2.region := rfl
  rw [begin_of_dispatching h]
  exact (course_leave sys s hregion).trans ((course_log _ s _).trans (course_enter sys s))

/-- A pass of `s` has begun, with the timers `due` taken out and chained up. -/
structure Begun (s : Fin m) (now : Timespec) (due : List (Fin n)) (armed : Fin m → List (Fin n))
    (a b : System m n) : Prop where
  sound : ∃ l, b.Sound (Function.update armed s l)
  dispatching : b.dispatching = Function.update a.dispatching s true
  timeout : b.timeout = a.timeout
  chained : ∀ c t d, due = c ++ t :: d → (b.timer t).firedNext = d.head?
  lasting : ∀ u, (b.timer u).lasting = (a.timer u).lasting
  body_of_notMem : ∀ u, u ∉ due → (b.timer u).body = (a.timer u).body
  course : b.course = a.course ++ .began s now :: due.map fun t =>
    .detached s t (a.timer t).deadline

/-- When a pass begins no callback changes. -/
theorem Begun.callback {due : List (Fin n)} (h : Begun s now due armed sys sys') (u : Fin n) :
    (sys'.timer u).callback = (sys.timer u).callback :=
  (congrArg Timer.callback (h.lasting u) :)

/-- When a pass begins, timers that it does not take out keep their links of passes. -/
theorem Begun.firedNext {due : List (Fin n)} (h : Begun s now due armed sys sys') {u : Fin n}
    (hu : u ∉ due) : (sys'.timer u).firedNext = (sys.timer u).firedNext :=
  Timer.apply_eq_of_body_eq Timer.firedNext_body (h.body_of_notMem u hu)

/-- A pass begins with the timers that are due.  They are the first ones of the list. -/
theorem Sound.begin (h : sys.Sound armed) (hidle : sys.dispatching s = false) (now : Timespec) :
    (sys.begin s now).1 =
        .admitted ((armed s).takeWhile (Threaded.isDue sys.timers now)).head? ∧
      Begun s now ((armed s).takeWhile (Threaded.isDue sys.timers now)) armed sys
        (sys.begin s now).2 := by
  have hcollecting : (sys.collecting s now).Sound armed :=
    h.of_eq rfl ((lists_modifyScheduler _ s (by intro _; rfl)).trans (lists_enter sys s))
  rcases hcollecting.collect s now with ⟨hfst, hcollected⟩
  rw [begin_of_not_dispatching hidle]
  generalize (sys.collecting s now).collect s now = found at *
  have htimer : ∀ u, (found.2.leave s (sys.enter s).1).timer u = found.2.timer u :=
    fun u => congrArg (Table.get · u) (timers_leave _ _ _)
  have hregion : found.2.region = (sys.enter s).2.region :=
    hcollected.frame.region.trans (region_modifyScheduler _ s (by intro _; rfl))
  refine ⟨congrArg Admission.admitted hfst, ?_, ?_, ?_, ?_, ?_, ?_, ?_⟩
  · rcases hcollected.sound with ⟨l, hsound⟩
    exact ⟨l, hsound.of_eq (timers_leave _ _ _) (lists_leave _ _ _)⟩
  · rw [dispatching_leave, hcollected.frame.dispatching, collecting, dispatching_emit,
      dispatching_mark, dispatching_enter]
  · rw [timeout_leave, hcollected.frame.timeout, collecting, timeout_emit,
      timeout_modifyScheduler _ s (by intro _; rfl), timeout_enter]
  · intro c t d hcut
    rw [htimer]
    exact hcollected.chained c t d hcut
  · intro u
    rw [htimer]
    exact hcollected.lasting u
  · intro u hu
    rw [htimer]
    exact hcollected.body_of_notMem u hu
  · rw [course_leave sys s hregion, hcollected.course, collecting, course_emit _ rfl,
      course_modifyScheduler, course_enter, List.append_assoc]
    rfl

section Visit

variable (sys : System m n) (s : Fin m) (t u : Fin n)

/-- Coming to a timer reads its binding and the timer after it. -/
theorem visit_fst :
    (sys.visit s t).1 = ⟨(sys.timer t).firedNext,
      (sys.timer t).callback.map fun callback => (callback, (sys.timer t).arg)⟩ :=
  rfl

/-- What coming to a timer does inside the region. -/
theorem visit_snd :
    (sys.visit s t).2 = (((sys.enter s).2.modifyTimer t fun c =>
      { c with firedNext := none }).emit (.visited s t)).leave s (sys.enter s).1 :=
  rfl

/-- Coming to a timer takes its link of a pass away and changes no other cell. -/
theorem timers_visit :
    (sys.visit s t).2.timers = sys.timers.modify t fun c => { c with firedNext := none } := by
  rw [visit_snd, timers_leave, timers_emit, timers_modifyTimer, timers_enter]

/-- Of the timers, a pass changes the one that it comes to. -/
theorem timer_visit :
    (sys.visit s t).2.timer u =
      if u = t then { sys.timer t with firedNext := none } else sys.timer u := by
  rw [timer, timers_visit]
  exact Table.get_modify _ _ _ _

/-- A reading that does not depend on links of passes is the same after coming to a timer. -/
theorem apply_timer_visit {β : Type} {φ : Timer m n → β}
    (h : ∀ c, φ { c with firedNext := none } = φ c) :
    φ ((sys.visit s t).2.timer u) = φ (sys.timer u) := by
  rw [timer, timers_visit]
  exact Table.apply_get_modify h _ _ _

/-- Coming to a timer changes no list. -/
theorem lists_visit : (sys.visit s t).2.lists = sys.lists := by
  rw [visit_snd, lists_leave, lists_emit, lists_modifyTimer, lists_enter]

/-- Coming to a timer changes no marks. -/
theorem dispatching_visit : (sys.visit s t).2.dispatching = sys.dispatching := by
  rw [visit_snd, dispatching_leave, dispatching_emit, dispatching_modifyTimer, dispatching_enter]

/-- Coming to a timer makes no call on the hardware. -/
theorem timeout_visit : (sys.visit s t).2.timeout = sys.timeout := by
  rw [visit_snd, timeout_leave, timeout_emit, timeout_modifyTimer, timeout_enter]

/-- Coming to a timer is noted in the course. -/
theorem course_visit : (sys.visit s t).2.course = sys.course ++ [.visited s t] := by
  rw [visit_snd, course_leave sys s (by rw [region_emit, region_modifyTimer]),
    course_emit _ rfl, course_modifyTimer, course_enter]

end Visit

/-- Coming to a timer keeps systems sound. -/
theorem Sound.visit (h : sys.Sound armed) (s : Fin m) (t : Fin n) :
    (sys.visit s t).2.Sound armed := by
  apply h.of_firedNext (lists_visit sys s t)
  intro u
  rw [timer_visit]
  by_cases hut : u = t
  · rw [if_pos hut, hut]
  · rw [if_neg hut]

/-- The system at the end of a pass, inside the region, when the hardware has been programmed. -/
def programmed (sys : System m n) (s : Fin m) : System m n :=
  ((sys.enter s).2.modifyScheduler s fun c => { c with dispatching := false }).program s

section Finish

variable (sys : System m n) (s : Fin m) (now : Timespec)

/-- What the end of a pass does inside the region. -/
theorem finish_eq :
    sys.finish s now = (((sys.programmed s).log s (.finished now
      ((sys.programmed s).scheduler s).list.len)).emit (.finished s)).leave s (sys.enter s).1 :=
  rfl

/-- The work at the end of a pass changes no list. -/
theorem lists_programmed : (sys.programmed s).lists = sys.lists := by
  rw [programmed, lists_program, lists_modifyScheduler _ s (by intro _; rfl), lists_enter]

/-- The end of a pass changes no timer. -/
theorem timers_finish : (sys.finish s now).timers = sys.timers := by
  rw [finish_eq, timers_leave]
  exact timers_program _ s

/-- The end of a pass changes no list. -/
theorem lists_finish : (sys.finish s now).lists = sys.lists := by
  rw [finish_eq, lists_leave]
  exact lists_programmed sys s

/-- The end of a pass clears the mark of its scheduler and no other. -/
theorem dispatching_finish :
    (sys.finish s now).dispatching = Function.update sys.dispatching s false := by
  rw [finish_eq, dispatching_leave, dispatching_emit, log, dispatching_emit, programmed,
    dispatching_program, dispatching_mark, dispatching_enter]

/-- The end of a pass leaves the timeouts of other schedulers as they are. -/
theorem timeout_finish_of_ne {r : Fin m} (h : r ≠ s) :
    (sys.finish s now).timeout r = sys.timeout r := by
  have hprogrammed : (sys.programmed s).timeout r = sys.timeout r := by
    rw [programmed, timeout_program_of_ne _ s h, timeout_modifyScheduler _ s (by intro _; rfl),
      timeout_enter]
  rw [finish_eq, timeout_leave]
  exact hprogrammed

/-- The end of a pass is noted in the course. -/
theorem course_finish : (sys.finish s now).course = sys.course ++ [.finished s] := by
  have hregion : (sys.programmed s).region = (sys.enter s).2.region := by
    rw [programmed, region_program, region_modifyScheduler _ s (by intro _; rfl)]
  rw [finish_eq, course_leave sys s (by rw [region_emit, log, region_emit, hregion]),
    course_emit _ rfl, course_log, programmed, course_program, course_modifyScheduler,
    course_enter]

/-- At the end of a pass the hardware follows the list. -/
theorem follows_finish {r : Fin m} (h : r ≠ s → sys.Follows r) : (sys.finish s now).Follows r := by
  have hmarked : r ≠ s → ((sys.enter s).2.modifyScheduler s fun c =>
      { c with dispatching := false }).Follows r := by
    intro hr
    refine (h hr).of_eq (congrFun ?_ r) ?_
    · rw [timeout_modifyScheduler _ s (by intro _; rfl), timeout_enter]
    · rw [nextDeadline_eq, nextDeadline_eq, lists_modifyScheduler _ s (by intro _; rfl),
        lists_enter]
      rfl
  refine Follows.of_eq (follows_program hmarked) (congrFun ?_ r) ?_
  · rw [finish_eq, timeout_leave]
    rfl
  · rw [nextDeadline_eq, nextDeadline_eq, finish_eq, timers_leave, lists_leave]
    rfl

end Finish

end System
end SoftTimer
