import SoftTimer.Proofs.Parts

/-!
# Sound systems

A system is sound when the links of each scheduler hold a list, the timers on it are exactly those
that are armed and owned by that scheduler, every armed timer has a callback, and every other timer
has no links.  This file shows that the basic operations keep systems sound, and what becomes of
the lists.

Main results:

- Theorem `System.Sound.eq_armedTimers`: the lists of a sound system are its armed timers.
- Theorem `System.Sound.link`: a disarmed timer is armed and put into its place.
- Theorems `System.Sound.unlink` and `System.Sound.detach`: an armed timer is disarmed and taken
  out.
-/

namespace SoftTimer

/-- What holds of the cells of each timer by themselves: while it is armed it has an owner and a
callback, and while it is not it has no links. -/
structure Timer.Settled {m n : Nat} (t : Timer m n) : Prop where
  owned : t.armed = true → ∃ s, t.owner = some s
  bound : t.armed = true → ∃ callback, t.callback = some callback
  unlinked : t.armed = false → t.prev = none ∧ t.next = none

namespace System

variable {m n : Nat} {sys sys' : System m n} {armed : Fin m → List (Fin n)} {s r : Fin m}
  {t u : Fin n}

/-- The timers armed on each scheduler are given by `armed`. -/
structure Sound (sys : System m n) (armed : Fin m → List (Fin n)) : Prop where
  holds : ∀ s, (sys.threaded s).Holds (armed s)
  mem_iff : ∀ s t,
    t ∈ armed s ↔ (sys.timer t).armed = true ∧ (sys.timer t).owner = some s
  settled : ∀ t, (sys.timer t).Settled

/-- At the start the system is sound, with empty lists. -/
theorem sound_initial (kinds : Fin m → RegionKind) :
    (initial kinds : System m n).Sound fun _ => [] := by
  have htimer : ∀ t, (initial kinds : System m n).timer t = {} := fun t => Table.get_fill _ t
  have hlist : ∀ s, (initial kinds : System m n).lists s = {} := by
    intro s
    simp [initial, lists, scheduler]
  refine ⟨fun s => ?_, ?_, fun t => ?_⟩
  · rw [threaded_eq, hlist]
    refine ⟨List.nodup_nil, ?_, ?_, rfl, List.Pairwise.nil⟩
    · intro a b hcut
      rcases List.append_eq_nil_iff.1 hcut.symm with ⟨rfl, rfl⟩
      rfl
    · intro a b hcut
      rcases List.append_eq_nil_iff.1 hcut.symm with ⟨rfl, rfl⟩
      rfl
  · simp [htimer]
  · rw [htimer]
    exact ⟨by simp, by simp, fun _ => ⟨rfl, rfl⟩⟩

/-- A timer of the list meets the expectation that it is linked and counted. -/
theorem expectLinked_of_holds {l : List (Fin n)} (h : (sys.threaded s).Holds l) (ht : t ∈ l) :
    sys.expectLinked s t = sys := by
  have hlen : (sys.lists s).len = l.length := h.len_eq
  apply expectLinked_eq sys s t (h.isLinked_eq_true ht)
  rw [hlen]
  exact (List.length_pos_of_mem ht).ne'

namespace Sound

/-- Soundness is a matter of the timers and the lists. -/
theorem of_eq (h : sys.Sound armed) (htimers : sys'.timers = sys.timers)
    (hlists : sys'.lists = sys.lists) : sys'.Sound armed := by
  have htimer : ∀ t, sys'.timer t = sys.timer t := fun t => congrArg (Table.get · t) htimers
  have hthreaded : ∀ s, sys'.threaded s = sys.threaded s := by
    intro s
    rw [threaded_eq, threaded_eq, htimers, hlists]
  constructor
  · simpa only [hthreaded] using h.holds
  · simpa only [htimer] using h.mem_iff
  · simpa only [htimer] using h.settled

/-- The lists that a sound system holds are those of the armed timers. -/
theorem eq_armedTimers (h : sys.Sound armed) : armed = sys.armedTimers :=
  funext fun s => (h.holds s).contents_eq.symm

/-- The timers on a list are those that are armed and belong to its scheduler. -/
theorem mem_armedTimers (h : sys.Sound armed) :
    t ∈ sys.armedTimers s ↔ (sys.timer t).armed = true ∧ (sys.timer t).owner = some s := by
  rw [← h.eq_armedTimers]
  exact h.mem_iff s t

/-- The timers on a list are armed. -/
theorem armed_of_mem (h : sys.Sound armed) (ht : t ∈ armed s) : (sys.timer t).armed = true :=
  ((h.mem_iff s t).1 ht).1

/-- The timers on a list belong to its scheduler. -/
theorem owner_of_mem (h : sys.Sound armed) (ht : t ∈ armed s) :
    (sys.timer t).owner = some s :=
  ((h.mem_iff s t).1 ht).2

/-- No timer is armed on two schedulers. -/
theorem eq_of_mem (h : sys.Sound armed) (hs : t ∈ armed s) (hr : t ∈ armed r) : s = r := by
  have heq := (h.owner_of_mem hs).symm.trans (h.owner_of_mem hr)
  simpa using heq

/-- A timer that is not armed is on no list. -/
theorem notMem_of_not_armed (h : sys.Sound armed) (ht : (sys.timer t).armed = false) (s : Fin m) :
    t ∉ armed s := by
  intro hmem
  simp [h.armed_of_mem hmem] at ht

/-- An armed timer that no other scheduler holds is on the list. -/
theorem mem_of_not_held (h : sys.Sound armed) (ht : (sys.timer t).armed = true)
    (hheld : (sys.timer t).heldByOther s = false) : t ∈ armed s := by
  rcases (h.settled t).owned ht with ⟨r, hr⟩
  rw [h.mem_iff]
  refine ⟨ht, ?_⟩
  rw [Timer.heldByOther, hr] at hheld
  rw [hr, (by simpa using hheld : r = s)]

/-- A change to a disarmed timer leaves every list as it is. -/
theorem holds_modifyTimer_of_not_armed (h : sys.Sound armed) (ht : (sys.timer t).armed = false)
    (f : Timer m n → Timer m n) (s : Fin m) :
    ((sys.modifyTimer t f).threaded s).Holds (armed s) := by
  refine (h.holds s).congr rfl ?_
  intro u hu
  have hut : u ≠ t := fun heq => h.notMem_of_not_armed ht s (heq ▸ hu)
  have hcell := timer_modifyTimer_of_ne sys hut f
  exact ⟨congrArg Timer.prev hcell, congrArg Timer.next hcell, congrArg Timer.deadline hcell⟩

/-- Changing cells of a disarmed timer that stays unlinked keeps a system sound. -/
theorem modifyTimer (h : sys.Sound armed) (ht : (sys.timer t).armed = false)
    {f : Timer m n → Timer m n} (hf : (f (sys.timer t)).armed = false)
    (hlinks : (f (sys.timer t)).prev = none ∧ (f (sys.timer t)).next = none) :
    (sys.modifyTimer t f).Sound armed := by
  have hself : (sys.modifyTimer t f).timer t = f (sys.timer t) := timer_modifyTimer_self sys t f
  have hother : ∀ u, u ≠ t → (sys.modifyTimer t f).timer u = sys.timer u :=
    fun u hu => timer_modifyTimer_of_ne sys hu f
  refine ⟨h.holds_modifyTimer_of_not_armed ht f, ?_, ?_⟩
  · intro s u
    by_cases hu : u = t
    · subst hu
      simp [hself, hf, h.notMem_of_not_armed ht s]
    · rw [hother u hu, h.mem_iff]
  · intro u
    by_cases hu : u = t
    · subst hu
      rw [hself]
      exact ⟨by simp [hf], by simp [hf], fun _ => hlinks⟩
    · rw [hother u hu]
      exact h.settled u

/-- A change of the list of one scheduler that concerns one timer only.  The other timers keep their
cells but for links, and timers off that list keep their links too. -/
theorem update (h : sys.Sound armed) {y : Threaded m n} {l : List (Fin n)} (hy : y.Holds l)
    (htimers : sys'.timers = y.cells) (hlists : sys'.lists = Function.update sys.lists s y.list)
    (hmem : ∀ u, u ≠ t → (u ∈ l ↔ u ∈ armed s))
    (hcell : ∀ u, u ∉ armed s → u ≠ t → sys'.timer u = sys.timer u)
    (hbody : ∀ u, u ≠ t → (sys'.timer u).body = (sys.timer u).body)
    (hoff : ∀ r, r ≠ s → t ∉ armed r)
    (hself : ∀ r, t ∈ Function.update armed s l r ↔
      (sys'.timer t).armed = true ∧ (sys'.timer t).owner = some r)
    (hsettled : (sys'.timer t).Settled) : sys'.Sound (Function.update armed s l) := by
  have hmark : ∀ u, u ≠ t → (sys'.timer u).armed = (sys.timer u).armed :=
    fun u hu => Timer.apply_eq_of_body_eq Timer.armed_body (hbody u hu)
  have hholder : ∀ u, u ≠ t → (sys'.timer u).owner = (sys.timer u).owner :=
    fun u hu => Timer.apply_eq_of_body_eq Timer.owner_body (hbody u hu)
  have hcallback : ∀ u, u ≠ t → (sys'.timer u).callback = (sys.timer u).callback :=
    fun u hu => Timer.apply_eq_of_body_eq Timer.callback_body (hbody u hu)
  constructor
  · intro r
    rw [threaded_eq, htimers, hlists]
    by_cases hr : r = s
    · subst hr
      rwa [Function.update_self, Function.update_self]
    · rw [Function.update_of_ne hr, Function.update_of_ne hr]
      refine (h.holds r).congr rfl ?_
      intro u hu
      have hsame : y.cells.get u = sys.timer u :=
        (congrArg (Table.get · u) htimers).symm.trans
          (hcell u (fun hs => hr (h.eq_of_mem hu hs)) (fun heq => hoff r hr (heq ▸ hu)))
      exact ⟨congrArg Timer.prev hsame, congrArg Timer.next hsame, congrArg Timer.deadline hsame⟩
  · intro r u
    by_cases hu : u = t
    · rw [hu, hself r]
    · rw [hmark u hu, hholder u hu, ← h.mem_iff]
      by_cases hr : r = s
      · subst hr
        rw [Function.update_self, hmem u hu]
      · rw [Function.update_of_ne hr]
  · intro u
    by_cases hu : u = t
    · rwa [hu]
    · constructor
      · rw [hmark u hu, hholder u hu]
        exact (h.settled u).owned
      · rw [hmark u hu, hcallback u hu]
        exact (h.settled u).bound
      · intro hmarked
        rw [hmark u hu] at hmarked
        rw [hcell u (h.notMem_of_not_armed hmarked s) hu]
        exact (h.settled u).unlinked hmarked

/-! ## Linking -/

/-- The place of a disarmed timer does not depend on its own cells. -/
theorem placed_modifyTimer (h : sys.Sound armed) (ht : (sys.timer t).armed = false)
    (f : Timer m n → Timer m n) (s : Fin m) :
    placed (Threaded.isDue ((sys.modifyTimer t f).threaded s).cells
      (((sys.modifyTimer t f).threaded s).cells.get t).deadline) t (armed s) =
        placed (Threaded.isDue sys.timers (f (sys.timer t)).deadline) t (armed s) := by
  have hself : ((sys.modifyTimer t f).threaded s).cells.get t = f (sys.timer t) :=
    timer_modifyTimer_self sys t f
  rw [hself]
  apply placed_congr
  intro u hu
  have hut : u ≠ t := fun heq => h.notMem_of_not_armed ht s (heq ▸ hu)
  have hcell : ((sys.modifyTimer t f).threaded s).cells.get u = sys.timers.get u :=
    timer_modifyTimer_of_ne sys hut f
  simp only [Threaded.isDue, hcell]

/-- A disarmed timer is reported to have become the head exactly when its place is there. -/
theorem link_fst (h : sys.Sound armed) (ht : (sys.timer t).armed = false)
    (f : Timer m n → Timer m n) (s : Fin m) :
    ((sys.modifyTimer t f).link s t).1 = true ↔
      (placed (Threaded.isDue sys.timers (f (sys.timer t)).deadline) t (armed s)).head? =
        some t := by
  rw [← h.placed_modifyTimer ht f s]
  exact (h.holds_modifyTimer_of_not_armed ht f s).insert_fst (h.notMem_of_not_armed ht s)

/-- A disarmed timer that is armed for a scheduler and linked into its list takes the place behind
all timers that are not due after it. -/
theorem link (h : sys.Sound armed) (ht : (sys.timer t).armed = false)
    {f : Timer m n → Timer m n} (harmed : (f (sys.timer t)).armed = true)
    (howner : (f (sys.timer t)).owner = some s)
    (hbound : ∃ callback, (f (sys.timer t)).callback = some callback) :
    ((sys.modifyTimer t f).link s t).2.Sound
      (Function.update armed s
        (placed (Threaded.isDue sys.timers (f (sys.timer t)).deadline) t (armed s))) := by
  have hother : ∀ u, u ≠ t → (sys.modifyTimer t f).timer u = sys.timer u :=
    fun u hu => timer_modifyTimer_of_ne sys hu f
  have hheld := h.holds_modifyTimer_of_not_armed ht f s
  have hplaced := hheld.insert (h.notMem_of_not_armed ht s)
  have hbody : ∀ u, u ≠ t →
      (((sys.modifyTimer t f).link s t).2.timer u).body = (sys.timer u).body :=
    fun u hu => by rw [body_link, hother u hu]
  have hself : (((sys.modifyTimer t f).link s t).2.timer t).body = (f (sys.timer t)).body := by
    rw [body_link, timer_modifyTimer_self]
  have hmark : (((sys.modifyTimer t f).link s t).2.timer t).armed = true :=
    (Timer.apply_eq_of_body_eq Timer.armed_body hself).trans harmed
  have hholder : (((sys.modifyTimer t f).link s t).2.timer t).owner = some s :=
    (Timer.apply_eq_of_body_eq Timer.owner_body hself).trans howner
  have hcallback : ∃ callback,
      (((sys.modifyTimer t f).link s t).2.timer t).callback = some callback := by
    rwa [Timer.apply_eq_of_body_eq Timer.callback_body hself]
  rw [← h.placed_modifyTimer ht f s]
  refine h.update hplaced rfl (lists_link _ _ _) ?_ ?_ hbody ?_ ?_ ?_
  · intro u hu
    simp [hu]
  · intro u hu hut
    exact (hheld.get_insert_of_notMem hu hut).trans (hother u hut)
  · exact fun r _ => h.notMem_of_not_armed ht r
  · intro r
    rw [hmark, hholder]
    by_cases hr : r = s
    · subst hr
      simp
    · simp [Function.update_of_ne hr, h.notMem_of_not_armed ht r, Ne.symm hr]
  · exact ⟨fun _ => ⟨s, hholder⟩, fun _ => hcallback, fun hu => by simp [hmark] at hu⟩

/-! ## Unlinking -/

/-- Taking an armed timer out of its list and disarming it, in whatever order, leaves the list
without it. -/
theorem erase (h : sys.Sound armed) (ht : t ∈ armed s) {y : Threaded m n}
    (hy : y.Holds ((armed s).erase t)) (htimers : sys'.timers = y.cells)
    (hlists : sys'.lists = Function.update sys.lists s y.list)
    (hcell : ∀ u, u ∉ armed s → sys'.timer u = sys.timer u)
    (hbody : ∀ u, u ≠ t → (sys'.timer u).body = (sys.timer u).body)
    (hself : sys'.timer t = { (sys.timer t).body with armed := false }) :
    sys'.Sound (Function.update armed s ((armed s).erase t)) := by
  have hoff : ∀ r, r ≠ s → t ∉ armed r := fun r hr hmem => hr (h.eq_of_mem hmem ht)
  refine h.update hy htimers hlists ?_ (fun u hu _ => hcell u hu) hbody hoff ?_ ?_
  · intro u hu
    exact List.mem_erase_of_ne hu
  · intro r
    by_cases hr : r = s
    · subst hr
      simp [hself, (h.holds r).nodup.not_mem_erase]
    · simp [Function.update_of_ne hr, hself, hoff r hr]
  · rw [hself]
    exact ⟨by simp, by simp, fun _ => ⟨rfl, rfl⟩⟩

/-- Changes that spare links and deadlines leave every list as it is. -/
theorem holds_modifyTimer (h : sys.Sound armed) {f : Timer m n → Timer m n}
    (hprev : ∀ c, (f c).prev = c.prev) (hnext : ∀ c, (f c).next = c.next)
    (hdeadline : ∀ c, (f c).deadline = c.deadline) (t : Fin n) (s : Fin m) :
    ((sys.modifyTimer t f).threaded s).Holds (armed s) :=
  (h.holds s).congr rfl fun u _ =>
    ⟨apply_timer_modifyTimer sys t u hprev, apply_timer_modifyTimer sys t u hnext,
      apply_timer_modifyTimer sys t u hdeadline⟩

/-- The links do not depend on the mark that a timer is armed. -/
theorem holds_disarmed (h : sys.Sound armed) (t : Fin n) (s : Fin m) :
    ((sys.modifyTimer t fun c => { c with armed := false }).threaded s).Holds (armed s) :=
  h.holds_modifyTimer (by intro _; rfl) (by intro _; rfl) (by intro _; rfl) t s

/-- A timer that is disarmed and then unlinked leaves the list. -/
theorem unlink (h : sys.Sound armed) (ht : t ∈ armed s) :
    ((sys.modifyTimer t fun c => { c with armed := false }).unlink s t).2.Sound
      (Function.update armed s ((armed s).erase t)) := by
  have hheld := h.holds_disarmed t s
  refine h.erase ht (hheld.erase ht) rfl (lists_unlink _ _ _) ?_ ?_ ?_
  · intro u hu
    have hut : u ≠ t := fun heq => hu (heq ▸ ht)
    exact (hheld.get_remove_of_notMem ht hu).trans (timer_modifyTimer_of_ne sys hut _)
  · intro u hu
    rw [body_unlink, timer_modifyTimer_of_ne sys hu]
  · have hself := hheld.get_remove_self ht
    rw [show ((sys.modifyTimer t fun c => { c with armed := false }).threaded s).cells.get t =
      { sys.timer t with armed := false } from timer_modifyTimer_self sys t _] at hself
    exact hself

/-- A timer that is unlinked and then disarmed leaves the list. -/
theorem detach (h : sys.Sound armed) (ht : t ∈ armed s) :
    ((sys.setThreaded s ((sys.threaded s).remove t).2).modifyTimer t
      fun c => { c with armed := false }).Sound
        (Function.update armed s ((armed s).erase t)) := by
  have hheld := h.holds s
  have hself : (sys.setThreaded s ((sys.threaded s).remove t).2).timer t = (sys.timer t).body :=
    hheld.get_remove_self ht
  refine h.erase ht (y := ⟨((sys.threaded s).remove t).2.list, _⟩) ?_ rfl
    (lists_setThreaded _ _ _) ?_ ?_ ?_
  · refine (hheld.erase ht).congr rfl ?_
    intro u _
    exact ⟨Table.apply_get_modify (φ := Timer.prev) (by intro _; rfl) _ _ _,
      Table.apply_get_modify (φ := Timer.next) (by intro _; rfl) _ _ _,
      Table.apply_get_modify (φ := Timer.deadline) (by intro _; rfl) _ _ _⟩
  · intro u hu
    have hut : u ≠ t := fun heq => hu (heq ▸ ht)
    rw [timer_modifyTimer_of_ne _ hut]
    exact hheld.get_remove_of_notMem ht hu
  · intro u hu
    rw [timer_modifyTimer_of_ne _ hu]
    exact Threaded.body_remove _ _ _
  · rw [timer_modifyTimer_self, hself]

/-- What is taken out as expired is the first timer of the list, if it is due. -/
theorem unlinkExpired_eq (h : sys.Sound armed) (s : Fin m) (now : Timespec) :
    sys.unlinkExpired s now =
      ((armed s).takeWhile (Threaded.isDue sys.timers now)).head?.map fun t =>
        (t, sys.setThreaded s ((sys.threaded s).remove t).2) := by
  have hexpired := (h.holds s).expired?_eq now
  rw [unlinkExpired, Threaded.popExpired, hexpired, Option.map_map]
  apply Option.map_congr
  intro t ht
  have hmem : t ∈ armed s := List.takeWhile_subset _ (List.mem_of_head? ht)
  simp only [Function.comp_apply, expectLinked_of_holds (h.holds s) hmem]

end Sound

end System
end SoftTimer
