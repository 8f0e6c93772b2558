import Mathlib.Data.List.Dedup
import SoftTimer.Proofs.Insertion
import SoftTimer.Proofs.Isolation

/-!
# The order of the list

The list of a scheduler has its timers in the order of their deadlines, and those with equal
deadlines in the order in which they were last put in.  So the deadlines and the order of the
insertions determine the list, whatever else was done before.

Main definitions:

- `Sequenced`: the elements of a list with equal keys stand in the order of their latest insertions.
- `System.Ordered`: a sound system in which every list is sequenced.

Main results:

- Theorem `Sequenced.eq_of_perm`: keys and the order of insertions determine a sequenced list.
- Theorem `Sequenced.eq_mergeSort`: a sequenced list is the stable sort of its elements.
- Theorem `Moment.Reachable.ordered`: every reachable system is ordered.
-/

namespace SoftTimer

/-! ## Lists in the order of keys and insertions -/

section Sequenced

variable {α : Type} {l l' : List α} {t u : α}

/-- No two elements of a list without duplicates stand in both orders. -/
theorem not_pair_sublist_swap (hl : l.Nodup) (h : [t, u].Sublist l) : ¬ [u, t].Sublist l := by
  induction l with
  | nil => simp at h
  | cons v l ih =>
    rcases List.nodup_cons.1 hl with ⟨hv, hrest⟩
    intro hswap
    rcases h with _ | ⟨_, h⟩ | ⟨_, h⟩
    · rcases hswap with _ | ⟨_, hswap⟩ | ⟨_, hswap⟩
      · exact ih hrest h hswap
      · exact hv (h.subset (by simp))
    · rcases hswap with _ | ⟨_, hswap⟩ | ⟨_, hswap⟩
      · exact hv (hswap.subset (by simp))
      · exact hv (h.subset (by simp))

/-- Two elements of a list stand in one order or the other. -/
theorem pair_sublist_or_swap (ht : t ∈ l) (hu : u ∈ l) (hne : t ≠ u) :
    [t, u].Sublist l ∨ [u, t].Sublist l := by
  rcases List.append_of_mem ht with ⟨a, b, rfl⟩
  have hrest : u ∈ a ∨ u ∈ b := by simpa [hne.symm] using hu
  rcases hrest with hu | hu
  · exact .inr ((List.singleton_sublist.2 hu).append (List.singleton_sublist.2 List.mem_cons_self))
  · exact .inl ((List.nil_sublist a).append
      (List.cons_sublist_cons.2 (List.singleton_sublist.2 hu)))

/-- Two elements in order that both satisfy `p` are in order among those that do. -/
theorem pair_sublist_filter {p : α → Bool} (h : [t, u].Sublist l) (ht : p t = true)
    (hu : p u = true) : [t, u].Sublist (l.filter p) := by
  have hkept := h.filter p
  rwa [List.filter_cons_of_pos ht, List.filter_cons_of_pos hu, List.filter_nil] at hkept

/-- Order by keys is transitive. -/
theorem le_trans_key (key : α → Timespec) (t u v : α) (htu : decide (key t ≤ key u) = true)
    (huv : decide (key u ≤ key v) = true) : decide (key t ≤ key v) = true :=
  decide_eq_true (Std.le_trans (of_decide_eq_true htu) (of_decide_eq_true huv))

/-- Order by keys is total. -/
theorem le_total_key (key : α → Timespec) (t u : α) :
    (decide (key t ≤ key u) || decide (key u ≤ key t)) = true := by
  rw [Bool.or_eq_true, decide_eq_true_eq, decide_eq_true_eq]
  exact Std.le_total

variable [DecidableEq α]

/-- Of all the elements the latest occurrences are kept: new ones take the place behind the rest. -/
theorem dedup_append_of_nodup (l : List α) {new : List α} (hnew : new.Nodup) :
    (l ++ new).dedup = (l.dedup.filter fun t => decide (t ∉ new)) ++ new := by
  induction l with
  | nil => simpa using hnew.dedup
  | cons v l ih =>
    rw [List.cons_append]
    by_cases hv : v ∈ l
    · rw [List.dedup_cons_of_mem (List.mem_append_left new hv), List.dedup_cons_of_mem hv, ih]
    · rw [List.dedup_cons_of_notMem hv]
      by_cases hmem : v ∈ new
      · rw [List.dedup_cons_of_mem (List.mem_append_right l hmem), ih,
          List.filter_cons_of_neg (by simpa using hmem)]
      · rw [List.dedup_cons_of_notMem (by simp [hv, hmem]), ih,
          List.filter_cons_of_pos (by simpa using hmem), List.cons_append]

variable {key key' : α → Timespec} {ins : List α}

/-- The order among elements with equal keys does not depend on the order in which elements with
different keys were added last. -/
theorem pair_sublist_dedup_of_perm (key : α → Timespec) {new new' : List α}
    (hperm : new.Perm new') (hnd : (new.map key).Nodup) (heq : key t = key u)
    (h : [t, u].Sublist (l ++ new).dedup) : [t, u].Sublist (l ++ new').dedup := by
  have hnew : new.Nodup := hnd.of_map key
  have hold : (l.dedup.filter fun t => decide (t ∉ new)) =
      l.dedup.filter fun t => decide (t ∉ new') := by
    refine List.filter_congr fun v _ => ?_
    rw [decide_eq_decide, hperm.mem_iff]
  rw [dedup_append_of_nodup l hnew, hold] at h
  rw [dedup_append_of_nodup l (hperm.nodup_iff.1 hnew)]
  rcases List.sublist_append_iff.1 h with ⟨l₁, l₂, hcut, hleft, hright⟩
  rcases l₁ with _ | ⟨v, _ | ⟨w, l₁⟩⟩
  · -- both were added, so their keys differ
    obtain rfl : [t, u] = l₂ := hcut
    have hkeys : ([t, u].map key).Nodup := hnd.sublist (hright.map key)
    simp [heq] at hkeys
  · rcases List.cons.inj hcut with ⟨rfl, hrest⟩
    obtain rfl : [u] = l₂ := hrest
    have hu := hperm.subset (List.singleton_sublist.1 hright)
    exact hleft.append (List.singleton_sublist.2 hu)
  · rcases List.cons.inj hcut with ⟨rfl, hrest⟩
    rcases List.cons.inj hrest with ⟨rfl, hnil⟩
    obtain rfl : l₁ = [] := (List.append_eq_nil_iff.1 hnil.symm).1
    exact hleft.trans (List.sublist_append_left _ _)

/-- The elements of a list occur in a record of insertions, and those with equal keys stand in the
order of their latest ones. -/
structure Sequenced (key : α → Timespec) (ins l : List α) : Prop where
  subset : l ⊆ ins
  ties : l.Pairwise fun t u => key t = key u → [t, u].Sublist ins.dedup

namespace Sequenced

/-- The empty list is in sequence. -/
theorem nil (key : α → Timespec) (ins : List α) : Sequenced key ins [] :=
  ⟨List.nil_subset _, List.Pairwise.nil⟩

/-- A part of a list in sequence is in sequence, if the keys are the same. -/
theorem sublist (h : Sequenced key ins l) (hsub : l'.Sublist l)
    (hkey : ∀ t ∈ l', key' t = key t) : Sequenced key' ins l' := by
  refine ⟨fun t ht => h.subset (hsub.subset ht), (h.ties.sublist hsub).imp_of_mem ?_⟩
  intro t u ht hu htie heq
  rw [hkey t ht, hkey u hu] at heq
  exact htie heq

/-- An element that is inserted and placed by its key comes behind those with an equal key. -/
theorem placed (h : Sequenced key ins l) (hl : l.Pairwise fun t u => key t ≤ key u) (ht : t ∉ l) :
    Sequenced key (ins ++ [t]) (placed (fun u => decide (key u ≤ key t)) t l) := by
  have hdedup : (ins ++ [t]).dedup = (ins.dedup.filter fun u => decide (u ∉ [t])) ++ [t] :=
    dedup_append_of_nodup ins (List.nodup_singleton t)
  have hmem : ∀ u ∈ l, u ∈ ins.dedup.filter fun u => decide (u ∉ [t]) := by
    intro u hu
    rw [List.mem_filter, List.mem_dedup]
    exact ⟨h.subset hu, by simpa using fun heq : u = t => ht (heq ▸ hu)⟩
  have hties : l.Pairwise fun u v => key u = key v → [u, v].Sublist (ins ++ [t]).dedup := by
    refine h.ties.imp_of_mem fun {u v} hu hv htie heq => ?_
    rw [hdedup]
    exact (pair_sublist_filter (htie heq) (List.mem_filter.1 (hmem u hu)).2
      (List.mem_filter.1 (hmem v hv)).2).trans (List.sublist_append_left _ _)
  rw [← List.takeWhile_append_dropWhile (p := fun u => decide (key u ≤ key t)) (l := l),
    List.pairwise_append] at hties
  rcases hties with ⟨hbefore, hbehind, hacross⟩
  refine ⟨?_, List.pairwise_append.2 ⟨hbefore, List.pairwise_cons.2 ⟨?_, hbehind⟩, ?_⟩⟩
  · intro u hu
    rcases mem_placed.1 hu with rfl | hu
    · simp
    · exact List.mem_append_left _ (h.subset hu)
  · intro v hv heq
    exact absurd (heq ▸ Std.le_refl (key v)) (lt_of_mem_dropWhile hl hv)
  · intro u hu v hv
    rcases List.mem_cons.1 hv with rfl | hv
    · intro _
      rw [hdedup]
      exact (List.singleton_sublist.2 (hmem u (List.takeWhile_subset _ hu))).append
        (List.Sublist.refl [v])
    · exact hacross u hu v hv

/-- Lists of the same elements in the order of keys agree if ties are inserted in the same order. -/
theorem eq_of_perm {ins' : List α} (h : Sequenced key ins l) (h' : Sequenced key ins' l')
    (hl : l.Pairwise fun t u => key t ≤ key u) (hl' : l'.Pairwise fun t u => key t ≤ key u)
    (hperm : l.Perm l')
    (hties : ∀ t u, t ∈ l → u ∈ l → key t = key u → [t, u].Sublist ins.dedup →
      [t, u].Sublist ins'.dedup) : l = l' := by
  have hsorted : l.Pairwise fun t u =>
      key t ≤ key u ∧ (key t = key u → [t, u].Sublist ins'.dedup) :=
    hl.and (h.ties.imp_of_mem fun {t u} ht hu htie heq => hties t u ht hu heq (htie heq))
  refine hperm.eq_of_pairwise (fun t u _ _ htu hut => ?_) hsorted (hl'.and h'.ties)
  have heq := Std.le_antisymm htu.1 hut.1
  exact absurd (hut.2 heq.symm) (not_pair_sublist_swap (List.nodup_dedup ins') (htu.2 heq))

/-- A stable sort keeps elements with equal keys in the order of their insertions. -/
theorem mergeSort (key : α → Timespec) (hsub : l.Sublist ins.dedup) :
    Sequenced key ins (l.mergeSort fun t u => decide (key t ≤ key u)) := by
  have hperm := List.mergeSort_perm l fun t u => decide (key t ≤ key u)
  have hnd := hperm.nodup_iff.2 ((List.nodup_dedup ins).sublist hsub)
  refine ⟨fun t ht => List.mem_dedup.1 (hsub.subset (hperm.subset ht)),
    List.pairwise_iff_forall_sublist.2 fun {t u} htu heq => ?_⟩
  have hmem : ∀ v ∈ [t, u], v ∈ l := fun v hv => hperm.subset (htu.subset hv)
  have hne : t ≠ u := by simpa using hnd.sublist htu
  rcases pair_sublist_or_swap (hmem t (by simp)) (hmem u (by simp)) hne with hpair | hpair
  · exact hpair.trans hsub
  · -- the sort would have kept them in this order
    have hle : decide (key u ≤ key t) = true := decide_eq_true (heq ▸ Std.le_refl (key t))
    exact absurd (List.pair_sublist_mergeSort (le_trans_key key) (le_total_key key) hle hpair)
      (not_pair_sublist_swap hnd htu)

/-- A list in the order of keys, with ties in the order of insertions, is the stable sort of its
elements in the order of their latest insertions. -/
theorem eq_mergeSort (h : Sequenced key ins l) (hl : l.Pairwise fun t u => key t ≤ key u)
    (hnd : l.Nodup) {p : α → Bool} (hp : ∀ t, p t = true ↔ t ∈ l) :
    l = (ins.dedup.filter p).mergeSort fun t u => decide (key t ≤ key u) := by
  refine h.eq_of_perm (.mergeSort key List.filter_sublist) hl
    ((List.pairwise_mergeSort (le_trans_key key) (le_total_key key) _).imp of_decide_eq_true) ?_
      fun _ _ _ _ _ htie => htie
  refine ((List.perm_ext_iff_of_nodup hnd ((List.nodup_dedup ins).filter p)).2 fun t => ?_).trans
    (List.mergeSort_perm _ _).symm
  rw [List.mem_filter, List.mem_dedup, hp]
  exact ⟨fun ht => ⟨h.subset ht, ht⟩, And.right⟩

end Sequenced
end Sequenced

variable {m n : Nat}

namespace System

variable {sys sys' : System m n} {armed armed' : Fin m → List (Fin n)} {s : Fin m} {t : Fin n}
  {now : Timespec}

/-! ## Ordered systems -/

/-- The lists have timers with equal deadlines in the order of their latest insertions. -/
def InOrder (sys : System m n) (armed : Fin m → List (Fin n)) : Prop :=
  ∀ s, Sequenced (fun t => (sys.timer t).deadline) (sys.insertions s) (armed s)

/-- Taking timers out of lists leaves the others in order. -/
theorem InOrder.sublist (h : sys.InOrder armed) (hsub : ∀ s, (armed' s).Sublist (armed s))
    (hdeadline : ∀ s, ∀ t ∈ armed' s, (sys'.timer t).deadline = (sys.timer t).deadline)
    (hinsertions : ∀ s, sys'.insertions s = sys.insertions s) : sys'.InOrder armed' := by
  intro s
  rw [hinsertions]
  exact (h s).sublist (hsub s) (hdeadline s)

/-- A disarmed timer that is put into a list takes its place behind all that are not due after it,
and it is the latest one that was put in. -/
theorem InOrder.link (h : sys.InOrder armed) (hsound : sys.Sound armed)
    (ht : (sys.timer t).armed = false) (f : Timer m n → Timer m n) :
    ((sys.modifyTimer t f).link s t).2.InOrder (Function.update armed s
      (placed (Threaded.isDue sys.timers (f (sys.timer t)).deadline) t (armed s))) := by
  have hdeadline : ∀ u, (((sys.modifyTimer t f).link s t).2.timer u).deadline =
      if u = t then (f (sys.timer t)).deadline else (sys.timer u).deadline := by
    intro u
    rw [Timer.apply_eq_of_body_eq Timer.deadline_body (body_link _ s t u), timer_modifyTimer]
    split <;> rfl
  have hother : ∀ r, ∀ u ∈ armed r, (((sys.modifyTimer t f).link s t).2.timer u).deadline =
      (sys.timer u).deadline := by
    intro r u hu
    rw [hdeadline, if_neg fun heq : u = t => hsound.notMem_of_not_armed ht r (heq ▸ hu)]
  intro r
  have hkept := (h r).sublist (List.Sublist.refl _) (hother r)
  rw [insertions_link, insertions_modifyTimer]
  by_cases hr : r = s
  · subst hr
    have hascending := (hsound.holds r).ascending.imp_of_mem (S := fun u v =>
      (((sys.modifyTimer t f).link r t).2.timer u).deadline ≤
        (((sys.modifyTimer t f).link r t).2.timer v).deadline) (by
      intro u v hu hv hle
      rwa [hother r u hu, hother r v hv])
    have hplaced := hkept.placed hascending (hsound.notMem_of_not_armed ht r)
    rw [Function.update_self, if_pos rfl]
    rwa [placed_congr (q := Threaded.isDue sys.timers (f (sys.timer t)).deadline)] at hplaced
    intro u hu
    rw [hother r u hu, hdeadline, if_pos rfl]
    rfl
  · rw [Function.update_of_ne hr, if_neg (Ne.symm hr), List.append_nil]
    exact hkept

/-- The system is sound, and its lists are in order. -/
def Ordered (sys : System m n) : Prop :=
  ∃ armed, sys.Sound armed ∧ sys.InOrder armed

/-- At the start the lists are in order. -/
theorem ordered_initial (kinds : Fin m → RegionKind) : (initial kinds : System m n).Ordered :=
  ⟨_, sound_initial kinds, fun _ => .nil _ _⟩

namespace Ordered

/-- A system that is like an ordered one, with the same insertions, is ordered. -/
theorem of_alike (h : sys.Ordered) (hab : sys.Alike sys')
    (hinsertions : ∀ s, sys'.insertions s = sys.insertions s) : sys'.Ordered := by
  rcases h with ⟨armed, hsound, horder⟩
  refine ⟨armed, hsound.of_eq hab.timers hab.lists,
    horder.sublist (fun _ => List.Sublist.refl _) (fun _ u _ => ?_) hinsertions⟩
  rw [timer, hab.timers, timer]

/-- Changing a disarmed timer that stays unlinked leaves the lists in order. -/
theorem modifyTimer (h : sys.Ordered) (ht : (sys.timer t).armed = false)
    {f : Timer m n → Timer m n} (hf : (f (sys.timer t)).armed = false)
    (hlinks : (f (sys.timer t)).prev = none ∧ (f (sys.timer t)).next = none) :
    (sys.modifyTimer t f).Ordered := by
  rcases h with ⟨armed, hsound, horder⟩
  refine ⟨armed, hsound.modifyTimer ht hf hlinks,
    horder.sublist (fun _ => List.Sublist.refl _) (fun s u hu => ?_) fun _ => rfl⟩
  have hut : u ≠ t := fun heq => hsound.notMem_of_not_armed ht s (heq ▸ hu)
  rw [timer_modifyTimer_of_ne sys hut]

/-- Programming the hardware keeps the order. -/
theorem program (h : sys.Ordered) (s : Fin m) : (sys.program s).Ordered := by
  rcases h with ⟨armed, hsound, horder⟩
  exact ⟨armed, hsound.program s, horder.sublist (fun _ => List.Sublist.refl _)
    (fun _ u _ => congrArg Timer.deadline (timer_program sys s u))
    fun r => insertions_program sys s r⟩

/-- Linking a disarmed timer, which is armed in doing so, keeps the order. -/
theorem link (h : sys.Ordered) (ht : (sys.timer t).armed = false) {f : Timer m n → Timer m n}
    (harmed : (f (sys.timer t)).armed = true) (howner : (f (sys.timer t)).owner = some s)
    (hbound : ∃ callback, (f (sys.timer t)).callback = some callback) :
    ((sys.modifyTimer t f).link s t).2.Ordered := by
  rcases h with ⟨armed, hsound, horder⟩
  exact ⟨_, hsound.link ht harmed howner hbound, horder.link hsound ht f⟩

/-- Disarming a timer that no other scheduler holds keeps the order. -/
theorem disarm (h : sys.Ordered) (hheld : (sys.timer t).heldByOther s = false) :
    (sys.disarm s t).Ordered := by
  rcases h with ⟨armed, hsound, horder⟩
  refine ⟨_, hsound.disarm hheld, horder.sublist (fun r => ?_) (fun r u _ => ?_)
    fun r => insertions_disarm sys s r t⟩
  · by_cases hr : r = s
    · subst hr
      rw [Function.update_self]
      exact List.erase_sublist
    · rw [Function.update_of_ne hr]
  · have hbody := congrArg Timer.deadline (body_disarm sys s t u)
    rw [Timer.deadline_body] at hbody
    rw [hbody]
    split
    · next hut => exact congrArg (fun u => (sys.timer u).deadline) hut.symm
    · rfl

/-- Scheduling a disarmed timer that is bound keeps the order. -/
theorem schedule (h : sys.Ordered) (harmed : (sys.timer t).armed = false)
    {callback : CallbackId} (hbound : (sys.timer t).callback = some callback)
    (priority : PriorityClass) (deadline period : Timespec) :
    (sys.schedule s t priority deadline period).Ordered := by
  have hlink := h.link (s := s) harmed
    (f := fun c => { c with deadline, period, priority, armed := true, owner := some s })
    rfl rfl ⟨callback, hbound⟩
  rw [schedule_eq]
  dsimp only
  split
  · exact hlink.program s
  · exact hlink

/-! ### Commands -/

/-- The work of a command that admits it keeps the order. -/
theorem carryOut (h : sys.Ordered) {c : Command (Option (Fin n))} (hc : c.Admits s (sys.timer t)) :
    (sys.carryOut s t c).Ordered := by
  cases c with
  | init timer callback arg =>
    exact h.modifyTimer (f := fun c => c.reset callback arg) hc.2 rfl ⟨rfl, rfl⟩
  | deinit timer =>
    exact (h.disarm hc).modifyTimer (f := fun c => c.reset none .none) (armed_disarm sys s t) rfl
      ⟨rfl, rfl⟩
  | arm timer priority deadline period =>
    rcases hc with ⟨-, harmed, callback, hbound⟩
    exact h.schedule harmed hbound priority _ _
  | cancel timer => exact h.disarm hc

/-- Commands keep the order. -/
theorem command (h : sys.Ordered) (s : Fin m) (c : Command (Option (Fin n))) :
    (sys.command s c).2.Ordered := by
  rcases houtcome : (sys.command s c).1 with cause | ⟨⟩
  · exact h.of_alike (alike_command_of_error houtcome) (insertions_command_of_error houtcome)
  · rcases command_of_ok houtcome with ⟨t, -, hc, heq⟩
    have henter : (sys.enter s).2.Ordered :=
      h.of_alike (alike_enter sys s) (insertions_enter sys s)
    rw [heq]
    exact (henter.carryOut hc).of_alike (alike_leave _ s _) (insertions_leave _ s · _)

/-! ### Passes -/

/-- Rearming a disarmed timer keeps the order. -/
theorem rearm (h : sys.Ordered) (ht : (sys.timer t).armed = false)
    (howner : (sys.timer t).owner = some s)
    (hbound : ∃ callback, (sys.timer t).callback = some callback) : (sys.rearm s t).Ordered := by
  cases hrenewal : (sys.timer t).renewal? with
  | some deadline =>
    rw [rearm_of_some hrenewal]
    exact h.link ht rfl howner hbound
  | none =>
    rw [rearm_of_none hrenewal]
    split
    · exact h.of_alike (alike_emit _ _) fun r => insertions_log sys s r _
    · exact h

/-- Rearming disarmed timers one after another keeps the order. -/
theorem rearm_all {timers : List (Fin n)} (h : sys.Ordered) (hnd : timers.Nodup)
    (ht : ∀ t ∈ timers, (sys.timer t).armed = false ∧ (sys.timer t).owner = some s ∧
      ∃ callback, (sys.timer t).callback = some callback) :
    (timers.foldl (System.rearm s) sys).Ordered := by
  induction timers generalizing sys with
  | nil => exact h
  | cons t timers ih =>
    rcases List.nodup_cons.1 hnd with ⟨hnotMem, hrest⟩
    rcases ht t List.mem_cons_self with ⟨harmed, howner, hbound⟩
    refine ih (h.rearm harmed howner hbound) hrest fun u hu => ?_
    -- the others are as they were when the turn comes to them
    have hbody := (renewed_rearm sys s t).body u
    rw [if_neg (by simpa using fun heq : u = t => hnotMem (heq ▸ hu))] at hbody
    have hsame := ht u (List.mem_cons_of_mem t hu)
    rwa [← Timer.armed_body, ← Timer.owner_body, ← Timer.callback_body, ← hbody] at hsame

/-- Collecting keeps the order. -/
theorem collect (h : sys.Ordered) (s : Fin m) (now : Timespec) :
    (sys.collect s now).2.Ordered := by
  rcases h with ⟨armed, hsound, horder⟩
  have hinit := List.takeWhile_prefix (Threaded.isDue sys.timers now) (l := armed s)
  have hnd := (hsound.holds s).nodup.sublist hinit.sublist
  have hlen := hinit.length_le.trans (hsound.holds s).length_le
  rcases hsound.detachExpired hlen with ⟨hfst, hdetached, htaken⟩
  have hsub : ∀ r, (Function.update armed s
      ((armed s).dropWhile (Threaded.isDue sys.timers now)) r).Sublist (armed r) := by
    intro r
    by_cases hr : r = s
    · subst hr
      rw [Function.update_self]
      exact List.dropWhile_sublist _
    · rw [Function.update_of_ne hr]
  have hinorder := horder.sublist hsub (fun _ u _ => htaken.deadline u)
    fun r => insertions_detachExpired sys s r n
  simp only [System.collect, hfst]
  generalize (armed s).takeWhile (Threaded.isDue sys.timers now) = due at *
  generalize (sys.detachExpired s now n).2 = a at *
  have hchained : (a.chain due).Ordered := by
    refine ⟨_, hdetached.of_firedNext (lists_chain due a) (timer_chain due a),
      hinorder.sublist (fun _ => List.Sublist.refl _) (fun _ u _ => ?_)
        fun r => insertions_chain a r due⟩
    rw [timer_chain]
  refine hchained.rearm_all hnd fun t ht => ?_
  rw [timer_chain]
  exact htaken.ready hsound hinit.subset ht

/-- Beginning a pass keeps the order. -/
theorem begin (h : sys.Ordered) (s : Fin m) (now : Timespec) : (sys.begin s now).2.Ordered := by
  cases hs : sys.dispatching s with
  | true =>
    exact h.of_alike (alike_begin_of_dispatching hs now) (insertions_begin_of_dispatching hs now)
  | false =>
    rcases h with ⟨armed, hsound, horder⟩
    have hcollecting : (sys.collecting s now).Ordered := by
      refine ⟨armed, hsound.of_eq rfl
        ((lists_modifyScheduler _ s (by intro _; rfl)).trans (lists_enter sys s)),
        horder.sublist (fun _ => List.Sublist.refl _) (fun _ _ _ => rfl) fun r => ?_⟩
      exact (insertions_of_none rfl rfl).trans (insertions_enter sys s r)
    rw [begin_of_not_dispatching hs]
    exact (hcollecting.collect s now).of_alike (alike_leave _ s _) (insertions_leave _ s · _)

/-- Coming to a timer keeps the order. -/
theorem visit (h : sys.Ordered) (s : Fin m) (t : Fin n) : (sys.visit s t).2.Ordered := by
  rcases h with ⟨armed, hsound, horder⟩
  exact ⟨armed, hsound.visit s t, horder.sublist (fun _ => List.Sublist.refl _)
    (fun _ u _ => apply_timer_visit sys s t u (φ := Timer.deadline) (by intro _; rfl))
    fun r => insertions_visit sys s r t⟩

/-- The end of a pass keeps the order. -/
theorem finish (h : sys.Ordered) (s : Fin m) (now : Timespec) : (sys.finish s now).Ordered := by
  rcases h with ⟨armed, hsound, horder⟩
  refine ⟨armed, hsound.of_eq (timers_finish sys s now) (lists_finish sys s now),
    horder.sublist (fun _ => List.Sublist.refl _) (fun _ u _ => ?_)
      fun r => insertions_finish sys s r now⟩
  rw [timer, timers_finish, timer]

end Ordered
end System

/-! ## Every step leaves the lists in order -/

namespace Moment

variable {x y : Moment m n} {s : Fin m}

/-- Steps keep the order. -/
theorem ordered_step (h : x.system.Ordered) (a : Action m n) : (x.step a).system.Ordered := by
  rcases hcursor : x.cursor with _ | c
  · rw [step_of_no_cursor hcursor]
    cases a with
    | request s what =>
      cases what with
      | command c =>
        exact (h.command s c).of_alike (System.alike_emit _ _)
          fun r => System.insertions_emit _ r rfl
      | query q =>
        exact (h.of_alike (System.alike_query _ s q) (System.insertions_query _ s · q)).of_alike
          (System.alike_emit _ _) fun r => System.insertions_emit _ r rfl
      | dispatch now =>
        have hbegin := h.begin s now
        simp only [act]
        split
        · next heq => rwa [heq] at hbegin
        · next heq => rwa [heq] at hbegin
    | ret =>
      simp only [act]
      split
      · exact h
      · exact h
  · rw [step_of_cursor hcursor]
    rcases hnext : c.next with _ | t
    · rw [advance_finish hnext]
      exact h.finish c.scheduler c.now
    · refine (h.visit c.scheduler t).of_alike (alike_advance hnext) fun r => ?_
      rw [system_advance hnext]
      split
      · exact System.insertions_emit _ r rfl
      · rfl

/-- At every reachable moment the lists are in order. -/
theorem Reachable.ordered (h : x.Reachable) : x.system.Ordered :=
  h.induction (φ := fun x => x.system.Ordered) System.ordered_initial
    fun _ a hx => ordered_step hx a

end Moment
end SoftTimer
