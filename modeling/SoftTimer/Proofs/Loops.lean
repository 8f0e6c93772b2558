import SoftTimer.Proofs.Unobserved

/-!
# Collecting, loop by loop

A pass collects in two loops over the same cells.  The first one takes the head out of the list for
as long as it is due, and hangs it on to the chain behind the timer that was taken out before it.
The second one walks along the chain and rearms, reading where to go before it does.  Neither has a
bound of its own, and rearmed timers may be due again.

The loops are given here as relations, which have a result only where the loops come to an end.
They do, and what they compute is what `System.collect` computes from the row of timers that are
due.

Main definitions:

- `System.Drains`, `System.Rearms`: the two loops.
- `System.Collects`: one after the other.
- `System.withLinks`: a system with other links of passes.

Main results:

- Theorems `System.Drains.unique` and `System.Rearms.unique`: a loop has one result at most.
- Theorem `System.Sound.collects_iff`: in a sound system the loops come to an end, with the result
  of collecting.
-/

namespace SoftTimer

/-- Where each element of a list is led to what comes after it, single steps visit the list. -/
theorem trail_of_cuts {α : Type} {step : α → Option α} {l : List α}
    (h : ∀ a t b, l = a ++ t :: b → step t = b.head?) : Trail step l.head? l := by
  induction l with
  | nil => rfl
  | cons t l ih =>
    refine ⟨rfl, ?_⟩
    rw [h [] t l rfl]
    exact ih fun a u b hcut => h (t :: a) u b (congrArg (t :: ·) hcut)

namespace System

variable {m n : Nat} {sys a b : System m n} {armed : Fin m → List (Fin n)} {s : Fin m}
  {t u : Fin n} {now : Timespec} {first last : Option (Fin n)}

/-! ## The loops -/

/-- Let the chain go on from its last timer to `t`.  An empty chain has no last timer. -/
def hangOn (sys : System m n) (last : Option (Fin n)) (t : Fin n) : System m n :=
  match last with
  | some u => sys.modifyTimer u fun c => { c with firedNext := some t }
  | none => sys

/-- Disarm a timer that was taken out of the list of `s`, and put it at the end of the chain. -/
def enchain (sys : System m n) (s : Fin m) (last : Option (Fin n)) (t : Fin n) : System m n :=
  (((sys.modifyTimer t fun c => { c with armed := false }).emit
    (.detached s t (sys.timer t).deadline)).modifyTimer t fun c =>
      { c with firedNext := none }).hangOn last t

/-- The first loop, from a system and the two ends of the chain so far: take out the head of the
list while it is due.  It results in the first timer of the chain and the system then. -/
inductive Drains (s : Fin m) (now : Timespec) :
    System m n → Option (Fin n) → Option (Fin n) → Option (Fin n) × System m n → Prop
  | done {sys : System m n} {first last : Option (Fin n)} (h : sys.unlinkExpired s now = none) :
      Drains s now sys first last (first, sys)
  | next {sys a : System m n} {first last : Option (Fin n)} {t : Fin n}
      {result : Option (Fin n) × System m n} (h : sys.unlinkExpired s now = some (t, a))
      (hrest : Drains s now (a.enchain s last t) (if last.isSome then first else some t) (some t)
        result) :
      Drains s now sys first last result

/-- The second loop, from a system and a timer of the chain: rearm it and go on with the timer that
came after it before. -/
inductive Rearms (s : Fin m) : System m n → Option (Fin n) → System m n → Prop
  | done {sys : System m n} : Rearms s sys none sys
  | next {sys b : System m n} {t : Fin n}
      (hrest : Rearms s (sys.rearm s t) (sys.timer t).firedNext b) : Rearms s sys (some t) b

/-- One loop after the other, from an empty chain. -/
def Collects (s : Fin m) (now : Timespec) (sys : System m n)
    (result : Option (Fin n) × System m n) : Prop :=
  ∃ a, Drains s now sys none none (result.1, a) ∧ Rearms s a result.1 result.2

/-- The first loop has one result at most. -/
theorem Drains.unique {p q : Option (Fin n) × System m n} (hp : Drains s now sys first last p)
    (hq : Drains s now sys first last q) : p = q := by
  induction hp with
  | done hnone =>
    cases hq with
    | done => rfl
    | next hsome => simp [hnone] at hsome
  | next hsome _ ih =>
    cases hq with
    | done hnone => simp [hnone] at hsome
    | next hsome' hrest =>
      obtain ⟨rfl, rfl⟩ := Prod.mk.inj (Option.some.inj (hsome.symm.trans hsome'))
      exact ih hrest

/-- So has the second one. -/
theorem Rearms.unique {cursor : Option (Fin n)} (ha : Rearms s sys cursor a)
    (hb : Rearms s sys cursor b) : a = b := by
  induction ha with
  | done =>
    cases hb
    rfl
  | next _ ih =>
    cases hb with
    | next hrest => exact ih hrest

/-- Both loops together have one result at most. -/
theorem Collects.unique {p q : Option (Fin n) × System m n} (hp : Collects s now sys p)
    (hq : Collects s now sys q) : p = q := by
  rcases hp with ⟨a, hdrain, hrearm⟩
  rcases hq with ⟨b, hdrain', hrearm'⟩
  rcases Prod.mk.inj (hdrain.unique hdrain') with ⟨hfirst, rfl⟩
  rw [← hfirst] at hrearm'
  exact Prod.ext hfirst (hrearm.unique hrearm')

/-! ## Other links of passes

Taking timers out of a list does not look at the links of passes, so it may be done in a system with
other links just as well. -/

/-- A system with other links of passes. -/
def withLinks (sys : System m n) (links : Fin n → Option (Fin n)) : System m n :=
  { sys with timers := .ofFn fun t => { sys.timer t with firedNext := links t } }

section WithLinks

variable (links : Fin n → Option (Fin n))

@[simp]
theorem timer_withLinks (t : Fin n) :
    (sys.withLinks links).timer t = { sys.timer t with firedNext := links t } :=
  Table.get_ofFn _ t

/-- A system that differs in links of passes only is one with other links of passes. -/
theorem eq_withLinks {links : Fin n → Option (Fin n)} (hschedulers : b.schedulers = a.schedulers)
    (htrace : b.trace = a.trace)
    (htimer : ∀ t, b.timer t = { a.timer t with firedNext := links t }) :
    b = a.withLinks links := by
  have htimers : b.timers = (a.withLinks links).timers :=
    Table.ext fun t => (htimer t).trans (timer_withLinks links t).symm
  rcases b with ⟨schedulers, timers, trace⟩
  obtain rfl : schedulers = a.schedulers := hschedulers
  obtain rfl : timers = (a.withLinks links).timers := htimers
  obtain rfl : trace = a.trace := htrace
  rfl

/-- With its own links of passes a system is as it is. -/
theorem withLinks_self (sys : System m n) :
    sys.withLinks (fun t => (sys.timer t).firedNext) = sys :=
  (eq_withLinks rfl rfl fun _ => rfl).symm

/-- Other links of passes are a recast of the system. -/
theorem relinked_system (sys : System m n) :
    (Recast.relinked links []).system sys = sys.withLinks links := by
  have hevent : ∀ e : Event m n, (Recast.relinked links []).event e = e := by
    intro e
    simpa [Recast.settle_nil] using Recast.event_relinked links [] [] e
  refine eq_withLinks rfl ?_ fun t => Recast.timer_system _ sys t
  have htrace : ((Recast.relinked links []).system sys).trace =
      sys.trace.map (Recast.relinked links []).event ++ [] := rfl
  rw [htrace, List.append_nil, List.map_congr_left fun e _ => hevent e, List.map_id']

/-- Taking out the head does not look at links of passes. -/
theorem unlinkExpired_withLinks (sys : System m n) (s : Fin m) (now : Timespec) :
    (sys.withLinks links).unlinkExpired s now =
      (sys.unlinkExpired s now).map fun (t, a) => (t, a.withLinks links) := by
  simp only [← relinked_system]
  exact Recast.unlinkExpired_system _ sys s now

/-- Setting the link of a timer in a system with other links of passes gives one with yet other
ones. -/
theorem link_withLinks (sys : System m n) (t : Fin n) (next : Option (Fin n)) :
    ((sys.withLinks links).modifyTimer t fun c => { c with firedNext := next }) =
      sys.withLinks (Function.update links t next) := by
  refine eq_withLinks rfl rfl fun u => ?_
  rw [timer_modifyTimer, timer_withLinks, timer_withLinks]
  by_cases hut : u = t
  · rw [if_pos hut, hut, Function.update_self]
  · rw [if_neg hut, Function.update_of_ne hut]

/-- Disarming a timer may be done among other links of passes. -/
theorem disarm_withLinks (sys : System m n) (t : Fin n) :
    ((sys.withLinks links).modifyTimer t fun c => { c with armed := false }) =
      (sys.modifyTimer t fun c => { c with armed := false }).withLinks links := by
  refine eq_withLinks rfl rfl fun u => ?_
  rw [timer_modifyTimer, timer_modifyTimer, timer_withLinks, timer_withLinks]
  by_cases hut : u = t
  · rw [if_pos hut, if_pos hut, hut]
  · rw [if_neg hut, if_neg hut]

end WithLinks

/-! ## The first loop -/

/-- Links after the last timer of a chain was led to `t`. -/
def hungOn (last : Option (Fin n)) (t : Fin n) (links : Fin n → Option (Fin n)) :
    Fin n → Option (Fin n) :=
  match last with
  | some u => Function.update links u (some t)
  | none => links

/-- Links after timers were put at the end of a chain one by one. -/
def enchained : Option (Fin n) → List (Fin n) → (Fin n → Option (Fin n)) → Fin n → Option (Fin n)
  | _, [], links => links
  | last, t :: rest, links => enchained (some t) rest (hungOn last t (Function.update links t none))

section Enchained

variable {links : Fin n → Option (Fin n)} {timers c d : List (Fin n)}

/-- Hanging a timer on to a chain changes the link of the last timer only. -/
theorem hungOn_of_ne (h : last ≠ some u) : hungOn last t links u = links u := by
  cases last with
  | none => rfl
  | some v => exact Function.update_of_ne (fun heq => h (congrArg some heq.symm)) _ _

/-- Putting timers at the end of a chain leaves the links of those alone that are not on it. -/
theorem enchained_of_notMem (hu : u ∉ timers) (hlast : last ≠ some u) :
    enchained last timers links u = links u := by
  induction timers generalizing last links with
  | nil => rfl
  | cons t timers ih =>
    rw [List.mem_cons, not_or] at hu
    have hne : some t ≠ some u := fun heq => hu.1 (Option.some.inj heq).symm
    rw [enchained, ih hu.2 hne, hungOn_of_ne hlast, Function.update_of_ne hu.1]

/-- Along the chain every timer leads to the one that was put behind it. -/
theorem enchained_eq (hnd : (c ++ t :: d).Nodup) (hlast : ∀ u ∈ c ++ t :: d, last ≠ some u) :
    enchained last (c ++ t :: d) links t = d.head? := by
  induction c generalizing last links with
  | nil =>
    have hself : hungOn last t (Function.update links t none) t = none := by
      rw [hungOn_of_ne (hlast t List.mem_cons_self), Function.update_self]
    cases d with
    | nil => exact hself
    | cons v d =>
      have hnotMem : t ∉ v :: d := (List.nodup_cons.1 hnd).1
      rw [List.mem_cons, not_or] at hnotMem
      have hne : some v ≠ some t := fun heq => hnotMem.1 (Option.some.inj heq).symm
      rw [List.nil_append, enchained, enchained, enchained_of_notMem hnotMem.2 hne, hungOn,
        Function.update_self, List.head?_cons]
  | cons v c ih =>
    have hv : v ∉ c ++ t :: d := (List.nodup_cons.1 hnd).1
    exact ih (List.nodup_cons.1 hnd).2 fun u hu heq => hv (Option.some.inj heq ▸ hu)

end Enchained

/-- Hanging a timer on to the chain may be done among other links of passes. -/
theorem hangOn_withLinks (sys : System m n) (links : Fin n → Option (Fin n))
    (last : Option (Fin n)) (t : Fin n) :
    (sys.withLinks links).hangOn last t = sys.withLinks (hungOn last t links) := by
  cases last with
  | none => rfl
  | some u => exact link_withLinks links sys u (some t)

/-- Putting a timer at the end of the chain changes links of passes, and the rest as in a system
with any other ones. -/
theorem enchain_withLinks (sys : System m n) (links : Fin n → Option (Fin n)) (s : Fin m)
    (last : Option (Fin n)) (t : Fin n) :
    (sys.withLinks links).enchain s last t =
      ((sys.modifyTimer t fun c => { c with armed := false }).emit
        (.detached s t (sys.timer t).deadline)).withLinks
          (hungOn last t (Function.update links t none)) := by
  have hemit : ∀ (a : System m n) (e : Event m n),
      (a.withLinks links).emit e = (a.emit e).withLinks links := fun _ _ => rfl
  rw [enchain, disarm_withLinks, timer_withLinks, hemit, link_withLinks, hangOn_withLinks]

/-- Where a bounded number of steps leaves nothing due, the loop ends after them, with the chain of
the timers that were taken out. -/
theorem drains_detachExpired (limit : Nat) (sys : System m n) (first last : Option (Fin n))
    (links : Fin n → Option (Fin n)) (hends : first.isSome = last.isSome)
    (hdone : (sys.detachExpired s now limit).2.unlinkExpired s now = none) :
    Drains s now (sys.withLinks links) first last
      (first.or (sys.detachExpired s now limit).1.head?,
        (sys.detachExpired s now limit).2.withLinks
          (enchained last (sys.detachExpired s now limit).1 links)) := by
  induction limit generalizing sys first last links with
  | zero =>
    have hnone : (sys.withLinks links).unlinkExpired s now = none := by
      rw [unlinkExpired_withLinks]
      exact congrArg (Option.map _) hdone
    have hstop : Drains s now (sys.withLinks links) first last (first, sys.withLinks links) :=
      .done hnone
    simpa [detachExpired, enchained] using hstop
  | succ limit ih =>
    rw [detachExpired] at hdone ⊢
    cases hexpired : sys.unlinkExpired s now with
    | none =>
      have hnone : (sys.withLinks links).unlinkExpired s now = none := by
        rw [unlinkExpired_withLinks, hexpired, Option.map_none]
      have hstop : Drains s now (sys.withLinks links) first last (first, sys.withLinks links) :=
        .done hnone
      simpa [enchained] using hstop
    | some found =>
      rcases found with ⟨t, a⟩
      have hsome : (sys.withLinks links).unlinkExpired s now = some (t, a.withLinks links) := by
        rw [unlinkExpired_withLinks, hexpired, Option.map_some]
      have hfirst : (if last.isSome then first else some t) = first.or (some t) := by
        rw [← hends]
        cases first <;> rfl
      have hends' : (first.or (some t)).isSome = (some t).isSome := by cases first <;> rfl
      rw [hexpired] at hdone
      have hrest := ih _ _ _ (hungOn last t (Function.update links t none)) hends' hdone
      rw [← enchain_withLinks] at hrest
      refine .next hsome ?_
      rw [hfirst]
      simpa [Option.or_assoc, enchained] using hrest

/-! ## The second loop -/

/-- The second loop goes along a chain to its end, for rearming does not touch the chain. -/
theorem rearms_of_trail {timers : List (Fin n)} {cursor : Option (Fin n)}
    (h : Trail (fun t => (sys.timer t).firedNext) cursor timers) :
    Rearms s sys cursor (timers.foldl (System.rearm s) sys) := by
  induction timers generalizing sys cursor with
  | nil =>
    obtain rfl : cursor = none := h
    exact .done
  | cons t timers ih =>
    rcases h with ⟨rfl, hrest⟩
    have hkept : (fun u => ((sys.rearm s t).timer u).firedNext) =
        fun u => (sys.timer u).firedNext := by
      funext u
      exact (congrArg Timer.firedNext ((rearmed_rearm sys s t).body u) :)
    exact .next (ih (by rw [hkept]; exact hrest))

/-! ## Both loops -/

namespace Sound

/-- What collecting takes out is what is due, and nothing is left of it in the list. -/
theorem detachExpired_all (h : sys.Sound armed) (s : Fin m) (now : Timespec) :
    (sys.detachExpired s now n).1 = (armed s).takeWhile (Threaded.isDue sys.timers now) ∧
      ((armed s).takeWhile (Threaded.isDue sys.timers now)).Nodup ∧
      (sys.detachExpired s now n).2.Sound
        (Function.update armed s ((armed s).dropWhile (Threaded.isDue sys.timers now))) ∧
      TakenOut s ((armed s).takeWhile (Threaded.isDue sys.timers now)) sys
        (sys.detachExpired s now n).2 := by
  have hinit := List.takeWhile_prefix (Threaded.isDue sys.timers now) (l := armed s)
  rcases h.detachExpired (hinit.length_le.trans (h.holds s).length_le) with
    ⟨hfst, hsound, htaken⟩
  exact ⟨hfst, (h.holds s).nodup.sublist hinit.sublist, hsound, htaken⟩

/-- When all timers that were due are taken out, the head is not due. -/
theorem unlinkExpired_detachExpired (h : sys.Sound armed) (s : Fin m) (now : Timespec) :
    (sys.detachExpired s now n).2.unlinkExpired s now = none := by
  rcases h.detachExpired_all s now with ⟨-, -, hsound, htaken⟩
  have hnone : ((armed s).dropWhile (Threaded.isDue sys.timers now)).takeWhile
      (Threaded.isDue sys.timers now) = [] := by
    rw [List.takeWhile_eq_nil_iff]
    intro hpos
    simpa using List.dropWhile_get_zero_not (Threaded.isDue sys.timers now) (armed s) hpos
  rw [hsound.unlinkExpired_eq, Function.update_self, htaken.isDue_eq, hnone, List.head?_nil,
    Option.map_none]

/-- The chain that the first loop builds is the one that leads along the timers taken out. -/
theorem chain_detachExpired (h : sys.Sound armed) (s : Fin m) (now : Timespec) :
    (sys.detachExpired s now n).2.chain (sys.detachExpired s now n).1 =
      (sys.detachExpired s now n).2.withLinks
        (enchained none (sys.detachExpired s now n).1 fun t => (sys.timer t).firedNext) := by
  rcases h.detachExpired_all s now with ⟨hfst, hnd, -, htaken⟩
  rw [hfst]
  generalize (armed s).takeWhile (Threaded.isDue sys.timers now) = due at *
  generalize (sys.detachExpired s now n).2 = a at *
  rcases exists_chain_eq due a with ⟨cells, hchain⟩
  have hnone : ∀ u : Fin n, none ≠ some u := fun u => (Option.some_ne_none u).symm
  have hlink : ∀ u, ((a.chain due).timer u).firedNext =
      enchained none due (fun t => (sys.timer t).firedNext) u := by
    intro u
    by_cases hu : u ∈ due
    · rcases List.append_of_mem hu with ⟨c, d, rfl⟩
      rw [firedNext_chain a hnd, enchained_eq hnd fun v _ => hnone v]
    · have hbody := congrArg Timer.firedNext (htaken.body u)
      rw [if_neg hu] at hbody
      rw [firedNext_chain_of_notMem a hu, enchained_of_notMem hu (hnone u)]
      exact hbody
  refine eq_withLinks (by rw [hchain]) (by rw [hchain]) fun u => ?_
  rw [← hlink u]
  exact timer_chain due a u

/-- Both loops come to an end, and their result is what collecting gives. -/
theorem collects (h : sys.Sound armed) (s : Fin m) (now : Timespec) :
    Collects s now sys (sys.collect s now) := by
  have hdrain := drains_detachExpired n sys none none (fun t => (sys.timer t).firedNext) rfl
    (h.unlinkExpired_detachExpired s now)
  rw [withLinks_self, ← h.chain_detachExpired, Option.none_or] at hdrain
  refine ⟨_, hdrain, rearms_of_trail (trail_of_cuts fun c t d hcut => ?_)⟩
  rcases h.detachExpired_all s now with ⟨hfst, hnd, -, -⟩
  rw [← hfst, hcut] at hnd
  rw [hcut]
  exact firedNext_chain _ hnd

/-- In a sound system both loops come to an end, and collecting is what they compute. -/
theorem collects_iff (h : sys.Sound armed) {result : Option (Fin n) × System m n} :
    Collects s now sys result ↔ result = sys.collect s now := by
  constructor
  · intro hresult
    exact hresult.unique (h.collects s now)
  · rintro rfl
    exact h.collects s now

end Sound
end System
end SoftTimer
