import SoftTimer.Proofs.History

/-!
# Tickets

A pass follows links that other passes may have written, so it may come to timers that it did not
take out itself.  This file shows that still no timer is visited without having been taken out for
it.  Whenever a timer is taken out a ticket is issued, which is the place of that event in the
course.  The ticket is held by the link that leads to the timer, or by the pass that stands before
it.  A pass that comes to a timer spends its ticket on the visit, and goes on with the one of the
link that it follows.

Main definitions:

- `Holder`, `Holder.LeadsTo`: who holds tickets, and for which timer.
- `Moment.Ticketed`: every holder has a ticket of its own.

Main results:

- Theorem `Moment.Ticketed.visited`: a visit hands tickets on, and makes no new ones.
- Theorem `Moment.Ticketed.began`: a pass that begins issues one ticket for each timer it takes out.
- Theorem `Moment.Reachable.exists_ticketed`: at every reachable moment every holder has a ticket of
  its own.
-/

namespace SoftTimer

variable {m n : Nat}

/-! ## Places in a list -/

section Places

variable {α : Type} {l more : List α} {a : α} {i k : Nat}

/-- Behind a first part the places are those of the rest. -/
theorem getElem?_length_add (l more : List α) (i : Nat) :
    (l ++ more)[l.length + i]? = more[i]? := by
  rw [List.getElem?_append_right (Nat.le_add_right _ _), Nat.add_sub_cancel_left]

/-- What stands at a place stays there when more is added. -/
theorem getElem?_append_of_some (h : l[i]? = some a) (more : List α) :
    (l ++ more)[i]? = some a := by
  rw [List.getElem?_append_left (List.getElem?_eq_some_iff.1 h).1, h]

/-- What is not among the later elements stands among the earlier ones. -/
theorem getElem?_of_append (h : (l ++ more)[i]? = some a) (ha : a ∉ more) : l[i]? = some a := by
  by_cases hi : i < l.length
  · rwa [List.getElem?_append_left hi] at h
  · rw [List.getElem?_append_right (Nat.le_of_not_lt hi)] at h
    exact absurd (List.mem_of_getElem? h) ha

/-- Leaving out a first part and adding more do not interfere. -/
theorem drop_append_of_some (h : l[i]? = some a) (more : List α) :
    (l ++ more).drop i = l.drop i ++ more :=
  List.drop_append_of_le_length (List.getElem?_eq_some_iff.1 h).1.le

/-- What stands at a place is still there when only places before it are left out. -/
theorem mem_drop_of_getElem? (h : l[i]? = some a) (hk : k ≤ i) : a ∈ l.drop k := by
  apply List.mem_of_getElem? (i := i - k)
  rwa [List.getElem?_drop, Nat.add_sub_cancel' hk]

/-- If places that `p` picks are sent to places that `q` picks, no two to the same one, `q` picks at
least as many. -/
theorem countP_le_countP_of_places {p q : α → Bool} (f : Nat → Nat)
    (hf : ∀ i a, l[i]? = some a → p a = true → ∃ b, l[f i]? = some b ∧ q b = true)
    (hinj : ∀ i j a b, l[i]? = some a → p a = true → l[j]? = some b → p b = true →
      f i = f j → i = j) : l.countP p ≤ l.countP q := by
  have hplaces : ∀ {p : α → Bool} {i : Nat},
      i ∈ l.findIdxs p ↔ ∃ a, l[i]? = some a ∧ p a = true := by
    intro p i
    rw [List.mem_findIdxs_iff_exists_getElem_pos]
    constructor
    · rintro ⟨hi, hp⟩
      exact ⟨l[i], List.getElem?_eq_getElem hi, hp⟩
    · rintro ⟨a, ha, hp⟩
      rcases List.getElem?_eq_some_iff.1 ha with ⟨hi, rfl⟩
      exact ⟨hi, hp⟩
  have hnodup : ((l.findIdxs p).map f).Nodup := by
    apply List.Nodup.map_on _ List.nodup_findIdxs
    intro i hi j hj
    rcases hplaces.1 hi with ⟨a, ha, hpa⟩
    rcases hplaces.1 hj with ⟨b, hb, hpb⟩
    exact hinj i j a b ha hpa hb hpb
  have hsubset : (l.findIdxs p).map f ⊆ l.findIdxs q := by
    intro k hk
    rcases List.mem_map.1 hk with ⟨i, hi, rfl⟩
    rcases hplaces.1 hi with ⟨a, ha, hpa⟩
    exact hplaces.2 (hf i a ha hpa)
  have hlength := (List.subperm_of_subset hnodup hsubset).length_le
  rwa [List.length_map, List.length_findIdxs, List.length_findIdxs] at hlength

end Places

/-! ## Holders of tickets -/

/-- Who may hold a ticket. -/
inductive Holder (m n : Nat) where
  /-- The visit at a place of the course. -/
  | visit (i : Nat)
  /-- The pass of a scheduler. -/
  | pass (s : Fin m)
  /-- The link after a timer. -/
  | link (u : Fin n)
deriving DecidableEq

/-- The visit was one of `t`, the pass stands before `t`, or the link leads to `t`. -/
def Holder.LeadsTo (x : Moment m n) (t : Fin n) : Holder m n → Prop
  | .visit i => ∃ s, x.system.course[i]? = some (.visited s t)
  | .pass s => ∃ c ∈ x.passes, c.scheduler = s ∧ c.next = some t
  | .link u => (x.system.timer u).firedNext = some t

/-- Who held the ticket of a holder before a pass of `s` came to `t`, where `i` is the place of that
visit in the course. -/
def Holder.previous (i : Nat) (s : Fin m) (t : Fin n) (h : Holder m n) : Holder m n :=
  if h = .visit i then .pass s else if h = .pass s then .link t else h

section Previous

variable {i j : Nat} {s r : Fin m} {t u : Fin n}

@[simp]
theorem Holder.previous_visit_self :
    (Holder.visit i : Holder m n).previous i s t = .pass s :=
  if_pos rfl

/-- Any visit but the latest one held its ticket itself before. -/
theorem Holder.previous_visit_of_ne (h : j ≠ i) :
    (Holder.visit j : Holder m n).previous i s t = .visit j := by
  simp [previous, h]

@[simp]
theorem Holder.previous_pass_self : (Holder.pass s : Holder m n).previous i s t = .link t := by
  simp [previous]

/-- The pass of another scheduler held its ticket itself before. -/
theorem Holder.previous_pass_of_ne (h : r ≠ s) :
    (Holder.pass r : Holder m n).previous i s t = .pass r := by
  simp [previous, h]

@[simp]
theorem Holder.previous_link : (Holder.link u : Holder m n).previous i s t = .link u := by
  simp [previous]

end Previous

/-- The holders that a beginning pass of `s` makes: each leads to the timer at its own place of
`due`, except for the last one, which leads to nothing. -/
def Holder.chain (s : Fin m) (due : List (Fin n)) : List (Holder m n) :=
  .pass s :: due.map .link

/-- The tickets after those for `due` were issued, the first one at place `first`. -/
def Holder.issue (first : Nat) (s : Fin m) (due : List (Fin n)) (ticket : Holder m n → Nat)
    (h : Holder m n) : Nat :=
  if h ∈ chain s due then first + (chain s due).idxOf h else ticket h

section Chain

variable {s : Fin m} {due a b : List (Fin n)} {t : Fin n} {h : Holder m n} {first : Nat}
  {ticket : Holder m n → Nat}

/-- The holders that a beginning pass makes are given tickets in their order. -/
theorem Holder.issue_of_mem (hmem : h ∈ chain s due) :
    issue first s due ticket h = first + (chain s due).idxOf h :=
  if_pos hmem

/-- Other holders keep their tickets when a pass begins. -/
theorem Holder.issue_of_notMem (hmem : h ∉ chain s due) :
    issue first s due ticket h = ticket h :=
  if_neg hmem

@[simp]
theorem Holder.idxOf_pass (s : Fin m) (due : List (Fin n)) : (chain s due).idxOf (.pass s) = 0 :=
  List.idxOf_cons_self

/-- The link from a timer of the chain stands one place behind it in the order of tickets. -/
theorem Holder.idxOf_link (hnd : (a ++ t :: b).Nodup) :
    (chain s (a ++ t :: b)).idxOf (.link t) = a.length + 1 := by
  have hmem : Holder.link t ∉ Holder.pass s :: a.map Holder.link := by
    have ht : t ∉ a := fun hmem => List.disjoint_of_nodup_append hnd hmem List.mem_cons_self
    simpa using ht
  have hcut : chain s (a ++ t :: b) = (.pass s :: a.map .link) ++ .link t :: b.map .link := by
    simp [chain]
  rw [hcut, List.idxOf_append_of_notMem hmem, List.idxOf_cons_self]
  simp

end Chain

namespace Moment

/-- Each holder that leads to a timer has a ticket of its own for that timer. -/
structure Issued (x : Moment m n) (ticket : Holder m n → Nat) : Prop where
  issued : ∀ h t, h.LeadsTo x t → ∃ r d, x.system.course[ticket h]? = some (.detached r t d)
  apart : ∀ h h' t t', h.LeadsTo x t → h'.LeadsTo x t' → ticket h = ticket h' → h = h'

/-- Each holder has a ticket of its own.  The ticket of a pass was issued since the pass began, and
so was the ticket of each of its visits.  The ticket of a link was issued right after the one for
the timer that the link follows, and that timer has not been taken out since. -/
structure Ticketed (x : Moment m n) (ticket : Holder m n → Nat) : Prop
    extends Issued x ticket where
  spent : ∀ i s t, x.system.course[i]? = some (.visited s t) → ticket (.visit i) < i ∧
    ∀ now, .began s now ∉ (x.system.course.take i).drop (ticket (.visit i))
  recent : ∀ c ∈ x.passes, ∀ t, c.next = some t →
    ∀ now, .began c.scheduler now ∉ x.system.course.drop (ticket (.pass c.scheduler))
  written : ∀ u t, (x.system.timer u).firedNext = some t → ∃ k r d d',
    ticket (.link u) = k + 1 ∧ x.system.course[k]? = some (.detached r u d) ∧
      x.system.course[k + 1]? = some (.detached r t d') ∧
      u ∉ taken (x.system.course.drop (k + 1))

variable {x y : Moment m n} {ticket : Holder m n → Nat} {es : List (Event m n)}

/-- Tickets change hands. -/
theorem Issued.comp (h : Issued x ticket) (hcourse : y.system.course = x.system.course ++ es)
    (σ : Holder m n → Holder m n) (hσ : ∀ h t, h.LeadsTo y t → (σ h).LeadsTo x t)
    (hinj : ∀ h h' t t', h.LeadsTo y t → h'.LeadsTo y t' → σ h = σ h' → h = h') :
    Issued y (ticket ∘ σ) := by
  constructor
  · intro g t hg
    rcases h.issued (σ g) t (hσ g t hg) with ⟨r, d, hticket⟩
    exact ⟨r, d, by rw [hcourse]; exact getElem?_append_of_some hticket es⟩
  · intro g g' t t' hg hg' heq
    exact hinj g g' t t' hg hg' (h.apart _ _ t t' (hσ g t hg) (hσ g' t' hg') heq)

namespace Ticketed

section Append

variable {i : Nat} {s : Fin m} {t u : Fin n} {c : Cursor m n} {more : List (Event m n)}

/-- The ticket of a visit was issued before it, and no pass of its scheduler began in between;
events that follow do not change that. -/
theorem spent_append (h : Ticketed x ticket) (hi : x.system.course[i]? = some (.visited s t))
    (more : List (Event m n)) : ticket (.visit i) < i ∧
      ∀ now, .began s now ∉ ((x.system.course ++ more).take i).drop (ticket (.visit i)) := by
  rw [List.take_append_of_le_length (List.getElem?_eq_some_iff.1 hi).1.le]
  exact h.spent i s t hi

/-- No pass of its scheduler began since the ticket of a pass under way was issued, nor does one by
the events given. -/
theorem recent_append (h : Ticketed x ticket) (hc : c ∈ x.passes) (hnext : c.next = some t)
    (hmore : ∀ now, .began c.scheduler now ∉ more) :
    ∀ now, .began c.scheduler now ∉
      (x.system.course ++ more).drop (ticket (.pass c.scheduler)) := by
  intro now
  rcases h.issued (.pass c.scheduler) t ⟨c, hc, rfl, hnext⟩ with ⟨r, d, hticket⟩
  rw [drop_append_of_some hticket, List.mem_append, not_or]
  exact ⟨h.recent c hc t hnext now, hmore now⟩

/-- The ticket of a link was issued when its two timers were taken out, one right after the other,
and the first of them was not taken out since; events that do not take it out leave that so. -/
theorem written_append (h : Ticketed x ticket) (hu : (x.system.timer u).firedNext = some t)
    (hmore : u ∉ taken more) : ∃ k r d d', ticket (.link u) = k + 1 ∧
      (x.system.course ++ more)[k]? = some (.detached r u d) ∧
      (x.system.course ++ more)[k + 1]? = some (.detached r t d') ∧
      u ∉ taken ((x.system.course ++ more).drop (k + 1)) := by
  rcases h.written u t hu with ⟨k, r, d, d', hticket, hfirst, hsecond, hlast⟩
  refine ⟨k, r, d, d', hticket, getElem?_append_of_some hfirst more,
    getElem?_append_of_some hsecond more, ?_⟩
  rw [drop_append_of_some hsecond, taken_append, List.mem_append, not_or]
  exact ⟨hlast, hmore⟩

end Append

/-- Steps that neither issue nor spend tickets leave them where they are. -/
theorem kept (h : Ticketed x ticket) (hcourse : y.system.course = x.system.course ++ es)
    (hvisited : ∀ s t, .visited s t ∉ es) (hbegan : ∀ s now, .began s now ∉ es)
    (htaken : taken es = []) (hpasses : ∀ c ∈ y.passes, c ∈ x.passes)
    (hfired : ∀ u, (y.system.timer u).firedNext = (x.system.timer u).firedNext) :
    Ticketed y ticket := by
  have hold : ∀ {i : Nat} {s : Fin m} {t : Fin n},
      y.system.course[i]? = some (.visited s t) → x.system.course[i]? = some (.visited s t) := by
    intro i s t hi
    rw [hcourse] at hi
    exact getElem?_of_append hi (hvisited s t)
  have hleads : ∀ (g : Holder m n) t, g.LeadsTo y t → g.LeadsTo x t := by
    rintro (i | s | u) t hg
    · exact hg.imp fun s => hold
    · exact hg.imp fun c hc => ⟨hpasses c hc.1, hc.2⟩
    · exact (hfired u).symm.trans hg
  refine ⟨h.toIssued.comp hcourse id hleads fun _ _ _ _ _ _ => id, ?_, ?_, ?_⟩
  · intro i s t hi
    rw [hcourse]
    exact h.spent_append (hold hi) es
  · intro c hc t hnext
    rw [hcourse]
    exact h.recent_append (hpasses c hc) hnext (hbegan c.scheduler)
  · intro u t hu
    rw [hcourse]
    rw [hfired] at hu
    exact h.written_append hu (by simp [htaken])

end Ticketed

/-! ### A visit -/

/-- The pass in control, which stands at `c`, came to `t`.  The events `tail` followed its coming. -/
structure Visiting (x y : Moment m n) (c : Cursor m n) (t : Fin n) (tail : List (Event m n)) :
    Prop where
  cursor : x.cursor = some c
  next : c.next = some t
  course : y.system.course = x.system.course ++ .visited c.scheduler t :: tail
  visited_notMem : ∀ s u, .visited s u ∉ tail
  began_notMem : ∀ s now, .began s now ∉ tail
  taken_eq : taken tail = []
  passes : y.passes =
    { c with next := (x.system.timer t).firedNext } :: x.frames.map Frame.cursor
  firedNext : ∀ u, (y.system.timer u).firedNext =
    if u = t then none else (x.system.timer u).firedNext

section Visited

variable {c : Cursor m n} {s : Fin m} {t u : Fin n} {i : Nat} {tail : List (Event m n)}

/-- A visit that stands in a course after one of `t` was added is an earlier one, or that one. -/
theorem getElem?_visited {course : List (Event m n)} {r : Fin m}
    (htail : ∀ s u, .visited s u ∉ tail)
    (hi : (course ++ .visited s t :: tail)[i]? = some (.visited r u)) :
    course[i]? = some (.visited r u) ∨ i = course.length ∧ r = s ∧ u = t := by
  rw [List.append_cons] at hi
  have hcut := getElem?_of_append hi (htail r u)
  rcases Nat.lt_trichotomy i course.length with hlt | rfl | hgt
  · rw [List.getElem?_append_left hlt] at hcut
    exact .inl hcut
  · rw [List.getElem?_concat_length, Option.some.injEq, Event.visited.injEq] at hcut
    exact .inr ⟨rfl, hcut.1.symm, hcut.2.symm⟩
  · rw [List.getElem?_eq_none (by simp; omega)] at hcut
    cases hcut

/-- The holders after a visit lead where those led who held their tickets before. -/
theorem Visiting.leadsTo_previous (h : Visiting x y c t tail) (hx : x.Stacked) (g : Holder m n)
    (u : Fin n) (hg : g.LeadsTo y u) :
    (g.previous x.system.course.length c.scheduler t).LeadsTo x u := by
  rcases g with i | r | v
  · rcases hg with ⟨r, hi⟩
    rw [h.course] at hi
    rcases getElem?_visited h.visited_notMem hi with hi | ⟨rfl, rfl, rfl⟩
    · rw [Holder.previous_visit_of_ne (List.getElem?_eq_some_iff.1 hi).1.ne]
      exact ⟨r, hi⟩
    · rw [Holder.previous_visit_self]
      exact ⟨c, by simp [passes_of_cursor h.cursor], rfl, h.next⟩
  · rcases hg with ⟨d, hd, rfl, hdnext⟩
    rw [h.passes] at hd
    rcases List.mem_cons.1 hd with rfl | hd
    · rw [Holder.previous_pass_self]
      exact hdnext
    · rw [Holder.previous_pass_of_ne (hx.ne_of_frame h.cursor hd)]
      exact ⟨d, by simp [passes_of_cursor h.cursor, hd], rfl, hdnext⟩
  · have hv : (y.system.timer v).firedNext = some u := hg
    rw [h.firedNext] at hv
    by_cases hvt : v = t
    · simp [hvt] at hv
    · rw [if_neg hvt] at hv
      rw [Holder.previous_link]
      exact hv

/-- Different holders after a visit had their tickets from different ones. -/
theorem Visiting.previous_inj (h : Visiting x y c t tail) {g g' : Holder m n} {u u' : Fin n}
    (hg : g.LeadsTo y u) (hg' : g'.LeadsTo y u')
    (heq : g.previous i s t = g'.previous i s t) : g = g' := by
  have hlink : (y.system.timer t).firedNext = none := by
    rw [h.firedNext, if_pos rfl]
  have hne : g ≠ .link t := by
    rintro rfl
    simp [Holder.LeadsTo, hlink] at hg
  have hne' : g' ≠ .link t := by
    rintro rfl
    simp [Holder.LeadsTo, hlink] at hg'
  grind [Holder.previous]

/-- The link after the timer that a pass stands before was written after that timer was taken out
for the pass. -/
theorem Ticketed.lt_link (h : Ticketed x ticket) (hc : c ∈ x.passes) (hnext : c.next = some t)
    (hlink : (x.system.timer t).firedNext = some u) :
    ticket (.pass c.scheduler) < ticket (.link t) := by
  rcases h.issued (.pass c.scheduler) t ⟨c, hc, rfl, hnext⟩ with ⟨r, d, hpass⟩
  rcases h.written t u hlink with ⟨k, -, -, -, hticket, -, -, hlast⟩
  by_contra hle
  exact hlast (mem_taken.2 ⟨r, d, mem_drop_of_getElem? hpass (by omega)⟩)

/-- A visit takes over the ticket of the pass, and the pass takes over that of the link that it
follows. -/
theorem Ticketed.visited (h : Ticketed x ticket) (hx : x.Stacked)
    (hvisit : Visiting x y c t tail) :
    Ticketed y (ticket ∘ Holder.previous x.system.course.length c.scheduler t) := by
  have hc : c ∈ x.passes := by simp [passes_of_cursor hvisit.cursor]
  have hquiet : ∀ s now, .began s now ∉ Event.visited c.scheduler t :: tail :=
    fun s now => by simp [hvisit.began_notMem s now]
  refine ⟨h.toIssued.comp hvisit.course _ (hvisit.leadsTo_previous hx)
    (fun _ _ _ _ => hvisit.previous_inj), ?_, ?_, ?_⟩
  · intro i s u hi
    rw [hvisit.course] at hi ⊢
    rcases getElem?_visited hvisit.visited_notMem hi with hi | ⟨rfl, rfl, rfl⟩
    · rw [Function.comp_apply,
        Holder.previous_visit_of_ne (List.getElem?_eq_some_iff.1 hi).1.ne]
      exact h.spent_append hi _
    · -- the visit that was just made spends the ticket of the pass
      rw [Function.comp_apply, Holder.previous_visit_self]
      rcases h.issued (.pass c.scheduler) u ⟨c, hc, rfl, hvisit.next⟩ with ⟨r, d, hticket⟩
      refine ⟨(List.getElem?_eq_some_iff.1 hticket).1, ?_⟩
      rw [List.take_left]
      exact h.recent c hc u hvisit.next
  · intro d hd u hdnext
    rw [hvisit.passes] at hd
    rw [hvisit.course]
    rcases List.mem_cons.1 hd with rfl | hd
    · -- the pass goes on with the ticket of the link, which is even newer than its last one
      rw [Function.comp_apply, Holder.previous_pass_self]
      intro now
      rcases h.issued (.link t) u hdnext with ⟨r, d, hticket⟩
      rw [drop_append_of_some hticket, List.mem_append, not_or]
      refine ⟨fun hmem => h.recent c hc t hvisit.next now ?_, hquiet _ _⟩
      exact List.drop_subset_drop_left _ (h.lt_link hc hvisit.next hdnext).le hmem
    · rw [Function.comp_apply, Holder.previous_pass_of_ne (hx.ne_of_frame hvisit.cursor hd)]
      exact h.recent_append (by simp [passes_of_cursor hvisit.cursor, hd]) hdnext
        (hquiet d.scheduler)
  · intro v u hv
    rw [hvisit.firedNext] at hv
    by_cases hvt : v = t
    · simp [hvt] at hv
    · rw [if_neg hvt] at hv
      rw [hvisit.course, Function.comp_apply, Holder.previous_link]
      refine h.written_append hv ?_
      rw [taken, List.filterMap_cons_none rfl, ← taken, hvisit.taken_eq]
      exact List.not_mem_nil

end Visited

/-! ### A pass that begins -/

section Began

variable {s : Fin m} {now : Timespec} {due : List (Fin n)} {armed : Fin m → List (Fin n)}
  {u : Fin n} {k : Nat}

/-- The place of the event that tells that a timer was taken out. -/
theorem getElem?_began {course : List (Event m n)} {e : Event m n} {deadline : Fin n → Timespec}
    (h : due[k]? = some u) :
    (course ++ e :: due.map fun t => .detached s t (deadline t))[course.length + 1 + k]? =
      some (.detached s u (deadline u)) := by
  rw [List.append_cons, List.getElem?_append_right (by simp)]
  simp [h]

/-- The timers that were taken out from a place on. -/
theorem taken_drop_began {course : List (Event m n)} {e : Event m n} {deadline : Fin n → Timespec} :
    taken ((course ++ e :: due.map fun t => .detached s t (deadline t)).drop
      (course.length + 1 + k)) = due.drop k := by
  rw [Nat.add_assoc, List.drop_length_add_append, Nat.add_comm 1 k, List.drop_succ_cons,
    ← List.map_drop, taken_detached]

variable (hidle : x.system.dispatching s = false) (hnd : due.Nodup) (hx : x.Stacked)
  (hpasses : y.passes = ⟨s, now, due.head?⟩ :: x.passes)
  (hbegun : System.Begun s now due armed x.system y.system)

include hidle hnd hx hpasses hbegun

/-- Once a pass has begun, the holders that it made lead to the timers that it took out, and the
others to where they led before. -/
theorem leadsTo_began (g : Holder m n) (hg : g.LeadsTo y u) :
    g ∈ Holder.chain s due ∧ due[(Holder.chain s due).idxOf g]? = some u ∨
      g ∉ Holder.chain s due ∧ g.LeadsTo x u := by
  rcases g with i | r | v
  · rcases hg with ⟨r, hi⟩
    rw [hbegun.course] at hi
    exact .inr ⟨by simp [Holder.chain], r, getElem?_of_append hi (by simp)⟩
  · rcases hg with ⟨c, hc, rfl, hnext⟩
    rw [hpasses] at hc
    rcases List.mem_cons.1 hc with rfl | hc
    · refine .inl ⟨List.mem_cons_self, ?_⟩
      rw [Holder.idxOf_pass, ← List.head?_eq_getElem?]
      exact hnext
    · have hne := hx.ne_of_idle hidle hc
      exact .inr ⟨by simp [Holder.chain, hne.symm], c, hc, rfl, hnext⟩
  · have hv : (y.system.timer v).firedNext = some u := hg
    by_cases hmem : v ∈ due
    · rcases List.append_of_mem hmem with ⟨a, b, rfl⟩
      rw [hbegun.chained a v b rfl] at hv
      refine .inl ⟨by simp [Holder.chain], ?_⟩
      rw [Holder.idxOf_link hnd, List.getElem?_append_right (Nat.le_succ _)]
      simpa [List.head?_eq_getElem?] using hv
    · exact .inr ⟨by simp [Holder.chain, hmem], (hbegun.firedNext hmem).symm.trans hv⟩

/-- Each timer that is taken out gets a ticket of its own, held by the link that leads to it or by
the pass. -/
theorem Issued.began (h : Issued x ticket) :
    Issued y (Holder.issue (x.system.course.length + 1) s due ticket) := by
  have hleads := fun g u => leadsTo_began (u := u) hidle hnd hx hpasses hbegun g
  have hold : ∀ g u, g.LeadsTo x u → ticket g < x.system.course.length := by
    intro g u hg
    rcases h.issued g u hg with ⟨r, d, hticket⟩
    exact (List.getElem?_eq_some_iff.1 hticket).1
  constructor
  · intro g u hg
    rw [hbegun.course]
    rcases hleads g u hg with ⟨hmem, hk⟩ | ⟨hmem, hg⟩
    · rw [Holder.issue_of_mem hmem]
      exact ⟨s, _, getElem?_began hk⟩
    · rw [Holder.issue_of_notMem hmem]
      rcases h.issued g u hg with ⟨r, d, hticket⟩
      exact ⟨r, d, getElem?_append_of_some hticket _⟩
  · intro g g' u u' hg hg' heq
    rcases hleads g u hg with ⟨hmem, -⟩ | ⟨hmem, hg⟩
    · rcases hleads g' u' hg' with ⟨hmem', -⟩ | ⟨hmem', hg'⟩
      · rw [Holder.issue_of_mem hmem, Holder.issue_of_mem hmem'] at heq
        exact (List.idxOf_inj hmem).1 (Nat.add_left_cancel heq)
      · rw [Holder.issue_of_mem hmem, Holder.issue_of_notMem hmem'] at heq
        have := hold g' u' hg'
        omega
    · rcases hleads g' u' hg' with ⟨hmem', -⟩ | ⟨hmem', hg'⟩
      · rw [Holder.issue_of_notMem hmem, Holder.issue_of_mem hmem'] at heq
        have := hold g u hg
        omega
      · rw [Holder.issue_of_notMem hmem, Holder.issue_of_notMem hmem'] at heq
        exact h.apart g g' u u' hg hg' heq

omit hidle hx hpasses in
/-- The links of the timers that were taken out were written as the timers after them were. -/
theorem written_began {a b : List (Fin n)} {v : Fin n} (hdue : due = a ++ u :: v :: b) :
    ∃ k r d d', Holder.issue (x.system.course.length + 1) s due ticket (.link u) = k + 1 ∧
      y.system.course[k]? = some (.detached r u d) ∧
      y.system.course[k + 1]? = some (.detached r v d') ∧
      u ∉ taken (y.system.course.drop (k + 1)) := by
  subst hdue
  refine ⟨x.system.course.length + 1 + a.length, s, (x.system.timer u).deadline,
    (x.system.timer v).deadline, ?_, ?_, ?_, ?_⟩
  · rw [Holder.issue_of_mem (by simp [Holder.chain]), Holder.idxOf_link hnd, ← Nat.add_assoc]
  · rw [hbegun.course]
    exact getElem?_began (by simp)
  · rw [hbegun.course, Nat.add_assoc]
    exact getElem?_began (by simp)
  · rw [hbegun.course, Nat.add_assoc, taken_drop_began, List.drop_length_add_append]
    exact (List.nodup_cons.1 (List.nodup_append.1 hnd).2.1).1

/-- The tickets that a beginning pass issues are new, and leave the others where they are. -/
theorem Ticketed.began (h : Ticketed x ticket) :
    Ticketed y (Holder.issue (x.system.course.length + 1) s due ticket) := by
  refine ⟨h.toIssued.began hidle hnd hx hpasses hbegun, ?_, ?_, ?_⟩
  · intro i r t hi
    rw [hbegun.course] at hi ⊢
    rw [Holder.issue_of_notMem (by simp [Holder.chain])]
    exact h.spent_append (getElem?_of_append hi (by simp)) _
  · intro c hc t hnext
    rw [hpasses] at hc
    rw [hbegun.course]
    rcases List.mem_cons.1 hc with rfl | hc
    · rw [Holder.issue_of_mem List.mem_cons_self, Holder.idxOf_pass, List.append_cons]
      intro now
      rw [List.drop_append_of_le_length (by simp)]
      simp
    · have hne := hx.ne_of_idle hidle hc
      rw [Holder.issue_of_notMem (by simp [Holder.chain, hne.symm])]
      exact h.recent_append hc hnext (by simp [hne.symm])
  · intro u t hu
    by_cases hmem : u ∈ due
    · rcases List.append_of_mem hmem with ⟨a, b, hdue⟩
      rw [hbegun.chained a u b hdue] at hu
      rcases List.head?_eq_some_iff.1 hu with ⟨b', rfl⟩
      exact written_began hnd hbegun hdue
    · rw [hbegun.firedNext hmem] at hu
      rw [hbegun.course, Holder.issue_of_notMem (by simp [Holder.chain, hmem])]
      exact h.written_append hu (by simpa using hmem)

end Began

/-! ### Runs -/

/-- At the start there are no holders, so any tickets will do. -/
theorem ticketed_initial (kinds : Fin m → RegionKind) :
    (Moment.ofMachine (.initial kinds) : Moment m n).Ticketed fun _ => 0 := by
  have hcourse : (Moment.ofMachine (.initial kinds) : Moment m n).system.course = [] := rfl
  have hpasses : (Moment.ofMachine (.initial kinds) : Moment m n).passes = [] := rfl
  have hfired : ∀ u, ((Moment.ofMachine (.initial kinds) : Moment m n).system.timer u).firedNext =
      none := by
    intro u
    simp [Moment.ofMachine, Machine.initial, System.initial, System.timer]
  have hnone : ∀ g t, ¬ Holder.LeadsTo (Moment.ofMachine (.initial kinds) : Moment m n) t g := by
    rintro (i | s | u) t hg
    · simp [Holder.LeadsTo, hcourse] at hg
    · simp [Holder.LeadsTo, hpasses] at hg
    · simp [Holder.LeadsTo, hfired] at hg
  refine ⟨⟨fun g t hg => absurd hg (hnone g t), fun g _ t _ hg => absurd hg (hnone g t)⟩, ?_, ?_, ?_⟩
  · simp [hcourse]
  · simp [hpasses]
  · simp [hfired]

/-- Every step hands tickets on, or issues new ones. -/
theorem Change.ticketed (hchange : Change x y es)
    (hcourse : y.system.course = x.system.course ++ es) (hx : x.Stacked) (h : Ticketed x ticket) :
    ∃ ticket', Ticketed y ticket' := by
  cases hchange with
  | other _ events hpasses _ hfired =>
    have hquiet : (∀ s t, .visited s t ∉ es) ∧ ∀ s now, .began s now ∉ es := by
      rcases events with rfl | ⟨r, c, reply, rfl⟩ <;> simp
    exact ⟨ticket, h.kept hcourse hquiet.1 hquiet.2 (taken_other events)
      (fun c hc => hpasses ▸ hc) hfired⟩
  | began _ hidle hnd hpasses hbegun => exact ⟨_, h.began hidle hnd hx hpasses hbegun⟩
  | @visited c t hcursor hnext hpasses _ htimer =>
    refine ⟨_, h.visited hx ⟨hcursor, hnext, hcourse, ?_, ?_, taken_visited _ _ _ _, hpasses, ?_⟩⟩
    · cases (x.system.timer t).callback <;> simp
    · cases (x.system.timer t).callback <;> simp
    · intro u
      rw [htimer]
      split <;> rfl
  | finished hcursor _ hpasses _ htimers =>
    have hfired : ∀ u, (y.system.timer u).firedNext = (x.system.timer u).firedNext :=
      fun u => congrArg (fun cells => (Table.get cells u).firedNext) htimers
    refine ⟨ticket, h.kept hcourse (by simp) (by simp) (taken_finished _) ?_ hfired⟩
    intro c hc
    rw [passes_of_cursor hcursor, ← hpasses]
    exact List.mem_cons_of_mem _ hc

/-- The ticket of a visit was issued after any beginning of a pass of the same scheduler before the
visit. -/
theorem Ticketed.lt_ticket (h : Ticketed x ticket) {s : Fin m} {t : Fin n} {now : Timespec}
    {j k : Nat} (hj : x.system.course[j]? = some (.visited s t))
    (hk : x.system.course[k]? = some (.began s now)) (hkj : k < j) : k < ticket (.visit j) := by
  by_contra hle
  apply (h.spent j s t hj).2 now
  apply mem_drop_of_getElem? _ (Nat.le_of_not_lt hle)
  rwa [List.getElem?_take_of_lt hkj]

/-- At every reachable moment each visit made, each pass that stands before a timer, and each link
that leads to one has a ticket of its own for that timer. -/
theorem Reachable.exists_ticketed (h : x.Reachable) : ∃ ticket, Ticketed x ticket := by
  have hboth : x.Stacked ∧ ∃ ticket, Ticketed x ticket := by
    refine h.change_induction (φ := fun x => x.Stacked ∧ ∃ ticket, Ticketed x ticket)
      (fun kinds => ⟨stacked_initial kinds, _, ticketed_initial kinds⟩) ?_
    rintro y z es hcourse hchange ⟨hstacked, ticket, hticket⟩
    exact ⟨hstacked.change hcourse hchange, hchange.ticketed hcourse hstacked hticket⟩
  exact hboth.2

end Moment
end SoftTimer
