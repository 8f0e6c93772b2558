import SoftTimer.Proofs.Threaded
import SoftTimer.Timespec.Arithmetic

/-!
# A threaded list as a sorted sequence

A list of timers is well formed if its links lead along it from either end, without meeting a timer
twice, and its count and its deadlines are right.  Whatever a well-formed list holds, the operations
do to it what they would do to a plain sequence of timers sorted by deadline, and touch nothing but
the links of the timers concerned.

The walk back that looks for the place of a new timer has no bound of its own.  It is given here as
a relation without one, which has a result only where the walk comes to an end.

Main definitions:

- `Threaded.WellFormed`: what a reader who follows the links in both directions finds.
- `Threaded.SeeksBack`: the walk back, for as long as it takes.
- `Threaded.Spliced`: nothing changed but links of the list and of one timer.
- `Threaded.ActsAsSequence`: what the operations make of a list.

Main results:

- Theorem `Threaded.wellFormed_iff_holds`: to be well formed is to hold a list at every cut of it.
- Theorem `Threaded.WellFormed.next_eq_iff_prev_eq`: the two links are inverse to each other.
- Theorem `Threaded.WellFormed.seeksBack_iff`: the walk back ends, at one place only.
- Theorem `Threaded.WellFormed.acts_as_sequence`: a well-formed list behaves as a sorted sequence.
-/

namespace SoftTimer

/-! ## Trails and cuts -/

section Trails

variable {α : Type} {f : Option α → Option α} {l : List α}

/-- Links that lead along a list from its start say the right thing at every cut of it. -/
theorem Trail.spells (h : Trail (fun t => f (some t)) (f none) l) : Spells f l := by
  have hrest : ∀ c a d, Trail (fun t => f (some t)) (f a.getLast?) (c ++ d) →
      f (a ++ c).getLast? = d.head? := by
    intro c
    induction c with
    | nil =>
      intro a d htrail
      rw [List.append_nil]
      cases d with
      | nil => exact htrail
      | cons t d => exact htrail.1
    | cons t c ih =>
      intro a d htrail
      have hnext : Trail (fun t => f (some t)) (f (a ++ [t]).getLast?) (c ++ d) := by
        simpa using htrail.2
      simpa using ih (a ++ [t]) d hnext
  intro a b hcut
  exact hrest a [] b (hcut ▸ h)

/-- Links spell a list exactly if they lead along it from its start. -/
theorem spells_iff_trail : Spells f l ↔ Trail (fun t => f (some t)) (f none) l :=
  ⟨Spells.trail, Trail.spells⟩

instance decidableTrail [DecidableEq α] (step : α → Option α) :
    (start : Option α) → (l : List α) → Decidable (Trail step start l)
  | start, [] => inferInstanceAs (Decidable (start = none))
  | start, t :: rest =>
    have := decidableTrail step (step t) rest
    inferInstanceAs (Decidable (start = some t ∧ Trail step (step t) rest))

end Trails

namespace Threaded

variable {m n : Nat} {x y : Threaded m n} {l : List (Fin n)} {t u : Fin n}
  {place : Option (Fin n)} {deadline now : Timespec}

/-! ## Well-formed lists -/

/-- Following `next` from the head visits `l` and ends, following `prev` from the tail visits the
same timers the other way round, none of them occurs twice, there are as many as were counted, and
their deadlines do not decrease. -/
structure WellFormed (x : Threaded m n) (l : List (Fin n)) : Prop where
  nodup : l.Nodup
  forwards : Trail (fun t => (x.cells.get t).next) x.list.head l
  backwards : Trail (fun t => (x.cells.get t).prev) x.list.tail l.reverse
  len_eq : x.list.len = l.length
  ascending : l.Pairwise fun t u => (x.cells.get t).deadline ≤ (x.cells.get u).deadline

/-- To be well formed is to hold the list at every cut of it. -/
theorem wellFormed_iff_holds : x.WellFormed l ↔ x.Holds l := by
  constructor
  · intro h
    exact ⟨h.nodup, spells_iff_trail.2 h.forwards, spells_iff_trail.2 h.backwards, h.len_eq,
      h.ascending⟩
  · intro h
    exact ⟨h.nodup, spells_iff_trail.1 h.forwards, spells_iff_trail.1 h.backwards, h.len_eq,
      h.ascending⟩

instance (x : Threaded m n) (l : List (Fin n)) : Decidable (x.WellFormed l) :=
  decidable_of_iff
    (l.Nodup ∧ Trail (fun t => (x.cells.get t).next) x.list.head l ∧
      Trail (fun t => (x.cells.get t).prev) x.list.tail l.reverse ∧ x.list.len = l.length ∧
      l.Pairwise fun t u => (x.cells.get t).deadline ≤ (x.cells.get u).deadline)
    ⟨fun ⟨h₁, h₂, h₃, h₄, h₅⟩ => ⟨h₁, h₂, h₃, h₄, h₅⟩,
      fun h => ⟨h.nodup, h.forwards, h.backwards, h.len_eq, h.ascending⟩⟩

/-- On the list, to precede is the inverse of to follow. -/
theorem WellFormed.next_eq_iff_prev_eq (h : x.WellFormed l) (ht : t ∈ l) (hu : u ∈ l) :
    (x.cells.get t).next = some u ↔ (x.cells.get u).prev = some t := by
  have hheld := wellFormed_iff_holds.1 h
  constructor
  · intro hnext
    rcases List.append_of_mem ht with ⟨a, b, rfl⟩
    rw [hheld.next_eq] at hnext
    have hlead := (by simpa using hheld : x.Holds ((a ++ [t]) ++ b)).leader_eq
    rw [hnext] at hlead
    simpa [leader] using hlead
  · intro hprev
    rcases List.append_of_mem hu with ⟨a, b, rfl⟩
    rw [hheld.prev_eq] at hprev
    have hfollow := hheld.follower_eq
    rw [hprev] at hfollow
    simpa [follower] using hfollow

/-! ## The walk back -/

/-- Walking back from a place, over every timer whose deadline is after `deadline`, ends at a
place: at the first timer met that is not, or at the start of the list. -/
inductive SeeksBack (cells : Cells m n) (deadline : Timespec) :
    Option (Fin n) → Option (Fin n) → Prop
  | start : SeeksBack cells deadline none none
  | found {t : Fin n} (hle : (cells.get t).deadline ≤ deadline) :
      SeeksBack cells deadline (some t) (some t)
  | back {t : Fin n} {place : Option (Fin n)} (hlt : ¬ (cells.get t).deadline ≤ deadline)
      (hrest : SeeksBack cells deadline (cells.get t).prev place) :
      SeeksBack cells deadline (some t) place

/-- A walk has one result at most. -/
theorem SeeksBack.unique {cells : Cells m n} {start p q : Option (Fin n)}
    (hp : SeeksBack cells deadline start p) (hq : SeeksBack cells deadline start q) : p = q := by
  induction hp with
  | start =>
    cases hq
    rfl
  | found hle =>
    cases hq with
    | found => rfl
    | back hlt => exact absurd hle hlt
  | back hlt _ ih =>
    cases hq with
    | found hle => exact absurd hle hlt
    | back _ hrest => exact ih hrest

/-- Where `prev` leads to an end, a walk ends, and a bound on its steps that is no less than the
number of timers on the way makes no difference. -/
theorem seeksBack_seekBack {cells : Cells m n} {start : Option (Fin n)} {steps : Nat}
    (h : Trail (fun t => (cells.get t).prev) start l) (hsteps : l.length ≤ steps) :
    SeeksBack cells deadline start (seekBack cells deadline steps start) := by
  induction l generalizing start steps with
  | nil =>
    obtain rfl : start = none := h
    cases steps <;> exact .start
  | cons t l ih =>
    rcases h with ⟨rfl, hrest⟩
    obtain ⟨steps, rfl⟩ : ∃ k, steps = k + 1 := ⟨steps - 1, by simp at hsteps; omega⟩
    rw [seekBack]
    by_cases hle : (cells.get t).deadline ≤ deadline
    · rw [if_pos hle]
      exact .found hle
    · rw [if_neg hle]
      exact .back hle (ih hrest (by simpa using hsteps))

/-- From the tail of a well-formed list the walk ends, at the place that `lastBy` gives. -/
theorem WellFormed.seeksBack_iff (h : x.WellFormed l) :
    SeeksBack x.cells deadline x.list.tail place ↔ place = x.lastBy deadline := by
  have hlength : l.reverse.length ≤ n := by
    simpa using (wellFormed_iff_holds.1 h).length_le
  have hwalk : SeeksBack x.cells deadline x.list.tail (x.lastBy deadline) :=
    seeksBack_seekBack h.backwards hlength
  constructor
  · intro hplace
    exact hplace.unique hwalk
  · rintro rfl
    exact hwalk

/-! ## The operations -/

/-- From `x` to `y` nothing changed in the cells of timers but links, and none of these changed in a
timer that is neither `t` nor on the list `l`. -/
structure Spliced (l : List (Fin n)) (t : Fin n) (x y : Threaded m n) : Prop where
  outside : ∀ u, u ∉ l → u ≠ t → y.cells.get u = x.cells.get u
  body : ∀ u, (y.cells.get u).body = (x.cells.get u).body

namespace WellFormed

/-- Insertion changes nothing but links of the list and of the new timer. -/
theorem spliced_insert (h : x.WellFormed l) (t : Fin n) : Spliced l t x (x.insert t).2 where
  outside _ hu hut := (wellFormed_iff_holds.1 h).get_insert_of_notMem hu hut
  body u := body_insert x t u

/-- Removal changes nothing but links of the list. -/
theorem spliced_remove (h : x.WellFormed l) (ht : t ∈ l) : Spliced l t x (x.remove t).2 where
  outside _ hu _ := (wellFormed_iff_holds.1 h).get_remove_of_notMem ht hu
  body u := body_remove x t u

/-- A new timer goes behind all deadlines that are not after its own and before all that are. -/
theorem insert (h : x.WellFormed l) (ht : t ∉ l) :
    ∃ a b, l = a ++ b ∧
      (∀ u ∈ a, (x.cells.get u).deadline ≤ (x.cells.get t).deadline) ∧
      (∀ u ∈ b, (x.cells.get t).deadline < (x.cells.get u).deadline) ∧
      (x.insert t).2.WellFormed (a ++ t :: b) ∧ ((x.insert t).1 = true ↔ a = []) := by
  have hheld := wellFormed_iff_holds.1 h
  have hbehind : ∀ u ∈ l.dropWhile (isDue x.cells (x.cells.get t).deadline),
      (x.cells.get t).deadline < (x.cells.get u).deadline := by
    intro u hu
    have hnot := lt_of_mem_dropWhile h.ascending hu
    rw [Timespec.le_iff_nanos_le, Nat.not_le] at hnot
    exact Timespec.lt_iff_nanos_lt.2 hnot
  refine ⟨l.takeWhile (isDue x.cells (x.cells.get t).deadline),
    l.dropWhile (isDue x.cells (x.cells.get t).deadline),
    List.takeWhile_append_dropWhile.symm, ?_, hbehind, wellFormed_iff_holds.2 (hheld.insert ht), ?_⟩
  · intro u hu
    simpa [isDue] using List.mem_takeWhile_imp hu
  · rw [hheld.insert_fst ht, placed]
    cases hbefore : l.takeWhile (isDue x.cells (x.cells.get t).deadline) with
    | nil => simp
    | cons v a =>
      have hv : v ∈ l := List.takeWhile_subset _ (hbefore ▸ List.mem_cons_self)
      have hne : v ≠ t := fun heq => ht (heq ▸ hv)
      simp [hne]

/-- Removing a timer leaves a well-formed list without it. -/
theorem remove (h : x.WellFormed l) (ht : t ∈ l) : (x.remove t).2.WellFormed (l.erase t) :=
  wellFormed_iff_holds.2 ((wellFormed_iff_holds.1 h).erase ht)

/-- A timer that was taken out has no links. -/
theorem unlinked_remove (h : x.WellFormed l) (ht : t ∈ l) :
    ((x.remove t).2.cells.get t).prev = none ∧ ((x.remove t).2.cells.get t).next = none := by
  rw [(wellFormed_iff_holds.1 h).get_remove_self ht]
  exact ⟨rfl, rfl⟩

/-- The head is taken out if its deadline is not ahead. -/
theorem popExpired_eq_some (h : x.WellFormed (t :: l)) (hdue : (x.cells.get t).deadline ≤ now) :
    x.popExpired now = some (t, (x.remove t).2) := by
  have hhead : x.list.head = some t := h.forwards.1
  have hexpired : x.expired? now = some t := by
    rw [expired?, hhead, Option.filter_some, if_pos (decide_eq_true hdue)]
  rw [popExpired, hexpired, Option.map_some]

/-- Nothing is taken out of a list that is empty or whose first deadline is ahead. -/
theorem popExpired_eq_none (h : x.WellFormed l)
    (hahead : ∀ t, l.head? = some t → now < (x.cells.get t).deadline) :
    x.popExpired now = none := by
  rw [popExpired_eq_none_iff, (wellFormed_iff_holds.1 h).head_eq]
  intro t ht
  have hlt := Timespec.lt_iff_nanos_lt.1 (hahead t ht)
  rw [Timespec.le_iff_nanos_le]
  omega

end WellFormed

/-- What the operations make of a list that holds `l`. -/
structure ActsAsSequence (x : Threaded m n) (l : List (Fin n)) : Prop where
  contents : x.contents = l
  /-- The walk that looks for the place of a timer comes to an end, and only to this one. -/
  walk : ∀ t place, SeeksBack x.cells (x.cells.get t).deadline x.list.tail place ↔
    place = x.lastBy (x.cells.get t).deadline
  /-- A timer is put in between the deadlines that are not after its own and those that are, and is
  reported to be the first one exactly if there are none of the former. -/
  insert : ∀ t, t ∉ l → ∃ a b, l = a ++ b ∧
    (∀ u ∈ a, (x.cells.get u).deadline ≤ (x.cells.get t).deadline) ∧
    (∀ u ∈ b, (x.cells.get t).deadline < (x.cells.get u).deadline) ∧
    (x.insert t).2.WellFormed (a ++ t :: b) ∧ ((x.insert t).1 = true ↔ a = [])
  insert_spliced : ∀ t, t ∉ l → Spliced l t x (x.insert t).2
  /-- A timer that is taken out is seen to be linked and counted. -/
  expected : ∀ t ∈ l, x.isLinked t = true ∧ 0 < x.list.len
  /-- A timer is taken out and loses its links, the others stay in their order, and it is reported
  to have been the first one exactly if it was. -/
  remove : ∀ t ∈ l, (x.remove t).2.WellFormed (l.erase t) ∧
    ((x.remove t).2.cells.get t).prev = none ∧ ((x.remove t).2.cells.get t).next = none ∧
    ((x.remove t).1 = true ↔ l.head? = some t)
  remove_spliced : ∀ t ∈ l, Spliced l t x (x.remove t).2
  /-- The first timer is taken out and handed over if its deadline is not ahead. -/
  pop : ∀ t rest now, l = t :: rest → (x.cells.get t).deadline ≤ now →
    ∃ y, x.popExpired now = some (t, y) ∧ y.WellFormed rest ∧ (y.cells.get t).prev = none ∧
      (y.cells.get t).next = none ∧ Spliced l t x y
  /-- Otherwise there is no new list. -/
  pop_none : ∀ now, (∀ t, l.head? = some t → now < (x.cells.get t).deadline) →
    x.popExpired now = none

/-- Whatever a well-formed list holds, it is a sorted sequence to those who use it. -/
theorem WellFormed.acts_as_sequence (h : x.WellFormed l) : x.ActsAsSequence l where
  contents := (wellFormed_iff_holds.1 h).contents_eq
  walk _ _ := h.seeksBack_iff
  insert _ ht := h.insert ht
  insert_spliced t _ := h.spliced_insert t
  expected _ ht := ⟨(wellFormed_iff_holds.1 h).isLinked_eq_true ht,
    h.len_eq ▸ List.length_pos_of_mem ht⟩
  remove _ ht := ⟨h.remove ht, (h.unlinked_remove ht).1, (h.unlinked_remove ht).2,
    (wellFormed_iff_holds.1 h).remove_fst_of_mem ht⟩
  remove_spliced _ ht := h.spliced_remove ht
  pop t rest now hl hdue := by
    subst hl
    have hmem : t ∈ t :: rest := List.mem_cons_self
    have hrest : (x.remove t).2.WellFormed rest := by simpa using h.remove hmem
    exact ⟨_, h.popExpired_eq_some hdue, hrest, (h.unlinked_remove hmem).1,
      (h.unlinked_remove hmem).2, h.spliced_remove hmem⟩
  pop_none _ hahead := h.popExpired_eq_none hahead

/-- Three timers on a list, the last two with one deadline, and a fourth one off it that has it
too. -/
def tied (t u v w : Fin n) : Threaded m n :=
  let behind : Timer m n := { deadline := .new 3 0 }
  let cells := (((Table.fill {}).set t { deadline := .new 1 0 }).set u behind).set v behind
  let start : Threaded m n := { list := {}, cells := cells.set w behind }
  (((start.insert t).2.insert u).2.insert v).2

/-- A timer is put in behind two with the same deadline, and the middle one of three is taken
out. -/
theorem tied_acts_as_sequence :
    let x : Threaded 1 4 := tied 2 0 1 3
    x.WellFormed [2, 0, 1] ∧ x.ActsAsSequence [2, 0, 1] ∧
      (x.insert 3).2.contents = [2, 0, 1, 3] ∧ (x.remove 0).2.contents = [2, 1] := by
  intro x
  have hx : x.WellFormed [2, 0, 1] := by decide +kernel
  have hrun : (x.insert 3).2.contents = [2, 0, 1, 3] ∧ (x.remove 0).2.contents = [2, 1] := by
    decide +kernel
  exact ⟨hx, hx.acts_as_sequence, hrun⟩

end Threaded
end SoftTimer
