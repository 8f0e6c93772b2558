import Mathlib.Data.Fintype.Card
import Mathlib.Data.List.TakeWhile
import SoftTimer.TimerList

/-!
# Links and the list they spell

A list of timers is only given by links: its ends, and the cells of the timers on it.  This file
says when such links hold a list, and what the operations make of the list that is held.

The links are read at places.  A place is named by the timer before it, or by the timer after it,
and `none` names the place at either end.  Along every cut of the list into two parts, what the
links say at the place of the cut has to be what the cut says.  Both directions are the same
property, read from opposite ends.

Main results:

- Theorem `Threaded.Holds.contents_eq`: the contents are the list that is held.
- Theorem `Threaded.Holds.insert`: a timer is put behind all that are not due after it.
- Theorem `Threaded.Holds.remove`: a timer is taken out, and nothing else moves.
- Theorem `Threaded.Holds.expired?_eq`: the timer that is due first stands at the head.
-/

namespace SoftTimer

/-! ## Order of times -/

namespace Timespec

instance : Std.IsLinearOrder Timespec where
  le_refl _ := le_iff_nanos_le.2 (Nat.le_refl _)
  le_trans _ _ _ h₁ h₂ :=
    le_iff_nanos_le.2 (Nat.le_trans (le_iff_nanos_le.1 h₁) (le_iff_nanos_le.1 h₂))
  le_antisymm _ _ h₁ h₂ :=
    nanos_inj.1 (Nat.le_antisymm (le_iff_nanos_le.1 h₁) (le_iff_nanos_le.1 h₂))
  le_total a b := (Nat.le_total a.nanos b.nanos).imp le_iff_nanos_le.2 le_iff_nanos_le.2

end Timespec

/-! ## Links along a list -/

section Spells

variable {α : Type} {f g : Option α → Option α} {a b l : List α} {t : α}

/-- The links `f` spell a list: at the place behind its first part stands the head of the rest,
wherever the list is cut. -/
def Spells (f : Option α → Option α) (l : List α) : Prop :=
  ∀ a b, l = a ++ b → f a.getLast? = b.head?

/-- In a list without repetition a place determines the part before it. -/
theorem eq_of_getLast?_eq {c d : List α} (hl : l.Nodup) (h₁ : l = a ++ b) (h₂ : l = c ++ d)
    (h : a.getLast? = c.getLast?) : a = c := by
  have aux : ∀ {a c b : List α}, (a ++ (c ++ b)).Nodup → a.getLast? = (a ++ c).getLast? →
      c = [] := by
    intro a c b hnd hlast
    by_contra hne
    rcases Option.isSome_iff_exists.1 (List.getLast?_isSome.2 hne) with ⟨v, hv⟩
    rw [List.getLast?_append, hv, Option.some_or] at hlast
    exact List.disjoint_of_nodup_append hnd (List.mem_of_getLast? hlast)
      (List.mem_append_left _ (List.mem_of_getLast? hv))
  subst h₁
  rcases List.append_eq_append_iff.1 h₂ with ⟨e, rfl, rfl⟩ | ⟨e, rfl, rfl⟩
  · rw [aux hl h, List.append_nil]
  · rw [List.append_assoc] at hl
    rw [aux hl h.symm, List.append_nil]

/-- Links that differ at one place only, where they lead to a new element and on from it, spell
the list with that element put in. -/
theorem Spells.insert (h : Spells f (a ++ b)) (hnd : (a ++ b).Nodup) (ht : t ∉ a ++ b)
    (hnew : g (some t) = b.head?) (hplace : g a.getLast? = some t)
    (helse : ∀ q, q ≠ some t → q ≠ a.getLast? → g q = f q) : Spells g (a ++ t :: b) := by
  have hold : ∀ c : List α, t ∉ c → c.getLast? ≠ some t :=
    fun c hc heq => hc (List.mem_of_getLast? heq)
  intro c d hcut
  rcases List.append_eq_append_iff.1 hcut with ⟨e, rfl, hd⟩ | ⟨e, rfl, rfl⟩
  · cases e with
    | nil =>
      obtain rfl : t :: b = d := hd
      simpa using hplace
    | cons v e =>
      rcases List.cons.inj hd with ⟨rfl, rfl⟩
      cases e with
      | nil => simpa using hnew
      | cons v e =>
        have hcut : a ++ (v :: e ++ d) = (a ++ v :: e) ++ d := (List.append_assoc _ _ _).symm
        have hlast : (a ++ t :: v :: e).getLast? = (a ++ v :: e).getLast? := by
          simp [List.getLast?_append]
        have hne : (a ++ v :: e).getLast? ≠ a.getLast? := by
          intro heq
          simpa using eq_of_getLast?_eq hnd hcut rfl heq
        rw [hlast, helse _ (hold _ (by simp_all)) hne]
        exact h _ _ hcut
  · cases e with
    | nil => simpa using hplace
    | cons v e =>
      have hne : c.getLast? ≠ (c ++ v :: e).getLast? := by
        intro heq
        simpa using eq_of_getLast?_eq hnd (List.append_assoc _ _ _) rfl heq
      rw [helse _ (hold c (by simp_all)) hne, h c (v :: e ++ b) (List.append_assoc _ _ _)]
      rfl

/-- Links that lead past one element spell the list without it. -/
theorem Spells.remove (h : Spells f (a ++ t :: b)) (hnd : (a ++ t :: b).Nodup)
    (hplace : g a.getLast? = b.head?)
    (helse : ∀ q, q ≠ some t → q ≠ a.getLast? → g q = f q) : Spells g (a ++ b) := by
  have ht : t ∉ a ++ b := (List.nodup_middle.1 hnd).notMem
  have hnd' : (a ++ b).Nodup := (List.nodup_middle.1 hnd).of_cons
  have hold : ∀ c : List α, t ∉ c → c.getLast? ≠ some t :=
    fun c hc heq => hc (List.mem_of_getLast? heq)
  intro c d hcut
  rcases List.append_eq_append_iff.1 hcut with ⟨e, rfl, rfl⟩ | ⟨e, rfl, rfl⟩
  · cases e with
    | nil => simpa using hplace
    | cons v e =>
      have hcut : a ++ (v :: e ++ d) = (a ++ v :: e) ++ d := (List.append_assoc _ _ _).symm
      have hlast : (a ++ v :: e).getLast? = (a ++ t :: v :: e).getLast? := by
        simp [List.getLast?_append]
      have hne : (a ++ v :: e).getLast? ≠ a.getLast? := by
        intro heq
        simpa using eq_of_getLast?_eq hnd' hcut rfl heq
      rw [helse _ (hold _ (by simp_all)) hne, hlast]
      exact h (a ++ t :: v :: e) d (List.append_assoc a (t :: v :: e) d).symm
  · cases e with
    | nil => simpa using hplace
    | cons v e =>
      have hne : c.getLast? ≠ (c ++ v :: e).getLast? := by
        intro heq
        simpa using eq_of_getLast?_eq hnd' (List.append_assoc _ _ _) rfl heq
      rw [helse _ (hold c (by simp_all)) hne,
        h c (v :: e ++ t :: b) (List.append_assoc _ _ _)]
      rfl

/-- Following single steps from a start visits the elements of a list, one after the other, and
ends there. -/
def Trail (step : α → Option α) : Option α → List α → Prop
  | start, [] => start = none
  | start, t :: rest => start = some t ∧ Trail step (step t) rest

/-- Links that spell a list lead along it from its start. -/
theorem Spells.trail (h : Spells f l) : Trail (fun t => f (some t)) (f none) l := by
  have hrest : ∀ b a, l = a ++ b → Trail (fun t => f (some t)) (f a.getLast?) b := by
    intro b
    induction b with
    | nil =>
      intro a hcut
      exact h a [] hcut
    | cons t b ih =>
      intro a hcut
      refine ⟨h a (t :: b) hcut, ?_⟩
      simpa using ih (a ++ [t]) (by simp [hcut])
  exact hrest l [] rfl

end Spells

/-! ## Placing and erasing an element -/

section Placed

variable {α : Type} (p : α → Bool) (t : α) (l : List α)

/-- A list with an element put in behind the longest first part that satisfies `p`. -/
def placed : List α :=
  l.takeWhile p ++ t :: l.dropWhile p

variable {p t l}

/-- The place of an element depends on what holds of the elements of the list only. -/
theorem placed_congr {q : α → Bool} (h : ∀ u ∈ l, p u = q u) : placed p t l = placed q t l := by
  have htake : ∀ l : List α, (∀ u ∈ l, p u = q u) →
      l.takeWhile p = l.takeWhile q ∧ l.dropWhile p = l.dropWhile q := by
    intro l
    induction l with
    | nil => simp
    | cons v l ih =>
      intro h
      rcases ih fun u hu => h u (List.mem_cons_of_mem _ hu) with ⟨htake, hdrop⟩
      simp [List.takeWhile_cons, List.dropWhile_cons, h v List.mem_cons_self, htake, hdrop]
  rw [placed, placed, (htake l h).1, (htake l h).2]

/-- Placing an element adds it, in some place. -/
theorem perm_placed : (placed p t l).Perm (t :: l) := by
  have h : (placed p t l).Perm (t :: (l.takeWhile p ++ l.dropWhile p)) := List.perm_middle
  rwa [List.takeWhile_append_dropWhile] at h

@[simp]
theorem mem_placed {u : α} : u ∈ placed p t l ↔ u = t ∨ u ∈ l :=
  perm_placed.mem_iff.trans List.mem_cons

/-- Whatever else happens, the head is the new element or stays. -/
theorem head?_placed : (placed p t l).head? = some t ∨ (placed p t l).head? = l.head? := by
  cases l with
  | nil => exact .inl rfl
  | cons v l =>
    by_cases hv : p v = true
    · simp [placed, hv]
    · simp [placed, hv]

/-- Placing a new element makes no repetition. -/
theorem nodup_placed (hl : l.Nodup) (ht : t ∉ l) : (placed p t l).Nodup :=
  perm_placed.nodup_iff.2 (List.nodup_cons.2 ⟨ht, hl⟩)

/-- Along ascending keys, those behind the first part that is not above a bound are all above it. -/
theorem lt_of_mem_dropWhile {key : α → Timespec} {bound : Timespec}
    (hl : l.Pairwise fun u v => key u ≤ key v) {u : α}
    (hu : u ∈ l.dropWhile fun v => decide (key v ≤ bound)) : ¬ key u ≤ bound := by
  induction l with
  | nil => simp at hu
  | cons v l ih =>
    by_cases hv : key v ≤ bound
    · rw [List.dropWhile_cons_of_pos (by simpa using hv)] at hu
      exact ih hl.of_cons hu
    · rw [List.dropWhile_cons_of_neg (by simpa using hv)] at hu
      rcases List.mem_cons.1 hu with rfl | hu
      · exact hv
      · intro hle
        exact hv (Std.le_trans (List.rel_of_pairwise_cons hl hu) hle)

/-- An element placed by its key keeps the keys ascending. -/
theorem ascending_placed {key : α → Timespec} (hl : l.Pairwise fun u v => key u ≤ key v) (t : α) :
    (placed (fun u => decide (key u ≤ key t)) t l).Pairwise fun u v => key u ≤ key v := by
  have hcut := hl
  rw [← List.takeWhile_append_dropWhile (p := fun u => decide (key u ≤ key t)) (l := l),
    List.pairwise_append] at hcut
  rcases hcut with ⟨hbefore, hbehind, hacross⟩
  have hle : ∀ u ∈ l.takeWhile fun u => decide (key u ≤ key t), key u ≤ key t :=
    fun u hu => by simpa using List.mem_takeWhile_imp hu
  have hge : ∀ v ∈ l.dropWhile fun u => decide (key u ≤ key t), key t ≤ key v :=
    fun v hv => (Std.le_total (a := key v)).resolve_left (lt_of_mem_dropWhile hl hv)
  refine List.pairwise_append.2 ⟨hbefore, List.pairwise_cons.2 ⟨hge, hbehind⟩, ?_⟩
  intro u hu v hv
  rcases List.mem_cons.1 hv with rfl | hv
  · exact hle u hu
  · exact hacross u hu v hv

end Placed

/-- Erasing an element that is not the first one keeps the first one. -/
theorem head?_erase_of_ne {α : Type} [DecidableEq α] {l : List α} {t : α} (h : l.head? ≠ some t) :
    (l.erase t).head? = l.head? := by
  cases l with
  | nil => rfl
  | cons v l =>
    have hne : v ≠ t := fun heq => h (congrArg some heq)
    rw [List.erase_cons_tail (by simpa using hne), List.head?_cons, List.head?_cons]

/-! ## Threaded lists -/

/-- The cells of a timer but for its links in the list. -/
def Timer.body {m n : Nat} (t : Timer m n) : Timer m n :=
  { t with prev := none, next := none }

namespace Timer

variable {m n : Nat} (t : Timer m n)

@[simp] theorem callback_body : t.body.callback = t.callback := rfl
@[simp] theorem arg_body : t.body.arg = t.arg := rfl
@[simp] theorem deadline_body : t.body.deadline = t.deadline := rfl
@[simp] theorem period_body : t.body.period = t.period := rfl
@[simp] theorem armed_body : t.body.armed = t.armed := rfl
@[simp] theorem firedNext_body : t.body.firedNext = t.firedNext := rfl
@[simp] theorem owner_body : t.body.owner = t.owner := rfl

variable {t}

/-- A timer without links is its body. -/
theorem body_eq_self (hprev : t.prev = none) (hnext : t.next = none) : t.body = t := by
  cases t
  simp_all [body]

/-- What does not depend on links is the same where cells differ at most in links. -/
theorem apply_eq_of_body_eq {β : Type} {φ : Timer m n → β} (h : ∀ c : Timer m n, φ c.body = φ c)
    {a b : Timer m n} (hbody : a.body = b.body) : φ a = φ b := by
  rw [← h a, hbody, h]

end Timer

namespace Threaded

variable {m n : Nat}

/-- The timer that precedes a place; the place is given by the timer after it. -/
def leader (x : Threaded m n) : Option (Fin n) → Option (Fin n)
  | none => x.list.tail
  | some t => (x.cells.get t).prev

/-- Whether a timer is due at a time. -/
def isDue (cells : Cells m n) (now : Timespec) (t : Fin n) : Bool :=
  decide ((cells.get t).deadline ≤ now)

/-- The links of `x` hold the list `l`: forwards they spell it and backwards its reverse, the count
is its length, and no deadline comes before an earlier one. -/
structure Holds (x : Threaded m n) (l : List (Fin n)) : Prop where
  nodup : l.Nodup
  forwards : Spells x.follower l
  backwards : Spells x.leader l.reverse
  len_eq : x.list.len = l.length
  ascending : l.Pairwise fun t u => (x.cells.get t).deadline ≤ (x.cells.get u).deadline

/-! ### Links after a change -/

section Links

variable (x : Threaded m n) (t : Fin n) (place q : Option (Fin n)) (prev next : Option (Fin n))

/-- What follows a place after what follows one was set. -/
theorem follower_setFollower :
    (x.setFollower place next).follower q = if q = place then next else x.follower q := by
  cases place with
  | none => cases q <;> simp [setFollower, follower]
  | some p =>
    cases q with
    | none => rfl
    | some u => by_cases h : u = p <;> simp [setFollower, follower, Table.get_modify, h]

/-- Setting what follows a place does not change what comes before any. -/
theorem leader_setFollower : (x.setFollower place next).leader q = x.leader q := by
  cases place with
  | none => cases q <;> rfl
  | some p =>
    cases q with
    | none => rfl
    | some u => exact Table.apply_get_modify (φ := Timer.prev) (by intro _; rfl) _ _ _

/-- Setting what comes before a place does not change what follows any. -/
theorem follower_setLeader : (x.setLeader place prev).follower q = x.follower q := by
  cases place with
  | none => cases q <;> rfl
  | some p =>
    cases q with
    | none => rfl
    | some u => exact Table.apply_get_modify (φ := Timer.next) (by intro _; rfl) _ _ _

/-- What comes before a place after what comes before one was set. -/
theorem leader_setLeader :
    (x.setLeader place prev).leader q = if q = place then prev else x.leader q := by
  cases place with
  | none => cases q <;> simp [setLeader, leader]
  | some p =>
    cases q with
    | none => rfl
    | some u => by_cases h : u = p <;> simp [setLeader, leader, Table.get_modify, h]

/-- What follows a place after both links of a timer were set. -/
theorem follower_setLinks :
    (x.setLinks t prev next).follower q = if q = some t then next else x.follower q := by
  cases q with
  | none => rfl
  | some u => by_cases h : u = t <;> simp [setLinks, follower, Table.get_modify, h]

/-- What comes before a place after both links of a timer were set. -/
theorem leader_setLinks :
    (x.setLinks t prev next).leader q = if q = some t then prev else x.leader q := by
  cases q with
  | none => rfl
  | some u => by_cases h : u = t <;> simp [setLinks, leader, Table.get_modify, h]

/-- The count has no part in what follows a place. -/
theorem follower_setLen (k : Nat) :
    ({ x with list.len := k } : Threaded m n).follower q = x.follower q := by
  cases q <;> rfl

/-- The count has no part in what comes before a place. -/
theorem leader_setLen (k : Nat) :
    ({ x with list.len := k } : Threaded m n).leader q = x.leader q := by
  cases q <;> rfl

end Links

/-! ### What links do not touch -/

section Body

variable (x : Threaded m n) (t u : Fin n) (place prev next : Option (Fin n))

/-- Setting what follows a place changes no cells but links. -/
theorem body_setFollower :
    ((x.setFollower place next).cells.get u).body = (x.cells.get u).body := by
  cases place with
  | none => rfl
  | some p => exact Table.apply_get_modify (φ := Timer.body) (by intro _; rfl) _ _ _

/-- Setting what comes before a place changes no cells but links. -/
theorem body_setLeader :
    ((x.setLeader place prev).cells.get u).body = (x.cells.get u).body := by
  cases place with
  | none => rfl
  | some p => exact Table.apply_get_modify (φ := Timer.body) (by intro _; rfl) _ _ _

/-- Setting the links of a timer changes none of its other cells. -/
theorem body_setLinks :
    ((x.setLinks t prev next).cells.get u).body = (x.cells.get u).body :=
  Table.apply_get_modify (φ := Timer.body) (by intro _; rfl) _ _ _

/-- Insertion changes no cells but links. -/
theorem body_insert : ((x.insert t).2.cells.get u).body = (x.cells.get u).body := by
  simp only [insert, body_setLeader, body_setLinks, body_setFollower]

/-- Removal changes no cells but links. -/
theorem body_remove : ((x.remove t).2.cells.get u).body = (x.cells.get u).body := by
  simp only [remove, body_setLeader, body_setLinks, body_setFollower]

end Body

/-! ### Cells that a change leaves alone -/

section Elsewhere

variable {x : Threaded m n} {t u : Fin n} {place : Option (Fin n)} (prev next : Option (Fin n))

/-- Setting what follows a place changes no other timer. -/
theorem get_setFollower_of_ne (h : some u ≠ place) :
    (x.setFollower place next).cells.get u = x.cells.get u := by
  cases place with
  | none => rfl
  | some p => exact Table.get_modify_of_ne _ (fun heq => h (congrArg some heq)) _

/-- Setting what comes before a place changes no other timer. -/
theorem get_setLeader_of_ne (h : some u ≠ place) :
    (x.setLeader place prev).cells.get u = x.cells.get u := by
  cases place with
  | none => rfl
  | some p => exact Table.get_modify_of_ne _ (fun heq => h (congrArg some heq)) _

/-- Setting the links of a timer changes no other timer. -/
theorem get_setLinks_of_ne (h : u ≠ t) :
    (x.setLinks t prev next).cells.get u = x.cells.get u :=
  Table.get_modify_of_ne _ h _

end Elsewhere

namespace Holds

variable {x : Threaded m n} {l a b : List (Fin n)} {t u : Fin n}

/-- A list without repetition has no more than `n` timers. -/
theorem length_le (h : x.Holds l) : l.length ≤ n := by
  simpa using h.nodup.length_le_card

/-- At a cut, the first part is followed by the head of the second. -/
theorem follower_eq (h : x.Holds (a ++ b)) : x.follower a.getLast? = b.head? :=
  h.forwards a b rfl

/-- At a cut, before the second part comes the last of the first. -/
theorem leader_eq (h : x.Holds (a ++ b)) : x.leader b.head? = a.getLast? := by
  simpa using h.backwards b.reverse a.reverse (by simp)

/-- A timer on the list is linked back to the one before it. -/
theorem prev_eq (h : x.Holds (a ++ t :: b)) : (x.cells.get t).prev = a.getLast? :=
  h.leader_eq

/-- A timer on the list is linked to the one after it. -/
theorem next_eq (h : x.Holds (a ++ t :: b)) : (x.cells.get t).next = b.head? := by
  have h' : x.Holds ((a ++ [t]) ++ b) := by simpa using h
  simpa [follower] using h'.follower_eq

/-- The head is the first timer of the list. -/
theorem head_eq (h : x.Holds l) : x.list.head = l.head? :=
  h.forwards [] l rfl

/-! ### Reading a list -/

/-- Following the links from a cut visits the rest of the list. -/
theorem follow_eq (h : x.Holds (a ++ b)) {steps : Nat} (hsteps : b.length ≤ steps) :
    follow x.cells steps b.head? = b := by
  induction b generalizing a steps with
  | nil => exact follow_none _ _
  | cons t b ih =>
    obtain ⟨steps, rfl⟩ : ∃ k, steps = k + 1 := ⟨steps - 1, by simp at hsteps; omega⟩
    have hrest : follow x.cells steps b.head? = b :=
      ih (a := a ++ [t]) (by simpa using h) (by simpa using hsteps)
    rw [List.head?_cons, follow_succ, h.next_eq, hrest]

/-- The contents of a threaded list are the list that its links hold. -/
theorem contents_eq (h : x.Holds l) : x.contents = l := by
  rw [contents, h.head_eq]
  exact h.follow_eq (a := []) h.length_le

/-! ### Inserting -/

/-- Walking back from a cut leads to the last timer whose deadline is not after the given one. -/
theorem seekBack_eq (h : x.Holds (a ++ b)) (deadline : Timespec) {steps : Nat}
    (hsteps : a.length ≤ steps) :
    seekBack x.cells deadline steps a.getLast? =
      (a.takeWhile (isDue x.cells deadline)).getLast? := by
  induction a using List.reverseRecOn generalizing b steps with
  | nil => cases steps <;> rfl
  | append_singleton a t ih =>
    obtain ⟨steps, rfl⟩ : ∃ k, steps = k + 1 := ⟨steps - 1, by simp at hsteps; omega⟩
    have h' : x.Holds (a ++ t :: b) := by simpa using h
    rw [List.getLast?_concat, seekBack]
    by_cases hdue : (x.cells.get t).deadline ≤ deadline
    · -- no deadline before that of `t` is later, so the whole part is due
      have hall : ∀ u ∈ a ++ [t], isDue x.cells deadline u = true := by
        intro u hu
        have hle : (x.cells.get u).deadline ≤ (x.cells.get t).deadline := by
          rcases List.mem_append.1 hu with hu | hu
          · exact (List.pairwise_append.1 h'.ascending).2.2 u hu t (by simp)
          · rw [List.mem_singleton.1 hu]
            exact Std.le_refl _
        exact decide_eq_true (Std.le_trans hle hdue)
      have htake : (a ++ [t]).takeWhile (isDue x.cells deadline) = a ++ [t] :=
        List.takeWhile_eq_self_iff.2 hall
      rw [if_pos hdue, htake, List.getLast?_concat]
    · have hstop : [t].takeWhile (isDue x.cells deadline) = [] := by simp [isDue, hdue]
      rw [if_neg hdue, h'.prev_eq, ih h' (by simpa using hsteps), List.takeWhile_append, hstop,
        List.append_nil]
      split
      · next hlen => rw [(List.takeWhile_prefix _).eq_of_length hlen]
      · rfl

/-- The place for a deadline is behind the last timer whose deadline is not after it. -/
theorem lastBy_eq (h : x.Holds l) (deadline : Timespec) :
    x.lastBy deadline = (l.takeWhile (isDue x.cells deadline)).getLast? := by
  have hl : x.Holds (l ++ []) := by simpa using h
  have htail : x.list.tail = l.getLast? := hl.leader_eq
  rw [lastBy, htail]
  exact hl.seekBack_eq deadline h.length_le

/-- How inserting sets the links: the timer goes between its place and the timer that follows. -/
theorem insert_eq (h : x.Holds (a ++ b))
    (ha : (a ++ b).takeWhile (isDue x.cells (x.cells.get t).deadline) = a) :
    x.insert t = (a.isEmpty,
      { ((x.setFollower a.getLast? (some t)).setLinks t a.getLast? b.head?).setLeader b.head?
          (some t) with list.len := (a ++ b).length + 1 }) := by
  have hplace : x.lastBy (x.cells.get t).deadline = a.getLast? := by rw [h.lastBy_eq, ha]
  have hfirst : a.getLast?.isNone = a.isEmpty := by cases a <;> simp
  have hlen : ∀ place next, (((x.setFollower place (some t)).setLinks t place next).setLeader next
      (some t)).list.len = x.list.len := by
    intro place next
    cases place <;> cases next <;> rfl
  simp only [Threaded.insert, hplace, h.follower_eq, hfirst, hlen, h.len_eq]

/-- An element is placed at a cut of the list, behind the longest first part of which `p` holds. -/
theorem exists_cut (p : Fin n → Bool) (t : Fin n) (l : List (Fin n)) :
    ∃ a b, l = a ++ b ∧ l.takeWhile p = a ∧ placed p t l = a ++ t :: b :=
  ⟨_, _, List.takeWhile_append_dropWhile.symm, rfl, rfl⟩

/-- Timers off the list keep their cells while one of them is put in. -/
theorem get_insert_of_notMem (h : x.Holds l) (hu : u ∉ l) (hne : u ≠ t) :
    (x.insert t).2.cells.get u = x.cells.get u := by
  rcases exists_cut (isDue x.cells (x.cells.get t).deadline) t l with ⟨a, b, rfl, ha, -⟩
  rw [h.insert_eq ha]
  have hplace : some u ≠ a.getLast? :=
    fun heq => hu (List.mem_append_left _ (List.mem_of_getLast? heq.symm))
  have hnext : some u ≠ b.head? :=
    fun heq => hu (List.mem_append_right _ (List.mem_of_head? heq.symm))
  simp only [get_setLeader_of_ne _ hnext, get_setLinks_of_ne _ _ hne,
    get_setFollower_of_ne _ hplace]

/-- What follows each place after an insertion. -/
theorem follower_insert (h : x.Holds (a ++ b))
    (ha : (a ++ b).takeWhile (isDue x.cells (x.cells.get t).deadline) = a) (q : Option (Fin n)) :
    (x.insert t).2.follower q =
      if q = some t then b.head? else if q = a.getLast? then some t else x.follower q := by
  rw [h.insert_eq ha, follower_setLen, follower_setLeader, follower_setLinks, follower_setFollower]

/-- What comes before each place after an insertion. -/
theorem leader_insert (h : x.Holds (a ++ b))
    (ha : (a ++ b).takeWhile (isDue x.cells (x.cells.get t).deadline) = a) (q : Option (Fin n)) :
    (x.insert t).2.leader q =
      if q = b.head? then some t else if q = some t then a.getLast? else x.leader q := by
  rw [h.insert_eq ha, leader_setLen, leader_setLeader, leader_setLinks, leader_setFollower]

/-- A timer is put in behind all those that are not due after it. -/
theorem insert (h : x.Holds l) (ht : t ∉ l) :
    (x.insert t).2.Holds (placed (isDue x.cells (x.cells.get t).deadline) t l) := by
  have hdeadline : ∀ u, ((x.insert t).2.cells.get u).deadline = (x.cells.get u).deadline :=
    fun u => Timer.apply_eq_of_body_eq Timer.deadline_body (body_insert x t u)
  have hascending : (placed (isDue x.cells (x.cells.get t).deadline) t l).Pairwise fun u v =>
      (x.cells.get u).deadline ≤ (x.cells.get v).deadline := ascending_placed h.ascending t
  have hnodup := nodup_placed (p := isDue x.cells (x.cells.get t).deadline) h.nodup ht
  rcases exists_cut (isDue x.cells (x.cells.get t).deadline) t l with ⟨a, b, rfl, ha, hp⟩
  have hta : a.getLast? ≠ some t :=
    fun heq => ht (List.mem_append_left _ (List.mem_of_getLast? heq))
  have htb : b.head? ≠ some t :=
    fun heq => ht (List.mem_append_right _ (List.mem_of_head? heq))
  have hlen : (x.insert t).2.list.len = (a ++ b).length + 1 := by rw [h.insert_eq ha]
  rw [hp] at hnodup hascending ⊢
  refine ⟨hnodup, ?_, ?_, ?_, ?_⟩
  · apply h.forwards.insert h.nodup ht
    · rw [h.follower_insert ha, if_pos rfl]
    · rw [h.follower_insert ha, if_neg hta, if_pos rfl]
    · intro q hq hqa
      rw [h.follower_insert ha, if_neg hq, if_neg hqa]
  · have hback : Spells x.leader (b.reverse ++ a.reverse) := by simpa using h.backwards
    have hrev : (a ++ t :: b).reverse = b.reverse ++ t :: a.reverse := by simp
    rw [hrev]
    apply hback.insert
    · simpa using (List.reverse_perm (a ++ b)).nodup_iff.2 h.nodup
    · simpa [or_comm] using ht
    · rw [h.leader_insert ha, if_neg htb.symm, if_pos rfl, List.head?_reverse]
    · rw [h.leader_insert ha, List.getLast?_reverse, if_pos rfl]
    · intro q hq hqb
      rw [List.getLast?_reverse] at hqb
      rw [h.leader_insert ha, if_neg hqb, if_neg hq]
  · rw [hlen, List.length_append, List.length_append, List.length_cons, Nat.add_assoc]
  · simpa only [hdeadline] using hascending

/-- A timer is reported to have become the head exactly when it has. -/
theorem insert_fst (h : x.Holds l) (ht : t ∉ l) :
    (x.insert t).1 = true ↔
      (placed (isDue x.cells (x.cells.get t).deadline) t l).head? = some t := by
  rcases exists_cut (isDue x.cells (x.cells.get t).deadline) t l with ⟨a, b, rfl, ha, hp⟩
  rw [h.insert_eq ha, hp]
  cases a with
  | nil => simp
  | cons v a =>
    have hv : v ≠ t := fun heq => ht (by simp [heq])
    simp [hv]

/-! ### Removing -/

/-- What follows each place after a removal. -/
theorem follower_remove (h : x.Holds (a ++ t :: b)) (q : Option (Fin n)) :
    (x.remove t).2.follower q =
      if q = a.getLast? then b.head? else if q = some t then none else x.follower q := by
  simp only [Threaded.remove, h.prev_eq, h.next_eq]
  rw [follower_setLen, follower_setLeader, follower_setFollower, follower_setLinks]

/-- What comes before each place after a removal. -/
theorem leader_remove (h : x.Holds (a ++ t :: b)) (q : Option (Fin n)) :
    (x.remove t).2.leader q =
      if q = b.head? then a.getLast? else if q = some t then none else x.leader q := by
  simp only [Threaded.remove, h.prev_eq, h.next_eq]
  rw [leader_setLen, leader_setLeader, leader_setFollower, leader_setLinks]

/-- A timer is taken out, and the others stay in their order. -/
theorem remove (h : x.Holds (a ++ t :: b)) : (x.remove t).2.Holds (a ++ b) := by
  have hdeadline : ∀ u, ((x.remove t).2.cells.get u).deadline = (x.cells.get u).deadline :=
    fun u => Timer.apply_eq_of_body_eq Timer.deadline_body (body_remove x t u)
  have hlen : (x.remove t).2.list.len = x.list.len - 1 := by
    simp only [Threaded.remove]
    cases (x.cells.get t).prev <;> cases (x.cells.get t).next <;> rfl
  have hsub : (a ++ b).Sublist (a ++ t :: b) := (List.sublist_cons_self t b).append_left a
  refine ⟨h.nodup.sublist hsub, ?_, ?_, ?_, ?_⟩
  · apply h.forwards.remove h.nodup
    · rw [h.follower_remove, if_pos rfl]
    · intro q hq hqa
      rw [h.follower_remove, if_neg hqa, if_neg hq]
  · have hback : Spells x.leader (b.reverse ++ t :: a.reverse) := by simpa using h.backwards
    rw [List.reverse_append]
    apply hback.remove
    · simpa using (List.reverse_perm (a ++ t :: b)).nodup_iff.2 h.nodup
    · rw [h.leader_remove, List.getLast?_reverse, if_pos rfl, List.head?_reverse]
    · intro q hq hqb
      rw [List.getLast?_reverse] at hqb
      rw [h.leader_remove, if_neg hqb, if_neg hq]
  · rw [hlen, h.len_eq]
    simp
  · simpa only [hdeadline] using h.ascending.sublist hsub

/-- A timer is reported as the first one exactly when it stood at the head. -/
theorem remove_fst (h : x.Holds (a ++ t :: b)) : (x.remove t).1 = a.isEmpty := by
  simp only [Threaded.remove, h.prev_eq]
  cases a <;> simp

/-- Removing a timer on the list leaves the list without it. -/
theorem erase (h : x.Holds l) (ht : t ∈ l) : (x.remove t).2.Holds (l.erase t) := by
  rcases List.append_of_mem ht with ⟨a, b, rfl⟩
  have hta : t ∉ a := fun hmem => List.disjoint_of_nodup_append h.nodup hmem List.mem_cons_self
  rw [List.erase_append_right _ hta, List.erase_cons_head]
  exact h.remove

/-- Removal reports that the timer was the head exactly if it was. -/
theorem remove_fst_of_mem (h : x.Holds l) (ht : t ∈ l) :
    (x.remove t).1 = true ↔ l.head? = some t := by
  rcases List.append_of_mem ht with ⟨a, b, rfl⟩
  rw [h.remove_fst]
  cases a with
  | nil => simp
  | cons v a =>
    have hv : v ≠ t := by
      rintro rfl
      exact (List.nodup_cons.1 h.nodup).1 (by simp)
    simp [hv]

/-- A timer on a list is not the head of what follows it. -/
theorem ne_head?_of_nodup (h : x.Holds (a ++ t :: b)) : some t ≠ b.head? := by
  intro heq
  exact (List.nodup_cons.1 (List.nodup_append.1 h.nodup).2.1).1 (List.mem_of_head? heq.symm)

/-- A timer that was taken out has no links, and its other cells are as before. -/
theorem get_remove_self (h : x.Holds l) (ht : t ∈ l) :
    (x.remove t).2.cells.get t = (x.cells.get t).body := by
  rcases List.append_of_mem ht with ⟨a, b, rfl⟩
  have hprev : ((x.remove t).2.cells.get t).prev = none := by
    have hlead := h.leader_remove (some t)
    rwa [if_neg h.ne_head?_of_nodup, if_pos rfl] at hlead
  have hnext : ((x.remove t).2.cells.get t).next = none := by
    have hfollow := h.follower_remove (some t)
    have hne : some t ≠ a.getLast? := fun heq =>
      List.disjoint_of_nodup_append h.nodup (List.mem_of_getLast? heq.symm) List.mem_cons_self
    rwa [if_neg hne, if_pos rfl] at hfollow
  rw [← Timer.body_eq_self hprev hnext, body_remove]

/-- Timers off the list keep their cells while one of it is taken out. -/
theorem get_remove_of_notMem (h : x.Holds l) (ht : t ∈ l) (hu : u ∉ l) :
    (x.remove t).2.cells.get u = x.cells.get u := by
  rcases List.append_of_mem ht with ⟨a, b, rfl⟩
  have hplace : some u ≠ a.getLast? :=
    fun heq => hu (List.mem_append_left _ (List.mem_of_getLast? heq.symm))
  have hnext : some u ≠ b.head? :=
    fun heq => hu (List.mem_append_right _ (List.mem_cons_of_mem _ (List.mem_of_head? heq.symm)))
  have hne : u ≠ t := fun heq => hu (heq ▸ ht)
  simp only [Threaded.remove, h.prev_eq, h.next_eq, get_setLeader_of_ne _ hnext,
    get_setLinks_of_ne _ _ hne, get_setFollower_of_ne _ hplace]

/-- A timer of the list shows by its links, or by the head, that it is linked. -/
theorem isLinked_eq_true (h : x.Holds l) (ht : t ∈ l) : x.isLinked t = true := by
  rcases List.append_of_mem ht with ⟨a, b, rfl⟩
  rw [isLinked, h.prev_eq, h.head_eq]
  cases a <;> simp

/-- The first timer of the list is taken as expired exactly when it is due. -/
theorem expired?_eq (h : x.Holds l) (now : Timespec) :
    x.expired? now = (l.takeWhile (isDue x.cells now)).head? := by
  rw [List.head?_takeWhile, ← h.head_eq]
  rfl

/-- The timers that are due are the first ones of the list. -/
theorem takeWhile_isDue (h : x.Holds l) (now : Timespec) :
    l.takeWhile (isDue x.cells now) = l.filter (isDue x.cells now) := by
  have hcut := List.takeWhile_append_dropWhile (p := isDue x.cells now) (l := l)
  have hnone : (l.dropWhile (isDue x.cells now)).filter (isDue x.cells now) = [] := by
    apply List.filter_eq_nil_iff.2
    intro u hu
    simpa [isDue] using lt_of_mem_dropWhile h.ascending hu
  have hall : (l.takeWhile (isDue x.cells now)).filter (isDue x.cells now) =
      l.takeWhile (isDue x.cells now) :=
    List.filter_eq_self.2 fun u hu => List.mem_takeWhile_imp hu
  calc l.takeWhile (isDue x.cells now)
      = (l.takeWhile (isDue x.cells now)).filter (isDue x.cells now) ++
          (l.dropWhile (isDue x.cells now)).filter (isDue x.cells now) := by
        rw [hall, hnone, List.append_nil]
    _ = l.filter (isDue x.cells now) := by rw [← List.filter_append, hcut]

/-! ### What the list depends on -/

/-- The list that is held depends on the links and the deadlines of its timers only. -/
theorem congr {y : Threaded m n} (h : x.Holds l) (hlist : y.list = x.list)
    (hcells : ∀ u ∈ l, (y.cells.get u).prev = (x.cells.get u).prev ∧
      (y.cells.get u).next = (x.cells.get u).next ∧
      (y.cells.get u).deadline = (x.cells.get u).deadline) : y.Holds l := by
  refine ⟨h.nodup, ?_, ?_, ?_, ?_⟩
  · intro a b hcut
    rw [← h.forwards a b hcut]
    cases hlast : a.getLast? with
    | none => simp [follower, hlist]
    | some p => exact (hcells p (hcut ▸ List.mem_append_left _ (List.mem_of_getLast? hlast))).2.1
  · intro a b hcut
    rw [← h.backwards a b hcut]
    cases hlast : a.getLast? with
    | none => simp [leader, hlist]
    | some p =>
      have hp : p ∈ l := by
        rw [← List.mem_reverse, hcut]
        exact List.mem_append_left _ (List.mem_of_getLast? hlast)
      exact (hcells p hp).1
  · rw [hlist, h.len_eq]
  · apply h.ascending.imp_of_mem
    intro u v hu hv hle
    rwa [(hcells u hu).2.2, (hcells v hv).2.2]

end Holds

end Threaded
end SoftTimer
