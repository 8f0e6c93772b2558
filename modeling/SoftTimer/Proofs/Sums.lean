import Mathlib.Algebra.GroupWithZero.Nat
import Mathlib.Algebra.Order.BigOperators.Group.List
import Mathlib.Algebra.Order.Group.Nat
import SoftTimer.Proofs.Integers

/-!
# Sums of times

A sum of times that does not fit is the greatest time.  It may cease to fit after any of its terms,
by its seconds or by a carry from its nanoseconds, and still all that counts in the end is the exact
total: it is cut off once, wherever the cut was made on the way.  So the terms of a sum may be put in
any order and into any brackets, and a later term never makes for an earlier sum.

Main definitions:

- `Timespec.addCommMonoid`: times with the addition that stops at the greatest time.
- `Timespec.Bracketing`: a way to add up times two by two.

Main results:

- Theorem `Timespec.nanos_sum`: a sum is the exact total, cut off at the greatest time.
- Theorem `Timespec.Bracketing.value_eq_sum`: brackets do not matter.
- Theorem `Timespec.sum_mono`: a sum is monotone in each of its terms.
- Theorem `Timespec.sums_clamped`: all of this, on the words that count nanoseconds.
-/

namespace SoftTimer
namespace Timespec

/-! ## The monoid of times -/

instance : Zero Timespec := ⟨zero⟩

/-- Times form a commutative monoid under addition.  That the two sides of a law are cut off at
different places does not show, because both come to the exact total, cut off once. -/
instance addCommMonoid : AddCommMonoid Timespec where
  nsmul := nsmulRec
  add_assoc a b c := by
    have ha := a.nanos_le_maxNanos
    have hc := c.nanos_le_maxNanos
    rw [← nanos_inj]
    simp only [nanos_add, ← maxNanos_eq]
    omega
  zero_add a := by
    rw [← nanos_inj]
    show (zero + a).nanos = a.nanos
    rw [nanos_add, nanos_zero, Nat.zero_add]
    exact Nat.min_eq_left a.nanos_le_maxNanos
  add_zero a := by
    rw [← nanos_inj]
    show (a + zero).nanos = a.nanos
    rw [nanos_add, nanos_zero, Nat.add_zero]
    exact Nat.min_eq_left a.nanos_le_maxNanos
  add_comm a b := by
    rw [← nanos_inj, nanos_add, nanos_add, Nat.add_comm]

/-- The sum from left to right is the sum in the monoid. -/
theorem sum_eq_listSum (ts : List Timespec) : sum ts = ts.sum :=
  List.sum_eq_foldl.symm

/-! ## The total of a sum -/

/-- Adding up from a time on.  The invariant is that what has been added so far is already cut off,
so that a later cut swallows an earlier one. -/
theorem nanos_foldl_add (t : Timespec) (ts : List Timespec) :
    (ts.foldl (· + ·) t).nanos = min (t.nanos + (ts.map nanos).sum) maxNanos := by
  induction ts generalizing t with
  | nil =>
    rw [List.foldl_nil, List.map_nil, List.sum_nil, Nat.add_zero,
      Nat.min_eq_left t.nanos_le_maxNanos]
  | cons u us ih =>
    rw [List.foldl_cons, ih, nanos_add, ← maxNanos_eq, List.map_cons, List.sum_cons]
    omega

/-- A sum of times is their exact sum, up to the greatest time. -/
theorem nanos_sum (ts : List Timespec) : (sum ts).nanos = min (ts.map nanos).sum maxNanos := by
  rw [sum, nanos_foldl_add, nanos_zero, Nat.zero_add]

/-- A sum may be computed in two parts. -/
theorem sum_append (ts us : List Timespec) : sum (ts ++ us) = sum ts + sum us := by
  simp only [sum_eq_listSum, List.sum_append]

/-! ## Order, brackets and terms -/

variable {ts us : List Timespec}

/-- A sum does not depend on the order of its terms. -/
theorem sum_perm (h : ts.Perm us) : sum ts = sum us := by
  rw [sum_eq_listSum, sum_eq_listSum]
  exact h.sum_eq

/-- If no term gets earlier, the sum does not get earlier. -/
theorem sum_mono (h : List.Forall₂ (· ≤ ·) ts us) : sum ts ≤ sum us := by
  have hterms : List.Forall₂ (· ≤ ·) (ts.map nanos) (us.map nanos) := by
    rw [List.forall₂_map_left_iff, List.forall₂_map_right_iff]
    exact h.imp fun _ _ => le_iff_nanos_le.1
  have htotal := hterms.sum_le_sum
  rw [le_iff_nanos_le, nanos_sum, nanos_sum]
  omega

/-- A way to add up times two by two. -/
inductive Bracketing where
  /-- Nothing is added up. -/
  | empty
  /-- A single time. -/
  | term (t : Timespec)
  /-- The sum of two sums. -/
  | plus (a b : Bracketing)

namespace Bracketing

/-- The times that are added up, from left to right. -/
def terms : Bracketing → List Timespec
  | empty => []
  | term t => [t]
  | plus a b => a.terms ++ b.terms

/-- What adding up as the brackets say comes to. -/
def value : Bracketing → Timespec
  | empty => zero
  | term t => t
  | plus a b => a.value + b.value

/-- A sum does not depend on how it is bracketed. -/
theorem value_eq_sum (e : Bracketing) : e.value = sum e.terms := by
  induction e with
  | empty => rfl
  | term t => exact (zero_add t).symm
  | plus a b iha ihb => rw [value, terms, sum_append, iha, ihb]

end Bracketing

/-- Adding up times comes to their exact total, cut off at the greatest time.  Hence neither the
order of the times nor the brackets matter, and the sum is monotone in each of them. -/
theorem sums_clamped :
    (∀ ts : List Timespec, (sum ts).asNanos.toNat =
      min (ts.map (·.asNanos.toNat)).sum (4294967296 * 1000000000 - 1)) ∧
    (∀ a b c : Timespec, zero + a = a ∧ a + zero = a ∧ a + b = b + a ∧ a + b + c = a + (b + c)) ∧
    (∀ ts us : List Timespec, ts.Perm us → sum ts = sum us) ∧
    (∀ (e : Bracketing) (ts : List Timespec), e.terms.Perm ts → e.value = sum ts) ∧
    ∀ ts us : List Timespec, List.Forall₂ (· ≤ ·) ts us → sum ts ≤ sum us := by
  simp only [toNat_asNanos]
  refine ⟨nanos_sum, fun a b c => ⟨zero_add a, add_zero a, add_comm a b, add_assoc a b c⟩,
    fun ts us => sum_perm, ?brackets, fun ts us => sum_mono⟩
  intro e ts h
  rw [e.value_eq_sum, sum_perm h]

/-- In the one order a carry cuts the sum off at once, in the other only at the end. -/
theorem sums_clamped_carried :
    sum [latest, new 0 1, new 5 0] = sum [new 5 0, new 0 1, latest] ∧
      new 5 0 + (new 0 1 + latest) = sum [latest, new 0 1, new 5 0] ∧
      sum [latest, zero, new 5 0] ≤ sum [latest, new 0 1, new 5 0] := by
  rcases sums_clamped with ⟨-, -, hperm, hbrackets, hmono⟩
  have hturn : [latest, new 0 1, new 5 0].Perm [new 5 0, new 0 1, latest] := by decide
  refine ⟨hperm _ _ hturn, ?_, hmono _ _ ?_⟩
  · exact hbrackets (.plus (.term (new 5 0)) (.plus (.term (new 0 1)) (.term latest))) _ hturn.symm
  · exact .cons (by decide) (.cons (by decide) (.cons (by decide) .nil))

end Timespec
end SoftTimer
