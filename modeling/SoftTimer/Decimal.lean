/-!
# Decimal digits

Digits of natural numbers, with and without leading zeros.

Main results:

- Theorem `value_digits`: the digits of a number read back as the number.
- Theorem `value_padded`: so do its padded digits.
- Theorem `length_padded`: a number that fits a width takes exactly that width.
-/

namespace SoftTimer
namespace Decimal

/-- The decimal digits of a number, without leading zeros. -/
def digits (n : Nat) : List Char :=
  Nat.toDigits 10 n

/-- The decimal digits of a number, filled up with leading zeros to at least `width` places. -/
def padded (width n : Nat) : List Char :=
  List.replicate (width - (digits n).length) '0' ++ digits n

/-- The number that a row of decimal digits denotes. -/
def value (cs : List Char) : Nat :=
  Nat.ofDigitChars 10 cs 0

@[simp]
theorem value_digits (n : Nat) : value (digits n) = n :=
  Nat.ofDigitChars_toDigits (by decide) (by decide)

/-- A row of digits followed by another is read by shifting the first. -/
theorem value_append (cs ds : List Char) :
    value (cs ++ ds) = value cs * Nat.pow 10 ds.length + value ds := by
  rw [value, Nat.ofDigitChars_append, Nat.ofDigitChars_eq_ofDigitChars_zero, Nat.pow_eq]
  simp only [value, Nat.mul_comm]

/-- Leading zeros do not change the value of a row of digits. -/
theorem value_replicate_zero_append (k : Nat) (cs : List Char) :
    value (List.replicate k '0' ++ cs) = value cs := by
  induction k with
  | zero => rfl
  | succ k ih =>
    rw [List.replicate_succ, List.cons_append]
    exact ih

@[simp]
theorem value_padded (width n : Nat) : value (padded width n) = n := by
  rw [padded, value_replicate_zero_append, value_digits]

/-- A number below `10 ^ width` is written in exactly `width` padded digits. -/
theorem length_padded {width n : Nat} (hwidth : 0 < width) (h : n < Nat.pow 10 width) :
    (padded width n).length = width := by
  have := (Nat.length_toDigits_le_iff (b := 10) (n := n) (by decide) hwidth).2 h
  simp only [padded, digits, List.length_append, List.length_replicate]
  omega

end Decimal
end SoftTimer
