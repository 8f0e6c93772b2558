/-!
# Words that stop or refuse instead of wrapping

The clock arithmetic works on 32-bit and 64-bit words.  The operations here never wrap: the
64-bit ones stop at the largest word, the 32-bit sum is absent when it does not fit.

Main results:

- Theorems `toNat_addSat` and `toNat_mulSat`: the saturating operations are the exact ones, cut
  off at the largest word.
- Theorem `add?_eq_some_iff`: the checked sum is present exactly when the exact sum fits.
-/

namespace SoftTimer
namespace Word

/-- The 64-bit word of a natural number, or the largest word when the number does not fit. -/
def clamp (n : Nat) : UInt64 :=
  UInt64.ofNatClamp n

/-- Sum of two words, stopping at the largest word. -/
def addSat (a b : UInt64) : UInt64 :=
  clamp (a.toNat + b.toNat)

/-- Product of two words, stopping at the largest word. -/
def mulSat (a b : UInt64) : UInt64 :=
  clamp (a.toNat * b.toNat)

/-- Sum of two 32-bit words, absent when it needs more than 32 bits. -/
def add? (a b : UInt32) : Option UInt32 :=
  if a.toNat + b.toNat < UInt32.size then some (a + b) else none

/-- Clamping cuts a number off at the largest word. -/
theorem toNat_clamp (n : Nat) : (clamp n).toNat = min n (UInt64.size - 1) := by
  unfold clamp
  rcases Nat.lt_or_ge n UInt64.size with h | h
  · rw [UInt64.toNat_ofNatClamp_of_lt h]
    omega
  · rw [UInt64.toNat_ofNatClamp_of_le h]
    omega

/-- A saturating sum is the exact sum, cut off at the largest word. -/
theorem toNat_addSat (a b : UInt64) :
    (addSat a b).toNat = min (a.toNat + b.toNat) (UInt64.size - 1) :=
  toNat_clamp _

/-- A saturating product is the exact product, cut off at the largest word. -/
theorem toNat_mulSat (a b : UInt64) :
    (mulSat a b).toNat = min (a.toNat * b.toNat) (UInt64.size - 1) :=
  toNat_clamp _

/-- A checked sum is given exactly if the exact sum is a word, and then it is that word. -/
theorem add?_eq_some_iff {a b c : UInt32} :
    add? a b = some c ↔ c.toNat = a.toNat + b.toNat := by
  have hc := c.toNat_lt
  unfold add?
  split
  · next h =>
    rw [Option.some.injEq, ← UInt32.toNat_inj, UInt32.toNat_add, Nat.mod_eq_of_lt h]
    exact eq_comm
  · next h =>
    simp only [reduceCtorEq, false_iff]
    intro heq
    exact h (heq ▸ hc)

/-- No checked sum is given exactly if the exact sum is not a word. -/
theorem add?_eq_none_iff {a b : UInt32} :
    add? a b = none ↔ UInt32.size ≤ a.toNat + b.toNat := by
  unfold add?
  split <;> simp <;> omega

end Word
end SoftTimer
