import SoftTimer.Decimal
import SoftTimer.Outline
import SoftTimer.Timespec.Basic

/-!
# Written times

A time is written as its seconds, a point, and nine digits of nanoseconds.  Its outline names the
two fields.

Main results:

- Theorem `Timespec.length_fraction`: the part after the point has exactly nine digits.
- Theorem `Timespec.value_digits_sec_append_fraction`: without the point, the digits are those of
  the total number of nanoseconds.
-/

namespace SoftTimer
namespace Timespec

/-- The nine digits after the point. -/
def fraction (t : Timespec) : List Char :=
  Decimal.padded 9 t.nsec.toNat

/-- The characters of a written time. -/
def chars (t : Timespec) : List Char :=
  Decimal.digits t.sec.toNat ++ '.' :: t.fraction

/-- A time in writing, such as `3.000050000`. -/
def text (t : Timespec) : String :=
  String.ofList t.chars

/-- The outline of a time. -/
def outline (t : Timespec) : Outline :=
  .record "Timespec"
    (.field "sec" (.ofNat t.sec.toNat) (.field "nsec" (.ofNat t.nsec.toNat) (.done false)))

/-- The part behind the point has nine digits. -/
theorem length_fraction (t : Timespec) : t.fraction.length = 9 :=
  Decimal.length_padded (by decide) t.toNat_nsec_lt

/-- Read without the point, the digits of a time are those of its nanoseconds. -/
theorem value_digits_sec_append_fraction (t : Timespec) :
    Decimal.value (Decimal.digits t.sec.toNat ++ t.fraction) = t.nanos := by
  rw [Decimal.value_append, Decimal.value_digits, length_fraction, fraction,
    Decimal.value_padded]
  rfl

end Timespec
end SoftTimer
