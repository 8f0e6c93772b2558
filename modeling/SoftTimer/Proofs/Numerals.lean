import SoftTimer.Timespec.Arithmetic
import SoftTimer.Timespec.Text

/-!
# Reading written times

A written time can be read in two ways: as seconds and nanoseconds, on the two sides of the point, or
without the point as one number of nanoseconds.  Both give the time back.  The second way works only
because the nanoseconds are filled up with zeros.  Conversely a text that can be read as a time is what
is written for it, so that each time has exactly one text.

Main definitions:

- `Decimal.Digits`, `Decimal.Plain`: rows of decimal digits, and those without leading zeros.
- `Timespec.Written`: the two parts of a written time.
- `Timespec.read?`: the time that a text stands for.

Main results:

- Theorem `Decimal.eq_of_value_eq`: a row of digits is determined by its length and its value.
- Theorem `Decimal.Plain.eq_digits`: without leading zeros, by its value.
- Theorem `Timespec.read?_eq_some_iff`: reading accepts exactly what is written.
- Theorem `Timespec.text_faithful`: how a time is written, and both ways of reading it.
-/

namespace SoftTimer

/-! ## Rows of digits -/

namespace Decimal

/-- Decimal digits only. -/
def Digits (cs : List Char) : Prop :=
  ∀ c ∈ cs, c.isDigit = true

instance (cs : List Char) : Decidable (Digits cs) :=
  inferInstanceAs (Decidable (∀ c ∈ cs, c.isDigit = true))

/-- A number in decimal digits, without leading zeros. -/
structure Plain (cs : List Char) : Prop where
  digits : Digits cs
  ne_nil : cs ≠ []
  /-- Only zero itself starts with a zero. -/
  eq_zero_of_head : cs.head? = some '0' → cs = ['0']

instance (cs : List Char) : Decidable (Plain cs) :=
  decidable_of_iff (Digits cs ∧ cs ≠ [] ∧ (cs.head? = some '0' → cs = ['0']))
    ⟨fun ⟨h₁, h₂, h₃⟩ => ⟨h₁, h₂, h₃⟩, fun ⟨h₁, h₂, h₃⟩ => ⟨h₁, h₂, h₃⟩⟩

variable {c : Char} {cs ds : List Char} {k : Nat}

/-- A character is a digit exactly if it stands between those of zero and nine. -/
theorem isDigit_iff : c.isDigit = true ↔ 48 ≤ c.toNat ∧ c.toNat ≤ 57 := by
  simp only [Char.isDigit, Bool.and_eq_true, decide_eq_true_eq, ge_iff_le, UInt32.le_iff_toNat_le]
  rfl

/-- The point is not a digit. -/
theorem ne_point_of_isDigit (h : c.isDigit = true) : c ≠ '.' := by
  rintro rfl
  exact absurd h (by decide)

/-- A row of digits is a digit and then a row of digits. -/
theorem digits_cons : Digits (c :: cs) ↔ c.isDigit = true ∧ Digits cs :=
  List.forall_mem_cons

/-- The first digit counts as often as the others have values. -/
theorem value_cons (c : Char) (cs : List Char) :
    value (c :: cs) = (c.toNat - 48) * Nat.pow 10 cs.length + value cs := by
  have hone : value [c] = c.toNat - 48 := by
    rw [value, Nat.ofDigitChars_cons, Nat.ofDigitChars_nil, Nat.mul_zero, Nat.zero_add]
    rfl
  rw [← List.singleton_append, value_append, hone]

/-- A row of digits denotes a number with no more digits. -/
theorem value_lt (h : Digits cs) : value cs < Nat.pow 10 cs.length := by
  induction cs with
  | nil => exact Nat.one_pos
  | cons c cs ih =>
    rw [digits_cons, isDigit_iff] at h
    have hrest := ih h.2
    have hfirst : (c.toNat - 48) * Nat.pow 10 cs.length ≤ 9 * Nat.pow 10 cs.length :=
      Nat.mul_le_mul_right _ (by omega)
    have hpow : Nat.pow 10 (c :: cs).length = Nat.pow 10 cs.length * 10 := rfl
    rw [value_cons, hpow]
    omega

/-- The first digit is the quotient by its weight, and the value of the others the remainder. -/
theorem value_cons_div_mod (h : Digits cs) :
    value (c :: cs) / Nat.pow 10 cs.length = c.toNat - 48 ∧
      value (c :: cs) % Nat.pow 10 cs.length = value cs := by
  have hpos : 0 < Nat.pow 10 cs.length := Nat.pow_pos (by decide)
  refine (Nat.div_mod_unique hpos).2 ⟨?_, value_lt h⟩
  rw [value_cons, Nat.mul_comm, Nat.add_comm]

/-- A row of digits is determined by its length and its value. -/
theorem eq_of_value_eq (hcs : Digits cs) (hds : Digits ds) (hlength : cs.length = ds.length)
    (h : value cs = value ds) : cs = ds := by
  induction cs generalizing ds with
  | nil => exact (List.length_eq_zero_iff.1 hlength.symm).symm
  | cons c cs ih =>
    cases ds with
    | nil => cases hlength
    | cons d ds =>
      rw [digits_cons, isDigit_iff] at hcs hds
      have hlength' : cs.length = ds.length := Nat.succ.inj hlength
      rcases value_cons_div_mod (c := c) hcs.2 with ⟨hcfirst, hcrest⟩
      rcases value_cons_div_mod (c := d) hds.2 with ⟨hdfirst, hdrest⟩
      rw [h, hlength'] at hcfirst hcrest
      have hfirst : c = d := Char.toNat_inj.1 (by omega)
      have hrest : cs = ds := ih hcs.2 hds.2 hlength' (hcrest.symm.trans hdrest)
      rw [hfirst, hrest]

/-- Several digits without a leading zero make at least the weight of the first. -/
theorem Plain.pow_le_value (h : Plain (c :: cs)) (hcs : cs ≠ []) :
    Nat.pow 10 cs.length ≤ value (c :: cs) := by
  have hzero : c ≠ '0' := by
    rintro rfl
    exact hcs (List.tail_eq_of_cons_eq (h.eq_zero_of_head rfl))
  have hdigit := isDigit_iff.1 (digits_cons.1 h.digits).1
  have hpos : 1 ≤ c.toNat - 48 := by
    have hne : c.toNat ≠ 48 := fun heq => hzero (Char.toNat_inj.1 heq)
    omega
  have hfirst := Nat.mul_le_mul_right (Nat.pow 10 cs.length) hpos
  rw [value_cons]
  omega

/-- Without leading zeros, more digits make a greater number. -/
theorem Plain.length_le_iff (h : Plain cs) (hk : 0 < k) :
    cs.length ≤ k ↔ value cs < Nat.pow 10 k := by
  constructor
  · intro hle
    exact Nat.lt_of_lt_of_le (value_lt h.digits) (Nat.pow_le_pow_right (by decide) hle)
  · intro hlt
    refine Nat.le_of_not_lt fun hlength => ?_
    cases cs with
    | nil => exact Nat.not_lt_zero _ hlength
    | cons c cs =>
      have hk' : k ≤ cs.length := Nat.le_of_lt_succ hlength
      have hcs : cs ≠ [] := List.length_pos_iff.1 (Nat.lt_of_lt_of_le hk hk')
      have hpow : Nat.pow 10 k ≤ Nat.pow 10 cs.length := Nat.pow_le_pow_right (by decide) hk'
      exact Nat.not_lt.2 (Nat.le_trans hpow (h.pow_le_value hcs)) hlt

/-- Numbers in digits without leading zeros are written in one way only. -/
theorem Plain.eq_of_value_eq (hcs : Plain cs) (hds : Plain ds) (h : value cs = value ds) :
    cs = ds := by
  have hpos : ∀ {es : List Char}, Plain es → 0 < es.length :=
    fun hes => List.length_pos_iff.2 hes.ne_nil
  refine Decimal.eq_of_value_eq hcs.digits hds.digits (Nat.le_antisymm ?_ ?_) h
  · rw [hcs.length_le_iff (hpos hds), h]
    exact value_lt hds.digits
  · rw [hds.length_le_iff (hpos hcs), ← h]
    exact value_lt hcs.digits

/-! ## The digits that are written -/

/-- The digits of a number are digits. -/
theorem digits_digits (n : Nat) : Digits (digits n) :=
  fun _ => Nat.isDigit_of_mem_toDigits (by decide) (by decide)

/-- So are those that are filled up with zeros. -/
theorem digits_padded (width n : Nat) : Digits (padded width n) := by
  intro c hc
  rcases List.mem_append.1 hc with hzero | hdigit
  · rw [List.eq_of_mem_replicate hzero]
    rfl
  · exact digits_digits n c hdigit

/-- The digits of a number have no leading zeros. -/
theorem plain_digits (n : Nat) : Plain (digits n) := by
  refine ⟨digits_digits n, Nat.toDigits_ne_nil, fun hhead => ?_⟩
  obtain ⟨rest, hrest⟩ := List.head?_eq_some_iff.1 hhead
  cases rest with
  | nil => exact hrest
  | cons c cs =>
    -- behind a leading zero there are fewer digits than the number needs
    exfalso
    have hdigits := digits_digits n
    rw [hrest] at hdigits
    have hvalue : n = value (c :: cs) :=
      calc
        n = value ('0' :: c :: cs) := by rw [← hrest, value_digits]
        _ = value (c :: cs) := value_replicate_zero_append 1 (c :: cs)
    have hlt : n < Nat.pow 10 (c :: cs).length :=
      Nat.lt_of_le_of_lt (Nat.le_of_eq hvalue) (value_lt (digits_cons.1 hdigits).2)
    have hlength : (digits n).length ≤ (c :: cs).length :=
      (Nat.length_toDigits_le_iff (by decide) (Nat.succ_pos _)).2 hlt
    rw [hrest] at hlength
    exact Nat.not_succ_le_self _ hlength

/-- A number in digits without leading zeros is written as its digits. -/
theorem Plain.eq_digits (h : Plain cs) : Decimal.digits (value cs) = cs :=
  (plain_digits _).eq_of_value_eq h (value_digits _)

/-- Digits that fill a width are the padded digits of their value. -/
theorem Digits.eq_padded (h : Digits cs) (hpos : 0 < cs.length) :
    padded cs.length (value cs) = cs :=
  eq_of_value_eq (digits_padded _ _) h (length_padded hpos (value_lt h)) (value_padded _ _)

end Decimal

/-! ## Reading times -/

namespace Timespec

/-- The parts of a written time: seconds that fit a word, without leading zeros, and nine digits of
nanoseconds. -/
structure Written (whole fraction : List Char) : Prop where
  plain : Decimal.Plain whole
  value_lt : Decimal.value whole < UInt32.size
  digits : Decimal.Digits fraction
  length_eq : fraction.length = 9

instance (whole fraction : List Char) : Decidable (Written whole fraction) :=
  decidable_of_iff (Decimal.Plain whole ∧ Decimal.value whole < UInt32.size ∧
      Decimal.Digits fraction ∧ fraction.length = 9)
    ⟨fun ⟨h₁, h₂, h₃, h₄⟩ => ⟨h₁, h₂, h₃, h₄⟩, fun ⟨h₁, h₂, h₃, h₄⟩ => ⟨h₁, h₂, h₃, h₄⟩⟩

variable {whole fraction cs : List Char} {t : Timespec}

/-- Nine digits of nanoseconds are less than a second. -/
theorem Written.value_fraction_lt (h : Written whole fraction) :
    Decimal.value fraction < 1000000000 :=
  Nat.lt_of_lt_of_eq (Decimal.value_lt h.digits) (congrArg (Nat.pow 10) h.length_eq)

/-- The time of seconds and nanoseconds in digits. -/
def ofWritten (h : Written whole fraction) : Timespec where
  sec := UInt32.ofNatLT (Decimal.value whole) h.value_lt
  nsec := UInt32.ofNatLT (Decimal.value fraction)
    (Nat.lt_trans h.value_fraction_lt (by decide))
  nsec_lt := UInt32.lt_iff_toNat_lt.2 h.value_fraction_lt

/-- The time that a row of characters stands for, if it is a written time. -/
def readChars? (cs : List Char) : Option Timespec :=
  match cs.dropWhile (· ≠ '.') with
  | [] => none
  | _ :: fraction =>
    if h : Written (cs.takeWhile (· ≠ '.')) fraction then some (ofWritten h) else none

/-- The time that a text stands for, if it is a written time. -/
def read? (s : String) : Option Timespec :=
  readChars? s.toList

/-- The parts of a written time are those of a time. -/
theorem written_chars (t : Timespec) : Written (Decimal.digits t.sec.toNat) t.fraction where
  plain := Decimal.plain_digits _
  value_lt := by
    rw [Decimal.value_digits]
    exact t.sec.toNat_lt
  digits := Decimal.digits_padded _ _
  length_eq := t.length_fraction

/-- A time is that of its own parts. -/
theorem ofWritten_written_chars (t : Timespec) : ofWritten t.written_chars = t := by
  rw [← nanos_inj]
  simp only [nanos, ofWritten, fraction, UInt32.toNat_ofNatLT, Decimal.value_digits,
    Decimal.value_padded]

/-- Seconds and nanoseconds are written in the digits that they were read from. -/
theorem chars_ofWritten (h : Written whole fraction) :
    (ofWritten h).chars = whole ++ '.' :: fraction := by
  have hwhole := h.plain.eq_digits
  have hfraction := h.digits.eq_padded (by rw [h.length_eq]; decide)
  rw [h.length_eq] at hfraction
  simp only [chars, Timespec.fraction, ofWritten, UInt32.toNat_ofNatLT, hwhole, hfraction]

/-- The seconds end at the point. -/
theorem readChars?_append (h : Written whole fraction) :
    readChars? (whole ++ '.' :: fraction) = some (ofWritten h) := by
  have hwhole : ∀ c ∈ whole, decide (c ≠ '.') = true :=
    fun c hc => decide_eq_true (Decimal.ne_point_of_isDigit (h.plain.digits c hc))
  have htake : (whole ++ '.' :: fraction).takeWhile (· ≠ '.') = whole := by
    rw [List.takeWhile_append_of_pos hwhole, List.takeWhile_cons_of_neg (by decide),
      List.append_nil]
  have hdrop : (whole ++ '.' :: fraction).dropWhile (· ≠ '.') = '.' :: fraction := by
    rw [List.dropWhile_append_of_pos hwhole, List.dropWhile_cons_of_neg (by decide)]
  simp only [readChars?, htake, hdrop]
  exact dif_pos h

/-- A row of characters reads as a time exactly if it is that time in writing. -/
theorem readChars?_eq_some_iff : readChars? cs = some t ↔ cs = t.chars := by
  constructor
  · intro h
    unfold readChars? at h
    split at h
    · cases h
    · next point fraction hrest =>
      obtain rfl : point = '.' := by
        have hhead := List.head?_dropWhile_not (fun c : Char => decide (c ≠ '.')) cs
        rw [hrest] at hhead
        simpa using hhead
      split at h
      · next hwritten =>
        rw [← Option.some.inj h, chars_ofWritten hwritten, ← hrest,
          List.takeWhile_append_dropWhile]
      · cases h
  · rintro rfl
    rw [chars, readChars?_append t.written_chars, ofWritten_written_chars]

/-- Reading accepts exactly what is written. -/
theorem read?_eq_some_iff {s : String} : read? s = some t ↔ s = t.text := by
  rw [read?, readChars?_eq_some_iff, text, ← String.toList_inj, String.toList_ofList]

/-- Different times are written differently. -/
theorem text_inj {s : Timespec} : s.text = t.text ↔ s = t := by
  constructor
  · intro h
    have hs : read? s.text = some s := read?_eq_some_iff.2 rfl
    have ht : read? s.text = some t := read?_eq_some_iff.2 h
    exact Option.some.inj (hs.symm.trans ht)
  · rintro rfl
    rfl

/-- Without the point, the digits are those of the total. -/
theorem value_filter_chars (t : Timespec) :
    Decimal.value (t.chars.filter (· ≠ '.')) = t.nanos := by
  have hdigits : ∀ {cs : List Char}, Decimal.Digits cs → cs.filter (· ≠ '.') = cs :=
    fun h => List.filter_eq_self.2 fun c hc =>
      decide_eq_true (Decimal.ne_point_of_isDigit (h c hc))
  have hpoint : ('.' :: t.fraction).filter (· ≠ '.') = t.fraction :=
    hdigits t.written_chars.digits
  rw [chars, List.filter_append, hpoint, hdigits t.written_chars.plain.digits,
    value_digits_sec_append_fraction]

/-- A time is written as its seconds without leading zeros, a point, and exactly nine digits of
nanoseconds.  This text, and no other, is read as the time; without the point it is the total number
of nanoseconds; and no other time is written alike. -/
theorem text_faithful (t : Timespec) :
    (∃ whole fraction : List Char, t.text = String.ofList (whole ++ '.' :: fraction) ∧
      Decimal.Plain whole ∧ Decimal.value whole = t.sec.toNat ∧
      Decimal.Digits fraction ∧ fraction.length = 9 ∧ Decimal.value fraction = t.nsec.toNat) ∧
    (∀ s : String, read? s = some t ↔ s = t.text) ∧
    Decimal.value (t.text.toList.filter (· ≠ '.')) = t.asNanos.toNat ∧
    ∀ s : Timespec, s.text = t.text ↔ s = t := by
  refine ⟨?form, fun s => read?_eq_some_iff, ?total, fun s => text_inj⟩
  case form =>
    have h := t.written_chars
    exact ⟨_, _, rfl, h.plain, Decimal.value_digits _, h.digits, h.length_eq,
      Decimal.value_padded _ _⟩
  case total =>
    rw [text, String.toList_ofList, value_filter_chars, toNat_asNanos]

example : (new 3 50000).text = "3.000050000" := rfl

end Timespec
end SoftTimer
