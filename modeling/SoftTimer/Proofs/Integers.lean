import Mathlib.Data.Set.Function
import Mathlib.Order.Interval.Set.Basic
import SoftTimer.Timespec.Arithmetic
import SoftTimer.Timespec.Duration

/-!
# Times are an initial segment of the integers

The arithmetic on times runs on bare machine words.  Here it is written out once more, word
operation by word operation, with sums, differences and products that give nothing where the
machine would wrap.  No step ever gives nothing, and what comes out is a normalized time, namely the
integer result cut off at zero and at the greatest time.

Main definitions:

- `Words`: seconds and nanoseconds as bare words, `Words.Normalized` or not.
- `Words.new`, `Words.sum`, `Words.difference` and the others: the computations on bare words.

Main results:

- Theorem `Words.normalized_iff`: the normalized words are the words of the times.
- Theorems `Words.sum_words` and `Words.difference_words`: neither carry nor borrow wraps.
- Theorem `Timespec.compare_eq`: times compare like their totals.
- Theorem `Timespec.clamped_integers`: times are the integers below `2 ^ 32` seconds, with sums and
  differences that stop at both ends.
-/

namespace SoftTimer

/-! ## Words that must not wrap -/

namespace Word

/-- Difference of two 32-bit words, absent when it is negative. -/
def sub? (a b : UInt32) : Option UInt32 :=
  if b ≤ a then some (a - b) else none

/-- Sum of two 64-bit words, absent when it needs more than 64 bits. -/
def wideAdd? (a b : UInt64) : Option UInt64 :=
  if a.toNat + b.toNat < UInt64.size then some (a + b) else none

/-- Product of two 64-bit words, absent when it needs more than 64 bits. -/
def wideMul? (a b : UInt64) : Option UInt64 :=
  if a.toNat * b.toNat < UInt64.size then some (a * b) else none

variable {a b : UInt32} {v w : UInt64}

/-- A checked sum that fits is the sum of the words. -/
theorem add?_of_lt (h : a.toNat + b.toNat < UInt32.size) : add? a b = some (a + b) :=
  if_pos h

@[simp]
theorem add?_zero (a : UInt32) : add? a 0 = some a := by
  rw [add?_eq_some_iff]
  exact (Nat.add_zero _).symm

/-- A checked difference that is not negative is the difference of the words. -/
theorem sub?_of_le (h : b ≤ a) : sub? a b = some (a - b) :=
  if_pos h

/-- A checked sum of 64-bit words that fits is the sum of the words. -/
theorem wideAdd?_of_lt (h : v.toNat + w.toNat < UInt64.size) : wideAdd? v w = some (v + w) :=
  if_pos h

/-- A checked product of 64-bit words that fits is the product of the words. -/
theorem wideMul?_of_lt (h : v.toNat * w.toNat < UInt64.size) : wideMul? v w = some (v * w) :=
  if_pos h

end Word

/-! ## Bare words -/

/-- Seconds and nanoseconds as two words that may hold anything. -/
structure Words where
  /-- Whole seconds. -/
  sec : UInt32
  /-- Nanoseconds beyond the whole seconds. -/
  nsec : UInt32
deriving DecidableEq

/-- The two words of a time. -/
def Timespec.words (t : Timespec) : Words := ⟨t.sec, t.nsec⟩

namespace Words

/-- The nanoseconds make up less than a second. -/
def Normalized (w : Words) : Prop :=
  w.nsec < nanosPerSecond

/-- The words of times are the normalized ones. -/
theorem normalized_iff {w : Words} : w.Normalized ↔ ∃ t : Timespec, t.words = w := by
  constructor
  · intro h
    exact ⟨⟨w.sec, w.nsec, h⟩, rfl⟩
  · rintro ⟨t, rfl⟩
    exact t.nsec_lt

/-! ## The computations on bare words -/

/-- A pair from seconds and any number of nanoseconds. -/
def new (sec nsec : UInt32) : Words :=
  match Word.add? sec (nsec / nanosPerSecond) with
  | some sec => ⟨sec, nsec % nanosPerSecond⟩
  | none => Timespec.latest.words

/-- A pair from nanoseconds; of the seconds the low 32 bits are kept. -/
def ofNanos (ns : UInt64) : Words where
  sec := (ns / nanosPerSecond.toUInt64).toUInt32
  nsec := (ns % nanosPerSecond.toUInt64).toUInt32

/-- A pair from whole seconds. -/
def ofSecs (sec : UInt32) : Words := ⟨sec, 0⟩

/-- A pair from milliseconds. -/
def ofMillis (ms : UInt64) : Words :=
  ofNanos (Word.mulSat ms nanosPerMilli.toUInt64)

/-- A pair from microseconds. -/
def ofMicros (us : UInt64) : Words :=
  ofNanos (Word.mulSat us nanosPerMicro.toUInt64)

/-- Total nanoseconds. -/
def total (w : Words) : Option UInt64 := do
  let high ← Word.wideMul? w.sec.toUInt64 nanosPerSecond.toUInt64
  Word.wideAdd? high w.nsec.toUInt64

/-- Total milliseconds, rounded down. -/
def millis (w : Words) : Option UInt64 := do
  let high ← Word.wideMul? w.sec.toUInt64 1000
  Word.wideAdd? high (w.nsec / nanosPerMilli).toUInt64

/-- The nanoseconds of a sum and the second that is carried, if any. -/
def carry (a b : Words) : Option (UInt32 × UInt32) := do
  let nsec ← Word.add? a.nsec b.nsec
  if nanosPerSecond ≤ nsec then
    let nsec ← Word.sub? nsec nanosPerSecond
    return (nsec, 1)
  else
    return (nsec, 0)

/-- A checked sum.  The outer option is that of a step that would wrap, the inner one that of a sum
whose seconds do not fit. -/
def sum (a b : Words) : Option (Option Words) := do
  let (nsec, carried) ← carry a b
  return do
    let sec ← Word.add? a.sec b.sec
    let sec ← Word.add? sec carried
    return ⟨sec, nsec⟩

/-- A sum that stops at the greatest time. -/
def saturatingSum (a b : Words) : Option Words :=
  (sum a b).map fun fitting => fitting.getD Timespec.latest.words

/-- A difference that stops at zero. -/
def difference (a b : Words) : Option Words :=
  if a.sec < b.sec ∨ a.sec = b.sec ∧ a.nsec ≤ b.nsec then
    return Timespec.zero.words
  else if b.nsec ≤ a.nsec then do
    let sec ← Word.sub? a.sec b.sec
    let nsec ← Word.sub? a.nsec b.nsec
    return ⟨sec, nsec⟩
  else do
    let sec ← Word.sub? a.sec b.sec
    let sec ← Word.sub? sec 1
    let nsec ← Word.add? a.nsec nanosPerSecond
    let nsec ← Word.sub? nsec b.nsec
    return ⟨sec, nsec⟩

/-- A pair from a span of time. -/
def ofDuration (d : Duration) : Words :=
  if d.secs.toNat < UInt32.size then ⟨d.secs.toUInt32, d.nanos⟩ else Timespec.latest.words

end Words

/-- What is left beside whole seconds is less than a second. -/
theorem mod_nanosPerSecond_lt (nanos : UInt32) : nanos % nanosPerSecond < nanosPerSecond :=
  UInt32.mod_lt _ (by decide)

/-- A span from seconds and any number of nanoseconds, absent when the carry does not fit. -/
def Duration.new? (secs : UInt64) (nanos : UInt32) : Option Duration :=
  if h : nanos < nanosPerSecond then some ⟨secs, nanos, h⟩
  else
    (Word.wideAdd? secs (nanos / nanosPerSecond).toUInt64).map fun secs =>
      ⟨secs, nanos % nanosPerSecond, mod_nanosPerSecond_lt nanos⟩

/-! ## No step wraps -/

namespace Words

/-- The words of a new time are computed without a wrap. -/
theorem new_eq (sec nsec : UInt32) : new sec nsec = (Timespec.new sec nsec).words := by
  unfold new Timespec.new
  cases Word.add? sec (nsec / nanosPerSecond) with
  | some _ => rfl
  | none => rfl

/-- The words of a time made of nanoseconds are computed without a wrap. -/
theorem ofNanos_eq (ns : UInt64) : ofNanos ns = (Timespec.ofNanos ns).words :=
  rfl

/-- The words of a time made of a span are computed without a wrap. -/
theorem ofDuration_eq (d : Duration) : ofDuration d = (Timespec.ofDuration d).words := by
  unfold ofDuration Timespec.ofDuration
  split <;> rfl

/-- The total of the words of a time does not wrap, and is that of the time. -/
theorem total_words (t : Timespec) : t.words.total = some t.asNanos := by
  have hsec := t.sec.toNat_lt
  have hnsec := t.toNat_nsec_lt
  have hn : nanosPerSecond.toNat = 1000000000 := rfl
  have hsize : UInt64.size = 18446744073709551616 := rfl
  have hmul : Word.wideMul? t.sec.toUInt64 nanosPerSecond.toUInt64 =
      some (t.sec.toUInt64 * nanosPerSecond.toUInt64) := by
    apply Word.wideMul?_of_lt
    rw [UInt32.toNat_toUInt64, UInt32.toNat_toUInt64, hn]
    omega
  have hhigh : (t.sec.toUInt64 * nanosPerSecond.toUInt64).toNat ≤ t.sec.toNat * 1000000000 := by
    rw [UInt64.toNat_mul, UInt32.toNat_toUInt64, UInt32.toNat_toUInt64, hn]
    exact Nat.mod_le _ _
  have hadd : Word.wideAdd? (t.sec.toUInt64 * nanosPerSecond.toUInt64) t.nsec.toUInt64 =
      some t.asNanos := by
    apply Word.wideAdd?_of_lt
    rw [UInt32.toNat_toUInt64]
    omega
  rw [total, Option.bind_eq_bind, Option.bind_eq_some_iff]
  exact ⟨_, hmul, hadd⟩

/-- The milliseconds of the words of a time do not wrap, and are those of the time. -/
theorem millis_words (t : Timespec) : t.words.millis = some t.asMillis := by
  have hsec := t.sec.toNat_lt
  have hmillis := (t.nsec / nanosPerMilli).toNat_lt
  have hk : (1000 : UInt64).toNat = 1000 := rfl
  have hsize : UInt64.size = 18446744073709551616 := rfl
  have hmul : Word.wideMul? t.sec.toUInt64 1000 = some (t.sec.toUInt64 * 1000) := by
    apply Word.wideMul?_of_lt
    rw [UInt32.toNat_toUInt64, hk]
    omega
  have hhigh : (t.sec.toUInt64 * 1000).toNat ≤ t.sec.toNat * 1000 := by
    rw [UInt64.toNat_mul, UInt32.toNat_toUInt64, hk]
    exact Nat.mod_le _ _
  have hadd : Word.wideAdd? (t.sec.toUInt64 * 1000) (t.nsec / nanosPerMilli).toUInt64 =
      some t.asMillis := by
    apply Word.wideAdd?_of_lt
    rw [UInt32.toNat_toUInt64]
    omega
  rw [millis, Option.bind_eq_bind, Option.bind_eq_some_iff]
  exact ⟨_, hmul, hadd⟩

/-- Two numbers of nanoseconds below a second have a sum that fits into a word. -/
theorem add?_nsec (a b : Timespec) : Word.add? a.nsec b.nsec = some (a.nsec + b.nsec) := by
  have ha := a.toNat_nsec_lt
  have hb := b.toNat_nsec_lt
  have hsize : UInt32.size = 4294967296 := rfl
  apply Word.add?_of_lt
  omega

/-- A checked sum of times does not wrap on the way, and is given exactly if it is given for
times. -/
theorem sum_words (a b : Timespec) :
    sum a.words b.words = some ((a.checkedAdd b).map Timespec.words) := by
  unfold sum carry Timespec.checkedAdd
  simp only [Timespec.words, add?_nsec, Option.bind_eq_bind, Option.bind_some]
  by_cases hlt : a.nsec + b.nsec < nanosPerSecond
  · rw [dif_pos hlt, if_neg (UInt32.not_le.2 hlt)]
    cases Word.add? a.sec b.sec with
    | some sec => simp [Timespec.words]
    | none => rfl
  · have hle : nanosPerSecond ≤ a.nsec + b.nsec := UInt32.not_lt.1 hlt
    rw [dif_neg hlt, if_pos hle, Word.sub?_of_le hle]
    cases Word.add? a.sec b.sec with
    | none => rfl
    | some sec => cases h : Word.add? sec 1 <;> simp [h, Timespec.words]

/-- A saturating sum of times does not wrap on the way. -/
theorem saturatingSum_words (a b : Timespec) :
    saturatingSum a.words b.words = some (a.saturatingAdd b).words := by
  rw [saturatingSum, sum_words, Option.map_some, Timespec.saturatingAdd]
  cases a.checkedAdd b <;> rfl

/-- A difference without a borrow. -/
theorem difference_of_le {a b : Words} {sec nsec : UInt32}
    (hlater : ¬(a.sec < b.sec ∨ a.sec = b.sec ∧ a.nsec ≤ b.nsec)) (hle : b.nsec ≤ a.nsec)
    (hsec : Word.sub? a.sec b.sec = some sec) (hnsec : Word.sub? a.nsec b.nsec = some nsec) :
    difference a b = some ⟨sec, nsec⟩ := by
  rw [difference, if_neg hlater, if_pos hle, hsec, hnsec]
  rfl

/-- A difference with a borrow. -/
theorem difference_of_lt {a b : Words} {sec sec' nsec nsec' : UInt32}
    (hlater : ¬(a.sec < b.sec ∨ a.sec = b.sec ∧ a.nsec ≤ b.nsec)) (hlt : ¬b.nsec ≤ a.nsec)
    (hsec : Word.sub? a.sec b.sec = some sec) (hsec' : Word.sub? sec 1 = some sec')
    (hnsec : Word.add? a.nsec nanosPerSecond = some nsec)
    (hnsec' : Word.sub? nsec b.nsec = some nsec') :
    difference a b = some ⟨sec', nsec'⟩ := by
  rw [difference, if_neg hlater, if_neg hlt]
  simp only [hsec, hsec', hnsec, hnsec', Option.bind_eq_bind, Option.bind_some]
  rfl

/-- A difference of times does not wrap on the way. -/
theorem difference_words (a b : Timespec) :
    difference a.words b.words = some (a.saturatingSub b).words := by
  have ha := a.toNat_nsec_lt
  have hb := b.toNat_nsec_lt
  have hn : nanosPerSecond.toNat = 1000000000 := rfl
  have hone : (1 : UInt32).toNat = 1 := rfl
  have hsize : UInt32.size = 4294967296 := rfl
  unfold Timespec.saturatingSub
  by_cases hle : a ≤ b
  · rw [if_pos hle]
    exact if_pos hle
  · rw [if_neg hle]
    have hlater := hle
    rw [Timespec.le_iff_nanos_le] at hlater
    simp only [Timespec.nanos] at hlater
    have hsec : b.sec ≤ a.sec := by
      rw [UInt32.le_iff_toNat_le]
      omega
    have hsub := UInt32.toNat_sub_of_le _ _ hsec
    by_cases hnsec : b.nsec ≤ a.nsec
    · rw [dif_pos hnsec]
      exact difference_of_le hle hnsec (Word.sub?_of_le hsec) (Word.sub?_of_le hnsec)
    · rw [dif_neg hnsec]
      have hlt := hnsec
      rw [UInt32.le_iff_toNat_le] at hlt
      -- the seconds differ, as the nanoseconds alone would make `a` the earlier time
      have hborrow : (1 : UInt32) ≤ a.sec - b.sec := by
        rw [UInt32.le_iff_toNat_le, hsub, hone]
        omega
      -- less than two seconds in nanoseconds still fit into a word
      have hfits : a.nsec.toNat + nanosPerSecond.toNat < UInt32.size := by
        omega
      have hback : b.nsec ≤ a.nsec + nanosPerSecond := by
        rw [UInt32.le_iff_toNat_le, UInt32.toNat_add]
        omega
      exact difference_of_lt hle hnsec (Word.sub?_of_le hsec) (Word.sub?_of_le hborrow)
        (Word.add?_of_lt hfits) (Word.sub?_of_le hback)

end Words

/-- The span of a time is made without a carry that does not fit. -/
theorem Duration.new?_words (t : Timespec) :
    Duration.new? t.words.sec.toUInt64 t.words.nsec = some t.toDuration :=
  dif_pos t.nsec_lt

/-! ## Order and totals -/

namespace Timespec

/-- The greatest number of nanoseconds of a time, one less than those of `2 ^ 32` seconds. -/
def maxNanos : Nat := 4294967296 * 1000000000 - 1

/-- The greatest number of nanoseconds is one less than those of `2 ^ 32` seconds. -/
theorem maxNanos_eq : maxNanos = UInt32.size * 1000000000 - 1 :=
  rfl

/-- No time is after the greatest one. -/
theorem nanos_le_maxNanos (t : Timespec) : t.nanos ≤ maxNanos :=
  Nat.le_sub_one_of_lt t.nanos_lt

/-- Times correspond one to one to the numbers up to the greatest one. -/
theorem bijOn_asNanos :
    Set.BijOn (fun t : Timespec => t.asNanos.toNat) Set.univ (Set.Iic maxNanos) := by
  simp only [toNat_asNanos]
  refine ⟨?maps, ?injective, ?surjective⟩
  case maps =>
    intro t _
    exact t.nanos_le_maxNanos
  case injective =>
    intro a _ b _ h
    exact nanos_inj.1 h
  case surjective =>
    intro k hk
    have hlt : k < UInt32.size * 1000000000 := Nat.lt_of_le_sub_one (by decide) hk
    obtain ⟨t, ht⟩ := exists_nanos_eq hlt
    exact ⟨t, trivial, ht⟩

/-- Times compare as their nanoseconds do. -/
theorem compare_eq (a b : Timespec) : compare a b = compare a.asNanos b.asNanos := by
  have ha := a.toNat_nsec_lt
  have hb := b.toNat_nsec_lt
  show (compareOfLessAndEq a.sec b.sec).then (compareOfLessAndEq a.nsec b.nsec) =
    compareOfLessAndEq a.asNanos b.asNanos
  simp only [compareOfLessAndEq, UInt32.lt_iff_toNat_lt, UInt64.lt_iff_toNat_lt,
    ← UInt32.toNat_inj, ← UInt64.toNat_inj, toNat_asNanos, nanos]
  split_ifs
  all_goals first | rfl | omega

/-- Times are ordered as the words of their nanoseconds are. -/
theorem le_iff_asNanos_le {a b : Timespec} : a ≤ b ↔ a.asNanos ≤ b.asNanos := by
  rw [le_iff_nanos_le, UInt64.le_iff_toNat_le, toNat_asNanos, toNat_asNanos]

/-- Times are ordered strictly as the words of their nanoseconds are. -/
theorem lt_iff_asNanos_lt {a b : Timespec} : a < b ↔ a.asNanos < b.asNanos := by
  rw [lt_iff_nanos_lt, UInt64.lt_iff_toNat_lt, toNat_asNanos, toNat_asNanos]

/-- A checked sum is the exact sum up to the greatest time, and is absent beyond it. -/
theorem map_nanos_checkedAdd (a b : Timespec) :
    (a.checkedAdd b).map nanos =
      if a.nanos + b.nanos ≤ maxNanos then some (a.nanos + b.nanos) else none := by
  have hsize : UInt32.size = 4294967296 := rfl
  split
  · next h =>
    rw [maxNanos_eq] at h
    obtain ⟨c, hc⟩ := exists_nanos_eq (k := a.nanos + b.nanos) (by omega)
    rw [checkedAdd_eq_some_iff.2 hc, Option.map_some, hc]
  · next h =>
    rw [Option.map_eq_none_iff, Option.eq_none_iff_forall_ne_some]
    intro c hc
    apply h
    rw [← checkedAdd_eq_some_iff.1 hc]
    exact c.nanos_le_maxNanos

/-- Times are the integers from zero to the greatest time. -/
theorem clamped_integers :
    Set.BijOn (fun t : Timespec => t.asNanos.toNat) Set.univ (Set.Iic maxNanos) ∧
    (∀ a b : Timespec, compare a b = compare a.asNanos b.asNanos ∧
      (a ≤ b ↔ a.asNanos ≤ b.asNanos) ∧ (a < b ↔ a.asNanos < b.asNanos)) ∧
    (∀ w : Words, w.Normalized ↔ ∃ t : Timespec, t.words = w) ∧
    (∀ t : Timespec, t.words.total = some t.asNanos ∧ t.words.millis = some t.asMillis) ∧
    (∀ sec nsec : UInt32, Words.new sec nsec = (new sec nsec).words ∧
      (new sec nsec).asNanos.toNat = min (sec.toNat * 1000000000 + nsec.toNat) maxNanos) ∧
    (∀ sec : UInt32, Words.ofSecs sec = (ofSecs sec).words) ∧
    (∀ k : UInt64, Words.ofNanos k = (ofNanos k).words ∧
      Words.ofMicros k = (ofMicros k).words ∧ Words.ofMillis k = (ofMillis k).words) ∧
    (∀ a b : Timespec, Words.sum a.words b.words = some ((a.checkedAdd b).map words) ∧
      (a.checkedAdd b).map (·.asNanos.toNat) =
        if a.asNanos.toNat + b.asNanos.toNat ≤ maxNanos then
          some (a.asNanos.toNat + b.asNanos.toNat)
        else none) ∧
    (∀ a b : Timespec, Words.saturatingSum a.words b.words = some (a.saturatingAdd b).words ∧
      a + b = a.saturatingAdd b ∧
      (a.saturatingAdd b).asNanos.toNat = min (a.asNanos.toNat + b.asNanos.toNat) maxNanos) ∧
    (∀ a b : Timespec, Words.difference a.words b.words = some (a.saturatingSub b).words ∧
      a - b = a.saturatingSub b ∧
      ((a.saturatingSub b).asNanos.toNat : Int) =
        max ((a.asNanos.toNat : Int) - b.asNanos.toNat) 0) ∧
    (∀ d : Duration, Words.ofDuration d = (ofDuration d).words ∧
      (ofDuration d).asNanos.toNat = min d.total maxNanos) ∧
    ∀ t : Timespec, Duration.new? t.words.sec.toUInt64 t.words.nsec = some t.toDuration ∧
      ofDuration t.toDuration = t := by
  simp only [toNat_asNanos]
  refine ⟨?index, ?order, ?normalized, ?views, ?new, ?seconds, ?units, ?checked, ?sum, ?difference, ?span,
    ?roundTrip⟩
  case index =>
    simpa only [toNat_asNanos] using bijOn_asNanos
  case order =>
    intro a b
    exact ⟨compare_eq a b, le_iff_asNanos_le, lt_iff_asNanos_lt⟩
  case normalized =>
    intro w
    exact Words.normalized_iff
  case views =>
    intro t
    exact ⟨Words.total_words t, Words.millis_words t⟩
  case new =>
    intro sec nsec
    exact ⟨Words.new_eq sec nsec, nanos_new sec nsec⟩
  case seconds =>
    intro sec
    rfl
  case units =>
    intro k
    exact ⟨Words.ofNanos_eq k, Words.ofNanos_eq _, Words.ofNanos_eq _⟩
  case checked =>
    intro a b
    exact ⟨Words.sum_words a b, map_nanos_checkedAdd a b⟩
  case sum =>
    intro a b
    exact ⟨Words.saturatingSum_words a b, rfl, nanos_add a b⟩
  case difference =>
    intro a b
    have hsub : (a.saturatingSub b).nanos = a.nanos - b.nanos := nanos_sub a b
    refine ⟨Words.difference_words a b, rfl, ?_⟩
    rw [hsub]
    omega
  case span =>
    intro d
    exact ⟨Words.ofDuration_eq d, nanos_ofDuration d⟩
  case roundTrip =>
    intro t
    exact ⟨Duration.new?_words t, ofDuration_toDuration t⟩

end Timespec
end SoftTimer
