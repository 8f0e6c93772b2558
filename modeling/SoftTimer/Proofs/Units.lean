import SoftTimer.Proofs.Integers

/-!
# Counts of units

A time can be had from a count of nanoseconds, microseconds or milliseconds, and counts in turn.  On
the counts that make up less than `2 ^ 32` seconds these conversions are exact and invert each other.
On larger counts the way through a word of nanoseconds and the way through a span of time part: the
one goes round and the other stops at the greatest time.

Main definitions:

- `Timespec.cycle`: the nanoseconds after which 32-bit seconds start anew.
- `Timespec.TwoWays`: how the two ways from a count of units to a time compare.

Main results:

- Theorem `Timespec.truncated_ne_maxNanos`: a count that is too large never gives the greatest time
  by going round.
- Theorem `Timespec.two_ways`: milliseconds and microseconds go the same way up to `2 ^ 32` seconds,
  and from there on never.
- Theorem `Timespec.le_asMillis_iff`: counting milliseconds and making a time of them are adjoint.
- Theorem `Timespec.conversions_invert`: the conversions invert each other.
-/

namespace SoftTimer
namespace Timespec

/-! ## The turn of the seconds -/

/-- Nanoseconds in `2 ^ 32` seconds, after which a 32-bit count of seconds starts anew. -/
def cycle : Nat := 4294967296 * 1000000000

/-- A turn of the seconds is one nanosecond more than the greatest time. -/
theorem maxNanos_add_one : maxNanos + 1 = cycle :=
  rfl

/-- Every time is less than one turn of the seconds. -/
theorem nanos_lt_cycle (t : Timespec) : t.nanos < cycle :=
  t.nanos_lt

/-- A whole turn of nanoseconds, and more, fits into a word. -/
theorem cycle_lt_size : cycle < UInt64.size := by
  decide

/-! ## From counts of units to times -/

section Units

variable {unit : Nat}

/-- A count of units that makes up less than a turn is neither cut off nor goes round. -/
theorem truncated_of_lt {k : Nat} (h : k * unit < cycle) :
    min (k * unit) (UInt64.size - 1) % cycle = k * unit := by
  have hsize := cycle_lt_size
  rw [Nat.min_eq_left (by omega), Nat.mod_eq_of_lt h]

/-- Going round leads from whole units to whole units, and the greatest time is not made up of whole
units.  Nor does the largest word, where larger counts stop, go round to the greatest time. -/
theorem truncated_ne_maxNanos (hunit : 1 < unit) (hdvd : unit ∣ cycle) (k : Nat) :
    min (k * unit) (UInt64.size - 1) % cycle ≠ maxNanos := by
  rcases Nat.le_total (k * unit) (UInt64.size - 1) with hle | hle
  · intro hmax
    rw [Nat.min_eq_left hle] at hmax
    have hdvd' : unit ∣ maxNanos := hmax ▸ (Nat.dvd_mod_iff hdvd).2 (Nat.dvd_mul_left unit k)
    have hone : unit ∣ 1 := (Nat.dvd_add_right hdvd').1 (maxNanos_add_one ▸ hdvd)
    exact absurd (Nat.dvd_one.1 hone) (Nat.ne_of_gt hunit)
  · rw [Nat.min_eq_right hle]
    decide

/-- Two ways from a count of units to a time, where a unit is a number of nanoseconds.  The direct
way takes the total in a word, which stops at the largest word, and keeps the low 32 bits of its
seconds.  The wide way stops at the greatest time. -/
structure TwoWays (unit : Nat) (direct wide : UInt64 → Timespec) : Prop where
  /-- The two ways agree on the counts that make up less than a turn, and on no others. -/
  eq_iff : ∀ k, direct k = wide k ↔ k.toNat * unit < cycle
  nanos_of_lt : ∀ k, k.toNat * unit < cycle → (direct k).nanos = k.toNat * unit
  direct_mono : ∀ j k, j ≤ k → k.toNat * unit < cycle → direct j ≤ direct k
  wide_mono : ∀ j k, j ≤ k → wide j ≤ wide k
  wide_eq_latest : ∀ k, cycle ≤ k.toNat * unit → wide k = latest
  direct_ne_latest : ∀ k, cycle ≤ k.toNat * unit → direct k ≠ latest
  nanos_direct : ∀ k, (direct k).nanos = min (k.toNat * unit) (UInt64.size - 1) % cycle

/-- How the two ways compare follows from the totals that they lead to. -/
theorem twoWays_of_nanos {direct wide : UInt64 → Timespec} (hunit : 1 < unit) (hdvd : unit ∣ cycle)
    (hdirect : ∀ k, (direct k).nanos = min (k.toNat * unit) (UInt64.size - 1) % cycle)
    (hwide : ∀ k, (wide k).nanos = min (k.toNat * unit) maxNanos) :
    TwoWays unit direct wide := by
  have hmax := maxNanos_add_one
  have hexact : ∀ k, k.toNat * unit < cycle → (direct k).nanos = k.toNat * unit :=
    fun k hk => (hdirect k).trans (truncated_of_lt hk)
  have hlatest : ∀ k, cycle ≤ k.toNat * unit → wide k = latest := by
    intro k hk
    rw [← nanos_inj, hwide, Nat.min_eq_right (by omega)]
    rfl
  have hround : ∀ k, direct k ≠ latest := by
    intro k heq
    exact truncated_ne_maxNanos hunit hdvd k.toNat ((hdirect k).symm.trans (congrArg nanos heq))
  have hscale : ∀ {j k : UInt64}, j ≤ k → j.toNat * unit ≤ k.toNat * unit :=
    fun hjk => Nat.mul_le_mul_right unit (UInt64.le_iff_toNat_le.1 hjk)
  refine ⟨?agree, hexact, ?direct, ?wide, hlatest, fun k _ => hround k, hdirect⟩
  case agree =>
    intro k
    constructor
    · intro heq
      by_contra hk
      exact hround k (heq.trans (hlatest k (Nat.le_of_not_lt hk)))
    · intro hk
      rw [← nanos_inj, hexact k hk, hwide, Nat.min_eq_left (by omega)]
  case direct =>
    intro j k hjk hk
    have hj := Nat.lt_of_le_of_lt (hscale hjk) hk
    rw [le_iff_nanos_le, hexact j hj, hexact k hk]
    exact hscale hjk
  case wide =>
    intro j k hjk
    have hle := hscale hjk
    rw [le_iff_nanos_le, hwide, hwide]
    omega

end Units

/-- The direct way from milliseconds stops at the largest word, and then drops whole turns. -/
theorem nanos_ofMillis (ms : UInt64) :
    (ofMillis ms).nanos = min (ms.toNat * 1000000) (UInt64.size - 1) % cycle := by
  rw [ofMillis, nanos_ofNanos, Word.toNat_mulSat]
  rfl

/-- The direct way from microseconds stops at the largest word, and then drops whole turns. -/
theorem nanos_ofMicros (us : UInt64) :
    (ofMicros us).nanos = min (us.toNat * 1000) (UInt64.size - 1) % cycle := by
  rw [ofMicros, nanos_ofNanos, Word.toNat_mulSat]
  rfl

/-- Milliseconds and microseconds come to the same time directly and by way of a span, as long as
they make up less than `2 ^ 32` seconds.  Beyond, spans give the greatest time, and the direct way
goes round and never does. -/
theorem two_ways :
    TwoWays 1000000 ofMillis (fun ms => ofDuration (Duration.ofMillis ms)) ∧
      TwoWays 1000 ofMicros (fun us => ofDuration (Duration.ofMicros us)) := by
  refine ⟨twoWays_of_nanos (by decide) (by decide) nanos_ofMillis fun ms => ?_,
    twoWays_of_nanos (by decide) (by decide) nanos_ofMicros fun us => ?_⟩
  · rw [nanos_ofDuration, Duration.total_ofMillis]
    rfl
  · rw [nanos_ofDuration, Duration.total_ofMicros]
    rfl

/-- A count that fits, on which both ways agree, and one that does not. -/
theorem two_ways_fitting :
    (1250 : UInt64).toNat * 1000000 < cycle ∧
      ofMillis 1250 = ofDuration (Duration.ofMillis 1250) ∧
      cycle ≤ (4294967296000001 : UInt64).toNat * 1000 ∧
      ofDuration (Duration.ofMicros 4294967296000001) = latest := by
  have hfits : (1250 : UInt64).toNat * 1000000 < cycle := by decide
  have hlarge : cycle ≤ (4294967296000001 : UInt64).toNat * 1000 := by decide
  exact ⟨hfits, (two_ways.1.eq_iff _).2 hfits, hlarge, two_ways.2.wide_eq_latest _ hlarge⟩

/-- After `2 ^ 32` seconds the direct ways are back at zero, below where they came from. -/
theorem ofMillis_goes_round :
    ofMillis 4294967296000 = zero ∧ ofDuration (Duration.ofMillis 4294967296000) = latest ∧
      ofMillis 4294967296000 ≠ ofDuration (Duration.ofMillis 4294967296000) ∧
      ofMillis 4294967296000 < ofMillis 4294967295999 ∧
      ofMicros 4294967296000000 = zero ∧
      ofDuration (Duration.ofMicros 4294967296000000) = latest ∧
      ofMicros 4294967296000000 ≠ ofDuration (Duration.ofMicros 4294967296000000) ∧
      ofMicros 4294967296000000 < ofMicros 4294967295999999 := by
  decide

/-! ## There and back -/

section Counts

variable {s t : Timespec} {ms us : UInt64}

/-- The milliseconds of a time are its nanoseconds divided by a million, rounded down. -/
theorem toNat_asMillis (t : Timespec) : t.asMillis.toNat = t.nanos / 1000000 := by
  have hsec := t.sec.toNat_lt
  have hnsec := t.toNat_nsec_lt
  have hn : nanosPerMilli.toNat = 1000000 := rfl
  have hk : (1000 : UInt64).toNat = 1000 := rfl
  simp only [asMillis, nanos, UInt64.toNat_add, UInt64.toNat_mul, UInt32.toNat_toUInt64,
    UInt32.toNat_div, hn, hk]
  omega

/-- A time is that of its own nanoseconds. -/
theorem ofNanos_asNanos (t : Timespec) : ofNanos t.asNanos = t := by
  rw [← nanos_inj, nanos_ofNanos, toNat_asNanos, Nat.mod_eq_of_lt t.nanos_lt]

/-- Whole milliseconds are at most a time exactly if their number is at most that of the time. -/
theorem le_asMillis_iff (hms : ms.toNat * 1000000 < cycle) : ms ≤ t.asMillis ↔ ofMillis ms ≤ t := by
  rw [UInt64.le_iff_toNat_le, toNat_asMillis, le_iff_nanos_le, nanos_ofMillis,
    truncated_of_lt hms, Nat.le_div_iff_mul_le (by decide)]

/-- The milliseconds of a time make up less than a turn of the seconds. -/
theorem asMillis_mul_lt (t : Timespec) : t.asMillis.toNat * 1000000 < cycle := by
  rw [toNat_asMillis]
  exact Nat.lt_of_le_of_lt (Nat.div_mul_le_self _ _) t.nanos_lt_cycle

/-- A time of the milliseconds of a time is not after it. -/
theorem ofMillis_asMillis_le (t : Timespec) : ofMillis t.asMillis ≤ t :=
  (le_asMillis_iff t.asMillis_mul_lt).1 (UInt64.le_refl _)

/-- Later times have no fewer milliseconds. -/
theorem asMillis_mono (h : s ≤ t) : s.asMillis ≤ t.asMillis := by
  rw [le_asMillis_iff s.asMillis_mul_lt]
  rw [le_iff_nanos_le] at h ⊢
  exact Nat.le_trans (le_iff_nanos_le.1 s.ofMillis_asMillis_le) h

/-- Counting milliseconds loses less than one of them. -/
theorem nanos_sub_ofMillis_lt (t : Timespec) : (t - ofMillis t.asMillis).nanos < 1000000 := by
  rw [nanos_sub, nanos_ofMillis, truncated_of_lt t.asMillis_mul_lt, toNat_asMillis]
  omega

/-- Milliseconds that fit into a time are found in it again. -/
theorem asMillis_ofMillis (hms : ms.toNat * 1000000 < cycle) : (ofMillis ms).asMillis = ms := by
  rw [← UInt64.toNat_inj, toNat_asMillis, nanos_ofMillis, truncated_of_lt hms]
  exact Nat.mul_div_cancel _ (by decide)

end Counts

/-- The conversions are exact and invert each other, up to the part of a millisecond that is
rounded off. -/
theorem conversions_invert :
    (∀ t : Timespec, ofNanos t.asNanos = t) ∧
    (∀ t : Timespec, ofMillis t.asMillis ≤ t ∧
      (t - ofMillis t.asMillis).asNanos.toNat < 1000000) ∧
    (∀ ms : UInt64, ms.toNat < 4294967296 * 1000 →
      (ofMillis ms).asMillis = ms ∧ (ofMillis ms).asNanos.toNat = ms.toNat * 1000000) ∧
    (∀ us : UInt64, us.toNat < 4294967296 * 1000000 →
      (ofMicros us).asNanos.toNat = us.toNat * 1000) ∧
    ∀ s t : Timespec, s ≤ t → s.asMillis ≤ t.asMillis := by
  simp only [toNat_asNanos]
  refine ⟨ofNanos_asNanos, fun t => ⟨ofMillis_asMillis_le t, nanos_sub_ofMillis_lt t⟩, ?millis,
    ?micros, fun s t => asMillis_mono⟩
  case millis =>
    intro ms hms
    have hcycle : ms.toNat * 1000000 < cycle := by
      unfold cycle
      omega
    exact ⟨asMillis_ofMillis hcycle, (nanos_ofMillis ms).trans (truncated_of_lt hcycle)⟩
  case micros =>
    intro us hus
    have hcycle : us.toNat * 1000 < cycle := by
      unfold cycle
      omega
    exact (nanos_ofMicros us).trans (truncated_of_lt hcycle)

/-- The last millisecond and the last microsecond that can be counted. -/
theorem conversions_invert_last :
    (ofMillis 4294967295999).asMillis = 4294967295999 ∧
      (ofMicros 4294967295999999).asNanos.toNat = 4294967295999999000 ∧
      (ofMillis 1250).asMillis ≤ (ofMillis 4294967295999).asMillis := by
  rcases conversions_invert with ⟨-, -, hmillis, hmicros, hmono⟩
  exact ⟨(hmillis _ (by decide)).1, hmicros _ (by decide), hmono _ _ (by decide)⟩

end Timespec
end SoftTimer
