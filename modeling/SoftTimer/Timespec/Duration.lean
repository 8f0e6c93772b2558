import SoftTimer.Timespec.Basic

/-!
# Wide durations

Spans with 64-bit seconds, as general-purpose clocks report them, and their exchange with times.

Main results:

- Theorem `Timespec.nanos_ofDuration`: a span is cut off at the greatest time.
- Theorem `Timespec.ofDuration_toDuration`: a time survives the way to a span and back.
-/

namespace SoftTimer

/-- A span of time with 64-bit seconds. -/
structure Duration where
  /-- Whole seconds. -/
  secs : UInt64
  /-- Nanoseconds beyond the whole seconds. -/
  nanos : UInt32
  /-- The nanoseconds make up less than a second. -/
  nanos_lt : nanos < nanosPerSecond

namespace Duration

instance : DecidableEq Duration := fun a b =>
  decidable_of_iff (a.secs = b.secs ∧ a.nanos = b.nanos) (by cases a; cases b; simp)

/-- Total nanoseconds of a span, as a natural number. -/
def total (d : Duration) : Nat :=
  d.secs.toNat * 1000000000 + d.nanos.toNat

/-- The span of a number of milliseconds. -/
def ofMillis (ms : UInt64) : Duration where
  secs := ms / 1000
  nanos := (ms % 1000).toUInt32 * nanosPerMilli
  nanos_lt := by
    have hn : nanosPerMilli.toNat = 1000000 := rfl
    have hm : (ms % 1000).toNat = ms.toNat % 1000 := UInt64.toNat_mod _ _
    have hr : ms.toNat % 1000 < 1000 := Nat.mod_lt _ (by decide)
    rw [UInt32.lt_iff_toNat_lt, UInt32.toNat_mul, UInt64.toNat_toUInt32, hm, hn,
      Nat.mod_eq_of_lt (Nat.lt_trans hr (by decide))]
    refine Nat.lt_of_le_of_lt (Nat.mod_le _ _) ?_
    show _ < 1000000000
    omega

/-- The span of a number of microseconds. -/
def ofMicros (us : UInt64) : Duration where
  secs := us / 1000000
  nanos := (us % 1000000).toUInt32 * nanosPerMicro
  nanos_lt := by
    have hn : nanosPerMicro.toNat = 1000 := rfl
    have hm : (us % 1000000).toNat = us.toNat % 1000000 := UInt64.toNat_mod _ _
    have hr : us.toNat % 1000000 < 1000000 := Nat.mod_lt _ (by decide)
    rw [UInt32.lt_iff_toNat_lt, UInt32.toNat_mul, UInt64.toNat_toUInt32, hm, hn,
      Nat.mod_eq_of_lt (Nat.lt_trans hr (by decide))]
    refine Nat.lt_of_le_of_lt (Nat.mod_le _ _) ?_
    show _ < 1000000000
    omega

/-- A duration of milliseconds has a million nanoseconds for each of them. -/
theorem total_ofMillis (ms : UInt64) : (ofMillis ms).total = ms.toNat * 1000000 := by
  have hn : nanosPerMilli.toNat = 1000000 := rfl
  have hm : (ms % 1000).toNat = ms.toNat % 1000 := UInt64.toNat_mod _ _
  have hd : (ms / 1000).toNat = ms.toNat / 1000 := UInt64.toNat_div _ _
  simp only [total, ofMillis, UInt32.toNat_mul, UInt64.toNat_toUInt32, hm, hd, hn]
  omega

/-- A duration of microseconds has a thousand nanoseconds for each of them. -/
theorem total_ofMicros (us : UInt64) : (ofMicros us).total = us.toNat * 1000 := by
  have hn : nanosPerMicro.toNat = 1000 := rfl
  have hm : (us % 1000000).toNat = us.toNat % 1000000 := UInt64.toNat_mod _ _
  have hd : (us / 1000000).toNat = us.toNat / 1000000 := UInt64.toNat_div _ _
  simp only [total, ofMicros, UInt32.toNat_mul, UInt64.toNat_toUInt32, hm, hd, hn]
  omega

end Duration

namespace Timespec

/-- The time of a span; seconds that need more than 32 bits give the greatest time. -/
def ofDuration (d : Duration) : Timespec :=
  if d.secs.toNat < UInt32.size then ⟨d.secs.toUInt32, d.nanos, d.nanos_lt⟩ else latest

/-- The span of a time. -/
def toDuration (t : Timespec) : Duration := ⟨t.sec.toUInt64, t.nsec, t.nsec_lt⟩

/-- A time made of a duration is that duration, up to the greatest time. -/
theorem nanos_ofDuration (d : Duration) :
    (ofDuration d).nanos = min d.total (UInt32.size * 1000000000 - 1) := by
  have hd := UInt32.lt_iff_toNat_lt.1 d.nanos_lt
  have hn : nanosPerSecond.toNat = 1000000000 := rfl
  have hsize : UInt32.size = 4294967296 := rfl
  unfold ofDuration
  split
  · simp only [nanos, Duration.total, UInt64.toNat_toUInt32]
    omega
  · simp only [nanos_latest, Duration.total]
    omega

@[simp]
theorem ofDuration_toDuration (t : Timespec) : ofDuration t.toDuration = t := by
  apply nanos_inj.1
  have ht := t.nanos_lt
  have h : t.toDuration.total = t.nanos := by
    simp only [toDuration, Duration.total, nanos, UInt32.toNat_toUInt64]
  have hsize : UInt32.size = 4294967296 := rfl
  rw [nanos_ofDuration, h]
  omega

end Timespec
end SoftTimer
