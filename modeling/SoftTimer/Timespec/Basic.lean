/-!
# Times in seconds and nanoseconds

A time is a 32-bit number of seconds and a number of nanoseconds below one second.  Being
normalized is part of the type, so the order on (seconds, nanoseconds) is the order in time.

Main results:

- Theorem `Timespec.nanos_inj`: a time is determined by its total number of nanoseconds.
- Theorem `Timespec.nanos_lt`: that number is below `2 ^ 32` seconds.
- Theorems `Timespec.le_iff_nanos_le` and `Timespec.lt_iff_nanos_lt`: times compare like their
  totals.
-/

namespace SoftTimer

/-- Nanoseconds in a second. -/
def nanosPerSecond : UInt32 := 1000000000

/-- Nanoseconds in a millisecond. -/
def nanosPerMilli : UInt32 := 1000000

/-- Nanoseconds in a microsecond. -/
def nanosPerMicro : UInt32 := 1000

/-- A point in time, or a span of time, in seconds and nanoseconds. -/
structure Timespec where
  /-- Whole seconds. -/
  sec : UInt32
  /-- Nanoseconds beyond the whole seconds. -/
  nsec : UInt32
  /-- The nanoseconds make up less than a second. -/
  nsec_lt : nsec < nanosPerSecond
deriving DecidableEq

namespace Timespec

/-! ## The total number of nanoseconds -/

/-- Total nanoseconds of a time, as a natural number. -/
def nanos (t : Timespec) : Nat :=
  t.sec.toNat * 1000000000 + t.nsec.toNat

/-- The nanoseconds beside the seconds make up less than a second. -/
theorem toNat_nsec_lt (t : Timespec) : t.nsec.toNat < 1000000000 :=
  UInt32.lt_iff_toNat_lt.1 t.nsec_lt

/-- Every time is less than `2 ^ 32` seconds. -/
theorem nanos_lt (t : Timespec) : t.nanos < UInt32.size * 1000000000 := by
  have hsize : UInt32.size = 4294967296 := rfl
  have h₁ := t.sec.toNat_lt
  have h₂ := t.toNat_nsec_lt
  unfold nanos
  omega

/-- A time is determined by its nanoseconds. -/
theorem nanos_inj {a b : Timespec} : a.nanos = b.nanos ↔ a = b := by
  refine ⟨fun h => ?_, fun h => h ▸ rfl⟩
  have h₁ := a.toNat_nsec_lt
  have h₂ := b.toNat_nsec_lt
  unfold nanos at h
  have hsec : a.sec = b.sec := UInt32.toNat_inj.1 (by omega)
  have hnsec : a.nsec = b.nsec := UInt32.toNat_inj.1 (by omega)
  cases a
  cases b
  simp_all

/-! ## Least and greatest time -/

/-- The least time. -/
def zero : Timespec := ⟨0, 0, by decide⟩

/-- The greatest time: the last nanosecond of the last second that 32 bits can count. -/
def latest : Timespec := ⟨4294967295, 999999999, by decide⟩

instance : Inhabited Timespec := ⟨zero⟩

/-- Whether a time is the least one. -/
def isZero (t : Timespec) : Bool :=
  t.sec == 0 && t.nsec == 0

@[simp]
theorem nanos_zero : zero.nanos = 0 :=
  rfl

@[simp]
theorem nanos_latest : latest.nanos = UInt32.size * 1000000000 - 1 :=
  rfl

/-- The time zero is the only one that counts as zero. -/
theorem isZero_iff {t : Timespec} : t.isZero = true ↔ t = zero := by
  simp only [isZero, Bool.and_eq_true, beq_iff_eq]
  constructor
  · intro h
    cases t
    simp_all [zero]
  · rintro rfl
    exact ⟨rfl, rfl⟩

/-! ## Order -/

/-- Earlier or at the same time: by seconds, then by nanoseconds. -/
instance : LE Timespec :=
  ⟨fun a b => a.sec < b.sec ∨ a.sec = b.sec ∧ a.nsec ≤ b.nsec⟩

/-- Strictly earlier: by seconds, then by nanoseconds. -/
instance : LT Timespec :=
  ⟨fun a b => a.sec < b.sec ∨ a.sec = b.sec ∧ a.nsec < b.nsec⟩

instance (a b : Timespec) : Decidable (a ≤ b) :=
  inferInstanceAs (Decidable (_ ∨ _))

instance (a b : Timespec) : Decidable (a < b) :=
  inferInstanceAs (Decidable (_ ∨ _))

instance : Max Timespec := maxOfLe

instance : Min Timespec := minOfLe

/-- Three-way comparison: by seconds, then by nanoseconds. -/
instance : Ord Timespec :=
  ⟨fun a b => (compare a.sec b.sec).then (compare a.nsec b.nsec)⟩

/-- Times are ordered as their nanoseconds are. -/
theorem le_iff_nanos_le {a b : Timespec} : a ≤ b ↔ a.nanos ≤ b.nanos := by
  have h₁ := a.toNat_nsec_lt
  have h₂ := b.toNat_nsec_lt
  show (a.sec < b.sec ∨ a.sec = b.sec ∧ a.nsec ≤ b.nsec) ↔ _
  simp only [UInt32.lt_iff_toNat_lt, UInt32.le_iff_toNat_le, ← UInt32.toNat_inj, nanos]
  omega

/-- Times are ordered strictly as their nanoseconds are. -/
theorem lt_iff_nanos_lt {a b : Timespec} : a < b ↔ a.nanos < b.nanos := by
  have h₁ := a.toNat_nsec_lt
  have h₂ := b.toNat_nsec_lt
  show (a.sec < b.sec ∨ a.sec = b.sec ∧ a.nsec < b.nsec) ↔ _
  simp only [UInt32.lt_iff_toNat_lt, ← UInt32.toNat_inj, nanos]
  omega

/-- Times in ascending order; equal times keep their places. -/
def sort (ts : List Timespec) : List Timespec :=
  ts.mergeSort fun a b => decide (a ≤ b)

end Timespec
end SoftTimer
