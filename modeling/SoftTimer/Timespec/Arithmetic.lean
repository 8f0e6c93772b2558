import SoftTimer.Timespec.Basic
import SoftTimer.Word

/-!
# Arithmetic on times

Constructors from counts of units, sums and differences.  Sums stop at the greatest time and
differences at zero; nothing wraps, except that a count of nanoseconds keeps only the low 32 bits
of its seconds, like a free-running seconds counter.

Main results:

- Theorem `Timespec.nanos_ofNanos`: a count of nanoseconds is taken modulo `2 ^ 32` seconds.
- Theorem `Timespec.nanos_new`: excess nanoseconds are carried, up to the greatest time.
- Theorem `Timespec.checkedAdd_eq_some_iff`: a checked sum is present exactly when it fits.
- Theorem `Timespec.nanos_add`: the sum is the exact one, cut off at the greatest time.
- Theorem `Timespec.nanos_sub`: the difference is the exact one, cut off at zero.
-/

namespace SoftTimer
namespace Timespec

/-! ## From units and back -/

/-- A time from seconds and any number of nanoseconds; whole seconds among the nanoseconds are
carried, and a carry that does not fit gives the greatest time. -/
def new (sec nsec : UInt32) : Timespec :=
  match Word.add? sec (nsec / nanosPerSecond) with
  | some s => ⟨s, nsec % nanosPerSecond, UInt32.mod_lt _ (by decide)⟩
  | none => latest

/-- A time from whole seconds. -/
def ofSecs (sec : UInt32) : Timespec := { zero with sec }

/-- A time from nanoseconds; of the seconds the low 32 bits are kept. -/
def ofNanos (ns : UInt64) : Timespec where
  sec := (ns / nanosPerSecond.toUInt64).toUInt32
  nsec := (ns % nanosPerSecond.toUInt64).toUInt32
  nsec_lt := by
    have h : ns.toNat % 1000000000 < 1000000000 := Nat.mod_lt _ (by decide)
    rw [UInt32.lt_iff_toNat_lt, UInt64.toNat_toUInt32, UInt64.toNat_mod, UInt32.toNat_toUInt64]
    exact Nat.lt_of_le_of_lt (Nat.mod_le _ _) h

/-- A time from milliseconds. -/
def ofMillis (ms : UInt64) : Timespec :=
  ofNanos (Word.mulSat ms nanosPerMilli.toUInt64)

/-- A time from microseconds. -/
def ofMicros (us : UInt64) : Timespec :=
  ofNanos (Word.mulSat us nanosPerMicro.toUInt64)

/-- Total nanoseconds of a time, as a word. -/
def asNanos (t : Timespec) : UInt64 :=
  t.sec.toUInt64 * nanosPerSecond.toUInt64 + t.nsec.toUInt64

/-- Total milliseconds of a time, rounded down. -/
def asMillis (t : Timespec) : UInt64 :=
  t.sec.toUInt64 * 1000 + (t.nsec / nanosPerMilli).toUInt64

/-! ## Sums and differences -/

/-- Sum of two times, absent when its seconds need more than 32 bits. -/
def checkedAdd (a b : Timespec) : Option Timespec :=
  if h : a.nsec + b.nsec < nanosPerSecond then
    (Word.add? a.sec b.sec).map fun s => ⟨s, a.nsec + b.nsec, h⟩
  else
    (Word.add? a.sec b.sec).bind fun s =>
      (Word.add? s 1).map fun s =>
        ⟨s, a.nsec + b.nsec - nanosPerSecond, by
          have h₁ := a.toNat_nsec_lt
          have h₂ := b.toNat_nsec_lt
          have hs : (a.nsec + b.nsec).toNat = a.nsec.toNat + b.nsec.toNat := by
            rw [UInt32.toNat_add]
            omega
          have hn : nanosPerSecond.toNat = 1000000000 := rfl
          have hle : nanosPerSecond ≤ a.nsec + b.nsec := UInt32.not_lt.1 h
          rw [UInt32.lt_iff_toNat_lt, UInt32.toNat_sub_of_le _ _ hle]
          omega⟩

/-- Sum of two times, or the greatest time when it does not fit. -/
def saturatingAdd (a b : Timespec) : Timespec :=
  (checkedAdd a b).getD latest

/-- Difference of two times, or zero when the second is the later one. -/
def saturatingSub (a b : Timespec) : Timespec :=
  if a ≤ b then zero
  else if h : b.nsec ≤ a.nsec then
    ⟨a.sec - b.sec, a.nsec - b.nsec, by
      have h₁ := a.toNat_nsec_lt
      rw [UInt32.lt_iff_toNat_lt, UInt32.toNat_sub_of_le _ _ h]
      exact Nat.lt_of_le_of_lt (Nat.sub_le _ _) h₁⟩
  else
    ⟨a.sec - b.sec - 1, a.nsec + nanosPerSecond - b.nsec, by
      have h₁ := a.toNat_nsec_lt
      have h₂ := b.toNat_nsec_lt
      have hn : nanosPerSecond.toNat = 1000000000 := rfl
      have hlt : a.nsec.toNat < b.nsec.toNat :=
        UInt32.lt_iff_toNat_lt.1 (UInt32.not_le.1 h)
      have hs : (a.nsec + nanosPerSecond).toNat = a.nsec.toNat + 1000000000 := by
        rw [UInt32.toNat_add]
        omega
      have hle : b.nsec ≤ a.nsec + nanosPerSecond := by
        rw [UInt32.le_iff_toNat_le]
        omega
      rw [UInt32.lt_iff_toNat_lt, UInt32.toNat_sub_of_le _ _ hle]
      omega⟩

/-- Addition of times stops at the greatest time. -/
instance : Add Timespec := ⟨saturatingAdd⟩

/-- Subtraction of times stops at zero. -/
instance : Sub Timespec := ⟨saturatingSub⟩

/-- Sum of a list of times, from left to right. -/
def sum (ts : List Timespec) : Timespec :=
  ts.foldl (· + ·) zero

/-! ## Totals of the results -/

/-- The nanoseconds of a time fit into a word, and `asNanos` is that word. -/
theorem toNat_asNanos (t : Timespec) : t.asNanos.toNat = t.nanos := by
  have h₁ := t.sec.toNat_lt
  have h₂ := t.toNat_nsec_lt
  have hn : nanosPerSecond.toNat = 1000000000 := rfl
  simp only [asNanos, nanos, UInt64.toNat_add, UInt64.toNat_mul, UInt32.toNat_toUInt64, hn]
  omega

/-- A time made of nanoseconds keeps them modulo `2 ^ 32` seconds. -/
theorem nanos_ofNanos (ns : UInt64) :
    (ofNanos ns).nanos = ns.toNat % (UInt32.size * 1000000000) := by
  have hsize : UInt32.size = 4294967296 := rfl
  have hn : nanosPerSecond.toNat = 1000000000 := rfl
  simp only [ofNanos, nanos, UInt64.toNat_toUInt32, UInt64.toNat_div, UInt64.toNat_mod,
    UInt32.toNat_toUInt64, hn, hsize]
  omega

/-- Every number of nanoseconds below `2 ^ 32` seconds is the total of a time. -/
theorem exists_nanos_eq {k : Nat} (h : k < UInt32.size * 1000000000) :
    ∃ t : Timespec, t.nanos = k := by
  have hsize : UInt32.size = 4294967296 := rfl
  refine ⟨ofNanos (UInt64.ofNat k), ?_⟩
  rw [nanos_ofNanos, UInt64.toNat_ofNat', hsize]
  omega

/-- A time made of seconds and nanoseconds is their sum, up to the greatest time. -/
theorem nanos_new (sec nsec : UInt32) :
    (new sec nsec).nanos = min (sec.toNat * 1000000000 + nsec.toNat) (UInt32.size * 1000000000 - 1) := by
  have hs := sec.toNat_lt
  have hsize : UInt32.size = 4294967296 := rfl
  have hn : nanosPerSecond.toNat = 1000000000 := rfl
  have hmod : (nsec % nanosPerSecond).toNat = nsec.toNat % 1000000000 := UInt32.toNat_mod _ _
  have hdiv : (nsec / nanosPerSecond).toNat = nsec.toNat / 1000000000 := UInt32.toNat_div _ _
  unfold new
  split
  · next s h =>
    rw [Word.add?_eq_some_iff] at h
    have hlt := s.toNat_lt
    simp only [nanos]
    omega
  · next h =>
    rw [Word.add?_eq_none_iff] at h
    rw [nanos_latest]
    omega

/-- A checked sum is given exactly if the exact sum is a time, and then it is that time. -/
theorem checkedAdd_eq_some_iff {a b c : Timespec} :
    checkedAdd a b = some c ↔ c.nanos = a.nanos + b.nanos := by
  have ha := a.toNat_nsec_lt
  have hb := b.toNat_nsec_lt
  have hc := c.toNat_nsec_lt
  have hn : nanosPerSecond.toNat = 1000000000 := rfl
  have hsum : (a.nsec + b.nsec).toNat = a.nsec.toNat + b.nsec.toNat := by
    rw [UInt32.toNat_add]
    omega
  unfold checkedAdd
  split
  · next h =>
    rw [UInt32.lt_iff_toNat_lt, hsum, hn] at h
    rw [Option.map_eq_some_iff]
    constructor
    · rintro ⟨s, hs, rfl⟩
      rw [Word.add?_eq_some_iff] at hs
      simp only [nanos] at *
      omega
    · intro hc'
      refine ⟨c.sec, Word.add?_eq_some_iff.2 ?_, nanos_inj.1 ?_⟩
      · simp only [nanos] at hc'
        omega
      · simp only [nanos, hsum] at *
        omega
  · next h =>
    have hle : nanosPerSecond ≤ a.nsec + b.nsec := UInt32.not_lt.1 h
    have hsub : (a.nsec + b.nsec - nanosPerSecond).toNat =
        a.nsec.toNat + b.nsec.toNat - 1000000000 := by
      rw [UInt32.toNat_sub_of_le _ _ hle, hsum, hn]
    rw [UInt32.le_iff_toNat_le, hsum, hn] at hle
    rw [Option.bind_eq_some_iff]
    have hone : (1 : UInt32).toNat = 1 := rfl
    constructor
    · rintro ⟨s, hs, hmap⟩
      obtain ⟨s', hs', rfl⟩ := Option.map_eq_some_iff.1 hmap
      rw [Word.add?_eq_some_iff] at hs hs'
      simp only [nanos, hsub] at *
      omega
    · intro hc'
      have hlt := c.sec.toNat_lt
      have hpos : 1 ≤ c.sec.toNat := by
        simp only [nanos] at hc'
        omega
      have hpred : (c.sec - 1).toNat = c.sec.toNat - 1 :=
        UInt32.toNat_sub_of_le _ _ (UInt32.le_iff_toNat_le.2 (hone.symm ▸ hpos))
      refine ⟨c.sec - 1, Word.add?_eq_some_iff.2 ?_,
        Option.map_eq_some_iff.2 ⟨c.sec, Word.add?_eq_some_iff.2 ?_, nanos_inj.1 ?_⟩⟩
      · simp only [nanos] at hc'
        omega
      · omega
      · simp only [nanos, hsub] at *
        omega

/-- Adding times adds their nanoseconds, up to the greatest time. -/
theorem nanos_add (a b : Timespec) :
    (a + b).nanos = min (a.nanos + b.nanos) (UInt32.size * 1000000000 - 1) := by
  have hsize : UInt32.size = 4294967296 := rfl
  show ((checkedAdd a b).getD latest).nanos = _
  cases h : checkedAdd a b with
  | some c =>
    have hc := checkedAdd_eq_some_iff.1 h
    have hlt := c.nanos_lt
    rw [Option.getD_some]
    omega
  | none =>
    have hlarge : UInt32.size * 1000000000 ≤ a.nanos + b.nanos := by
      apply Nat.le_of_not_lt
      intro hlt
      rcases exists_nanos_eq hlt with ⟨c, hc⟩
      rw [checkedAdd_eq_some_iff.2 hc] at h
      exact Option.some_ne_none _ h
    rw [Option.getD_none, nanos_latest]
    omega

/-- Subtracting times subtracts their nanoseconds, down to zero. -/
theorem nanos_sub (a b : Timespec) : (a - b).nanos = a.nanos - b.nanos := by
  have ha := a.toNat_nsec_lt
  have hb := b.toNat_nsec_lt
  have hn : nanosPerSecond.toNat = 1000000000 := rfl
  have hone : (1 : UInt32).toNat = 1 := rfl
  show (saturatingSub a b).nanos = _
  unfold saturatingSub
  split
  · next h =>
    rw [le_iff_nanos_le] at h
    rw [nanos_zero]
    omega
  · next h =>
    rw [le_iff_nanos_le] at h
    have hsec : b.sec.toNat ≤ a.sec.toNat := by
      simp only [nanos] at h
      omega
    have hsub : (a.sec - b.sec).toNat = a.sec.toNat - b.sec.toNat :=
      UInt32.toNat_sub_of_le _ _ (UInt32.le_iff_toNat_le.2 hsec)
    split
    · next h' =>
      have hnsub := UInt32.toNat_sub_of_le _ _ h'
      rw [UInt32.le_iff_toNat_le] at h'
      simp only [nanos, hsub, hnsub] at *
      omega
    · next h' =>
      rw [UInt32.le_iff_toNat_le] at h'
      have hs : (a.nsec + nanosPerSecond).toNat = a.nsec.toNat + 1000000000 := by
        rw [UInt32.toNat_add]
        omega
      have hnsub : (a.nsec + nanosPerSecond - b.nsec).toNat =
          a.nsec.toNat + 1000000000 - b.nsec.toNat := by
        rw [UInt32.toNat_sub_of_le _ _ (UInt32.le_iff_toNat_le.2 (by omega)), hs]
      have hpos : 1 ≤ (a.sec - b.sec).toNat := by
        rw [hsub]
        simp only [nanos] at h
        omega
      have hpred : (a.sec - b.sec - 1).toNat = a.sec.toNat - b.sec.toNat - 1 := by
        rw [UInt32.toNat_sub_of_le _ _ (UInt32.le_iff_toNat_le.2 (hone.symm ▸ hpos)), hsub, hone]
      simp only [nanos, hpred, hnsub] at *
      omega

end Timespec
end SoftTimer
