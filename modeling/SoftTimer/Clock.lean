import SoftTimer.Timespec.Arithmetic

/-!
# Clocks

A clock reads a nanosecond counter and shows it as a time.  Beside the reading it keeps an
estimate of the crystal's drift.

Main definitions:

- `ManualCounter`: a counter that stands still until it is moved by hand.
- `MicrosecondCounter`: a counter over the microseconds that a time driver reads.
- `Uptime`: the clock over a counter.

Main results:

- Theorem `Uptime.nanos_now`: the clock shows the counter modulo `2 ^ 32` seconds.
- Theorem `ManualCounter.toNat_advance`: moving a counter forward stops at the largest word.
-/

namespace SoftTimer

/-- A counter of nanoseconds since start-up. -/
class NanosecondCounter (κ : Type) where
  /-- Nanoseconds since start-up. -/
  nanos : κ → UInt64

/-! ## Counters -/

/-- A counter that stands still until it is moved by hand. -/
structure ManualCounter where
  /-- The nanoseconds it shows. -/
  current : UInt64 := 0
deriving DecidableEq

namespace ManualCounter

/-- Put the counter to a value. -/
def set (_ : ManualCounter) (ns : UInt64) : ManualCounter := ⟨ns⟩

/-- Move the counter forward, at most to the largest word. -/
def advance (c : ManualCounter) (ns : UInt64) : ManualCounter := ⟨Word.addSat c.current ns⟩

instance : NanosecondCounter ManualCounter := ⟨current⟩

/-- Moving a counter forward adds to what it shows, up to the largest word. -/
theorem toNat_advance (c : ManualCounter) (ns : UInt64) :
    (c.advance ns).current.toNat = min (c.current.toNat + ns.toNat) (UInt64.size - 1) :=
  Word.toNat_addSat _ _

end ManualCounter

/-- A counter over a time driver that is given from outside.  The driver may tick at any rate; what
is read is the microseconds that it makes of its ticks. -/
structure MicrosecondCounter where
  /-- The microseconds since start-up that the driver reads. -/
  ticks : UInt64 := 0
deriving DecidableEq

namespace MicrosecondCounter

/-- Let the driver read some microseconds more, at most the largest word.  This stands in for the
driver where a clock is run by itself.  What is proved about the clock is proved for any row of
readings, and does not use it. -/
def advance (c : MicrosecondCounter) (us : UInt64) : MicrosecondCounter :=
  ⟨Word.addSat c.ticks us⟩

/-- The reading, scaled to nanoseconds; past the largest word it stands still. -/
instance : NanosecondCounter MicrosecondCounter := ⟨fun c => Word.mulSat c.ticks 1000⟩

/-- A reading is a thousand nanoseconds for each microsecond, up to the largest word. -/
theorem toNat_nanos (c : MicrosecondCounter) :
    (NanosecondCounter.nanos c).toNat = min (c.ticks.toNat * 1000) (UInt64.size - 1) :=
  Word.toNat_mulSat _ _

end MicrosecondCounter

/-! ## The clock -/

/-- Drift of the crystal, in parts per million, before anyone has measured it. -/
def defaultDriftPpm : Int16 := 0

/-- A clock over a nanosecond counter. -/
structure Uptime (κ : Type) where
  /-- The counter that is read. -/
  counter : κ
  /-- Estimated drift of the crystal, in parts per million. -/
  driftPpm : Int16 := defaultDriftPpm

namespace Uptime

variable {κ : Type} [NanosecondCounter κ]

/-- The time since start-up. -/
def now (u : Uptime κ) : Timespec :=
  .ofNanos (NanosecondCounter.nanos u.counter)

/-- The clock shows the counter modulo `2 ^ 32` seconds. -/
theorem nanos_now (u : Uptime κ) :
    u.now.nanos = (NanosecondCounter.nanos u.counter).toNat % (UInt32.size * 1000000000) :=
  Timespec.nanos_ofNanos _

end Uptime
end SoftTimer
