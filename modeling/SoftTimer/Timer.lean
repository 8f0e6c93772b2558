import SoftTimer.Outline
import SoftTimer.Timespec.Basic

/-!
# Timers

A timer is a record of cells: what to call, when, how often, and the links that thread it into the
list of a scheduler or into the chain of a pass.  Timers and schedulers are known by number.

Main definitions:

- `Timer`: the cells of one timer, among `m` schedulers and `n` timers.
- `Timer.reset`: a new binding, everything else blank but the link of the pass.
- `Timer.heldByOther`: whether another scheduler than the given one holds the timer.
-/

namespace SoftTimer

/-- A callback is known by its number. -/
abbrev CallbackId := Nat

/-- The argument that is passed through to a callback unchanged. -/
inductive CallbackArg where
  /-- A context object, known by its number. -/
  | object (id : Nat)
  /-- A bare address. -/
  | address (value : UInt64)
deriving DecidableEq

/-- No argument: the null address. -/
def CallbackArg.none : CallbackArg := .address 0

instance : Inhabited CallbackArg := ⟨.none⟩

/-- Scheduling class of an armed timer.  It is kept for its reader; it does not influence when a
timer fires. -/
inductive PriorityClass where
  /-- Fire as close to the deadline as possible. -/
  | precise
  /-- Delay is acceptable. -/
  | lowPower
deriving DecidableEq

/-- The class of a timer that was not told another one. -/
def PriorityClass.standard : PriorityClass := .precise

/-- The outline of a class. -/
def PriorityClass.outline : PriorityClass → Outline
  | precise => .word "Precise"
  | lowPower => .word "LowPower"

/-- The cells of one timer, among `m` schedulers and `n` timers. -/
structure Timer (m n : Nat) where
  /-- The callback bound to the timer. -/
  callback : Option CallbackId := none
  /-- The argument for the callback. -/
  arg : CallbackArg := .none
  /-- When to fire. -/
  deadline : Timespec := .zero
  /-- Time between expiries; zero for a timer that fires once. -/
  period : Timespec := .zero
  /-- The class it was armed with. -/
  priority : PriorityClass := .standard
  /-- Whether it stands in the list of a scheduler. -/
  armed : Bool := false
  /-- The timer before it in that list. -/
  prev : Option (Fin n) := none
  /-- The timer after it in that list. -/
  next : Option (Fin n) := none
  /-- The timer after it in the chain of the pass that is to call it. -/
  firedNext : Option (Fin n) := none
  /-- The scheduler that armed it last, until it is bound anew. -/
  owner : Option (Fin m) := none
deriving DecidableEq

namespace Timer

variable {m n : Nat}

/-- Whether the timer fires again and again. -/
def isPeriodic (t : Timer m n) : Bool :=
  !t.period.isZero

/-- Whether a scheduler other than `s` holds the timer. -/
def heldByOther (t : Timer m n) (s : Fin m) : Bool :=
  match t.owner with
  | none => false
  | some owner => owner != s

/-- Bind a callback and an argument, or none, and blank the rest.  The link of a pass is left to
that pass. -/
def reset (t : Timer m n) (callback : Option CallbackId) (arg : CallbackArg) : Timer m n :=
  { callback, arg, firedNext := t.firedNext }

/-- A timer is held by another scheduler exactly if it has an owner that is not `s`. -/
theorem heldByOther_eq_true_iff {t : Timer m n} {s : Fin m} :
    t.heldByOther s = true ↔ ∃ owner, t.owner = some owner ∧ owner ≠ s := by
  unfold heldByOther
  split <;> simp_all

end Timer
end SoftTimer
