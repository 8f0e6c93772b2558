/-!
# Critical regions

A critical region keeps the timer interrupt out while shared state changes.  Entering hands out a
restore value, leaving hands it back, in reverse order.

Main definitions:

- `CountingRegion`: a region that masks nothing and counts how it is used.
- `Region`: the region of a scheduler, counted or not.
- `GuardedRegion`: a counting region with the guards that hold it.

Main results:

- Theorem `CountingRegion.exit?_enter`: leaving with the restore value just handed out succeeds
  and returns to the depth before.
- Theorem `CountingRegion.exit?_eq_none_iff`: leaving is refused exactly when the restore value is
  not one below the depth.
-/

namespace SoftTimer

/-! ## Counting regions -/

/-- A region that counts how it is entered and left. -/
structure CountingRegion where
  /-- How often it is held at present. -/
  depth : Nat := 0
  /-- The greatest depth since the counters were last reset. -/
  maxDepth : Nat := 0
  /-- How often it was entered since the counters were last reset. -/
  enterCount : Nat := 0
  /-- How often it was left since the counters were last reset. -/
  exitCount : Nat := 0
deriving DecidableEq

namespace CountingRegion

/-- Enter the region.  The restore value is the depth before. -/
def enter (r : CountingRegion) : Nat × CountingRegion :=
  (r.depth, { r with
    depth := r.depth + 1
    maxDepth := max r.maxDepth (r.depth + 1)
    enterCount := r.enterCount + 1 })

/-- Leave the region with the restore value of the matching entry; any other value is refused. -/
def exit? (r : CountingRegion) (restore : Nat) : Option CountingRegion :=
  if r.depth = restore + 1 then
    some { r with depth := restore, exitCount := r.exitCount + 1 }
  else none

/-- Whether the region is free and was left as often as it was entered. -/
def isBalanced (r : CountingRegion) : Bool :=
  r.depth == 0 && r.enterCount == r.exitCount

/-- Start counting anew; the depth is kept, and counts as the greatest depth so far. -/
def resetCounts (r : CountingRegion) : CountingRegion :=
  { depth := r.depth, maxDepth := r.depth }

/-- Leaving with the restore value just handed out succeeds and returns to the depth before. -/
theorem exit?_enter (r : CountingRegion) :
    r.enter.2.exit? r.enter.1 = some { r with
      maxDepth := max r.maxDepth (r.depth + 1)
      enterCount := r.enterCount + 1
      exitCount := r.exitCount + 1 } := by
  simp [enter, exit?]

/-- Leaving is refused exactly when the restore value is not one below the depth. -/
theorem exit?_eq_none_iff {r : CountingRegion} {restore : Nat} :
    r.exit? restore = none ↔ r.depth ≠ restore + 1 := by
  simp [exit?]

end CountingRegion

/-! ## Regions of schedulers -/

/-- The kinds of critical regions. -/
inductive RegionKind where
  /-- A region that counts its uses. -/
  | counting
  /-- A region of which nothing is observed: the interrupt mask of the processor, a lock shared by
  its cores, or what else keeps others out.  It counts nothing, and can always be left. -/
  | interruptMask
deriving DecidableEq

/-- The critical region of a scheduler. -/
inductive Region where
  /-- A region that counts its uses. -/
  | counting (counts : CountingRegion)
  /-- A region of which nothing is observed: the interrupt mask of the processor, a lock shared by
  its cores, or what else keeps others out.  It counts nothing, and can always be left. -/
  | interruptMask
deriving DecidableEq

namespace Region

/-- A region that was never entered. -/
def fresh : RegionKind → Region
  | .counting => counting {}
  | .interruptMask => interruptMask

/-- The counters of a region that has them. -/
def counts? : Region → Option CountingRegion
  | counting r => some r
  | interruptMask => none

/-- How often a counting region is held at present. -/
def depth : Region → Nat
  | counting r => r.depth
  | interruptMask => 0

/-- Enter the region and receive the restore value. -/
def enter : Region → Nat × Region
  | counting r => (r.enter.1, counting r.enter.2)
  | interruptMask => (0, interruptMask)

/-- Leave the region; a counting region refuses a restore value that is not the matching one. -/
def exit? : Region → Nat → Option Region
  | counting r, restore => (r.exit? restore).map counting
  | interruptMask, _ => some interruptMask

/-- Start counting anew. -/
def resetCounts : Region → Region
  | counting r => counting r.resetCounts
  | interruptMask => interruptMask

end Region

/-! ## Guards -/

/-- A counting region with the restore values of the guards that hold it, the latest first. -/
structure GuardedRegion where
  /-- The region. -/
  region : CountingRegion := {}
  /-- The restore values that the guards give back. -/
  guards : List Nat := []
deriving DecidableEq

/-- A use of a guarded region. -/
inductive RegionStep where
  /-- Enter without a guard. -/
  | enter
  /-- Leave with a restore value. -/
  | exit (restore : Nat)
  /-- Enter with a new guard. -/
  | lock
  /-- Give up the latest guard, which leaves the region. -/
  | unlock
  /-- Start counting anew. -/
  | reset
deriving DecidableEq

/-- What a use of a guarded region comes to. -/
inductive RegionReply where
  /-- Entered; this is the restore value. -/
  | entered (restore : Nat)
  /-- Left. -/
  | left
  /-- Not left, because the restore value is not the matching one. -/
  | misplaced
  /-- Whether there was a guard to give up. -/
  | unlocked (held : Bool)
  /-- Nothing to report. -/
  | done
deriving DecidableEq

namespace GuardedRegion

/-- Use a guarded region once. -/
def step (g : GuardedRegion) : RegionStep → RegionReply × GuardedRegion
  | .enter =>
    let (restore, region) := g.region.enter
    (.entered restore, { g with region })
  | .exit restore =>
    match g.region.exit? restore with
    | some region => (.left, { g with region })
    | none => (.misplaced, g)
  | .lock =>
    let (restore, region) := g.region.enter
    (.done, { region, guards := restore :: g.guards })
  | .unlock =>
    match g.guards with
    | [] => (.unlocked false, g)
    | restore :: guards =>
      match g.region.exit? restore with
      | some region => (.unlocked true, { region, guards })
      | none => (.misplaced, { g with guards })
  | .reset => (.done, { g with region := g.region.resetCounts })

/-- Use a guarded region step by step. -/
def run (g : GuardedRegion) (steps : List RegionStep) : GuardedRegion :=
  steps.foldl (fun g step => (g.step step).2) g

end GuardedRegion
end SoftTimer
