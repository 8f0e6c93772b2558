import Mathlib.Data.List.DropRight
import Mathlib.Order.Bounds.Basic
import SoftTimer.Region

/-!
# What a counting region counts

A counting region may be used in any way: entered and left by hand, with any restore value, held by
guards, and reset at any time.  Its counters tell the truth about what was done.  The depth is what
the entries exceed the exits by, over the whole history; the other counters are about the uses since
the last reset.

Main definitions:

- `GuardedRegion.entries`, `GuardedRegion.exits`: how often a row of uses enters and leaves.
- `GuardedRegion.sinceReset`, `GuardedRegion.untilReset`: a history cut at its last reset.
- `GuardedRegion.Tallied`: what the counters say about the history.

Main results:

- Theorem `GuardedRegion.counts_step`: what one use does to the counters.
- Theorem `GuardedRegion.tallied_run`: the counters are right after every row of uses.
-/

namespace SoftTimer

/-! ## Histories -/

/-- Whether a use enters the region. -/
def RegionStep.enters : RegionStep → Bool
  | .enter | .lock => true
  | .exit _ | .unlock | .reset => false

/-- Whether a use with this reply left the region. -/
def RegionReply.leaves : RegionReply → Bool
  | .left | .unlocked true => true
  | .entered _ | .misplaced | .unlocked false | .done => false

namespace GuardedRegion

/-- What the uses of a row come to, one after the other. -/
def replies (g : GuardedRegion) : List RegionStep → List RegionReply
  | [] => []
  | step :: steps => (g.step step).1 :: (g.step step).2.replies steps

/-- How often a row of uses enters the region. -/
def entries (steps : List RegionStep) : Nat :=
  steps.countP RegionStep.enters

/-- How often a row of uses leaves the region. -/
def exits (g : GuardedRegion) (steps : List RegionStep) : Nat :=
  (g.replies steps).countP RegionReply.leaves

/-- The uses after the last reset. -/
def sinceReset (steps : List RegionStep) : List RegionStep :=
  steps.rtakeWhile (· ≠ .reset)

/-- The uses up to the last reset, and that one. -/
def untilReset (steps : List RegionStep) : List RegionStep :=
  steps.rdropWhile (· ≠ .reset)

variable {g : GuardedRegion} {step : RegionStep} {steps : List RegionStep}

/-- Uses continue where earlier ones ended. -/
theorem run_append (g : GuardedRegion) (steps more : List RegionStep) :
    g.run (steps ++ more) = (g.run steps).run more :=
  List.foldl_append

/-- A row with one more use is the row and then the use. -/
theorem run_concat (g : GuardedRegion) (steps : List RegionStep) (step : RegionStep) :
    g.run (steps ++ [step]) = ((g.run steps).step step).2 :=
  g.run_append steps [step]

/-- What later uses come to follows what the earlier ones came to. -/
theorem replies_append (g : GuardedRegion) (steps more : List RegionStep) :
    g.replies (steps ++ more) = g.replies steps ++ (g.run steps).replies more := by
  induction steps generalizing g with
  | nil => rfl
  | cons step steps ih => exact congrArg ((g.step step).1 :: ·) (ih (g.step step).2)

/-- Entries are counted use by use. -/
theorem entries_cons (step : RegionStep) (steps : List RegionStep) :
    entries (step :: steps) = entries steps + step.enters.toNat := by
  rw [entries, List.countP_cons]
  cases step.enters <;> rfl

/-- One more use adds its entry. -/
theorem entries_concat (steps : List RegionStep) (step : RegionStep) :
    entries (steps ++ [step]) = entries steps + step.enters.toNat := by
  rw [entries, List.countP_append, List.countP_singleton]
  cases step.enters <;> rfl

/-- One more use adds its exit, if it left the region. -/
theorem exits_concat (g : GuardedRegion) (steps : List RegionStep) (step : RegionStep) :
    g.exits (steps ++ [step]) = g.exits steps + ((g.run steps).step step).1.leaves.toNat := by
  have hlast : (g.run steps).replies [step] = [((g.run steps).step step).1] := rfl
  rw [exits, replies_append, hlast, List.countP_append, List.countP_singleton]
  cases ((g.run steps).step step).1.leaves <;> rfl

/-- A row of uses is cut at its last reset. -/
theorem untilReset_append_sinceReset (steps : List RegionStep) :
    untilReset steps ++ sinceReset steps = steps :=
  List.rdropWhile_append_rtakeWhile

/-- Where a history ends that the counters are about. -/
theorem run_sinceReset (g : GuardedRegion) (steps : List RegionStep) :
    (g.run (untilReset steps)).run (sinceReset steps) = g.run steps := by
  rw [← run_append, untilReset_append_sinceReset]

/-- After a reset at the end nothing follows. -/
theorem untilReset_concat_reset (steps : List RegionStep) :
    untilReset (steps ++ [.reset]) = steps ++ [.reset] :=
  List.rdropWhile_concat_neg _ _ _ (by decide)

/-- Since a reset at the end there are no uses. -/
theorem sinceReset_concat_reset (steps : List RegionStep) : sinceReset (steps ++ [.reset]) = [] :=
  List.rtakeWhile_concat_neg _ _ _ (by decide)

/-- One more use that is no reset does not move the last reset. -/
theorem untilReset_concat (hstep : step ≠ .reset) (steps : List RegionStep) :
    untilReset (steps ++ [step]) = untilReset steps :=
  List.rdropWhile_concat_pos _ _ _ (decide_eq_true hstep)

/-- One more use that is no reset is one since the last reset. -/
theorem sinceReset_concat (hstep : step ≠ .reset) (steps : List RegionStep) :
    sinceReset (steps ++ [step]) = sinceReset steps ++ [step] :=
  List.rtakeWhile_concat_pos _ _ _ (decide_eq_true hstep)

/-! ## One use -/

/-- What a use other than a reset does to the counters. -/
structure Counts (r : CountingRegion) (entered left : Nat) (r' : CountingRegion) : Prop where
  depth : r'.depth + left = r.depth + entered
  maxDepth : r.depth ≤ r.maxDepth → r'.maxDepth = max r'.depth r.maxDepth
  enterCount : r'.enterCount = r.enterCount + entered
  exitCount : r'.exitCount = r.exitCount + left

/-- Where nothing is done nothing is counted. -/
theorem counts_refl (r : CountingRegion) : Counts r 0 0 r :=
  ⟨rfl, fun h => (Nat.max_eq_right h).symm, rfl, rfl⟩

/-- Entering counts as one entry. -/
theorem counts_enter (r : CountingRegion) : Counts r 1 0 r.enter.2 :=
  ⟨rfl, fun _ => Nat.max_comm _ _, rfl, rfl⟩

/-- Leaving counts as one exit. -/
theorem counts_exit {r r' : CountingRegion} {restore : Nat} (h : r.exit? restore = some r') :
    Counts r 0 1 r' := by
  unfold CountingRegion.exit? at h
  split at h
  · next hdepth =>
    rw [← Option.some.inj h]
    refine ⟨hdepth.symm, fun hmax => ?_, rfl, rfl⟩
    show r.maxDepth = max restore r.maxDepth
    omega
  · cases h

/-- A use that is no reset is counted as what it comes to. -/
theorem counts_step (hstep : step ≠ .reset) (g : GuardedRegion) :
    Counts g.region step.enters.toNat (g.step step).1.leaves.toNat (g.step step).2.region := by
  cases step with
  | enter => exact counts_enter g.region
  | exit restore =>
    simp only [GuardedRegion.step]
    cases h : g.region.exit? restore with
    | some region => exact counts_exit h
    | none => exact counts_refl g.region
  | lock => exact counts_enter g.region
  | unlock =>
    simp only [GuardedRegion.step]
    split
    · exact counts_refl g.region
    · next restore guards _ =>
      cases h : g.region.exit? restore with
      | some region => exact counts_exit h
      | none => exact counts_refl g.region
  | reset => exact absurd rfl hstep

/-- The depth grows by an entry and shrinks by an exit. -/
theorem depth_step (g : GuardedRegion) (step : RegionStep) :
    (g.step step).2.region.depth + (g.step step).1.leaves.toNat =
      g.region.depth + step.enters.toNat := by
  by_cases hstep : step = .reset
  · rw [hstep]
    rfl
  · exact (counts_step hstep g).depth

/-! ## A whole history -/

/-- The depths reached since the last reset, the one at that reset included. -/
def depths (steps : List RegionStep) : Set Nat :=
  {d | ∃ p, untilReset steps <+: p ∧ p <+: steps ∧ (run {} p).region.depth = d}

/-- What the counters of a region say that was used in this way since it was new. -/
structure Tallied (steps : List RegionStep) (r : CountingRegion) : Prop where
  /-- The depth is what the entries exceed the exits by. -/
  depth : r.depth + exits {} steps = entries steps
  maxDepth : IsGreatest (depths steps) r.maxDepth
  enterCount : r.enterCount = entries (sinceReset steps)
  exitCount : r.exitCount = exits (run {} (untilReset steps)) (sinceReset steps)

/-- A depth was reached exactly if some first part of the uses, from the last reset on, leads to
it. -/
theorem mem_depths_iff {d : Nat} : d ∈ depths steps ↔
    ∃ p, untilReset steps <+: p ∧ p <+: steps ∧ (run {} p).region.depth = d :=
  Iff.rfl

/-- The present depth is one of those reached. -/
theorem depth_mem_depths (steps : List RegionStep) : (run {} steps).region.depth ∈ depths steps :=
  ⟨steps, List.rdropWhile_prefix _ _, List.prefix_rfl, rfl⟩

/-- One more use that is no reset adds the depth that it leads to. -/
theorem depths_concat (hstep : step ≠ .reset) (steps : List RegionStep) :
    depths (steps ++ [step]) = insert (run {} (steps ++ [step])).region.depth (depths steps) := by
  have huntil : untilReset steps <+: steps := List.rdropWhile_prefix _ _
  ext d
  rw [Set.mem_insert_iff]
  simp only [mem_depths_iff, untilReset_concat hstep, List.prefix_concat_iff]
  constructor
  · rintro ⟨p, hp, rfl | hp', rfl⟩
    · exact .inl rfl
    · exact .inr ⟨p, hp, hp', rfl⟩
  · rintro (rfl | ⟨p, hp, hp', rfl⟩)
    · exact ⟨_, huntil.trans (List.prefix_append _ _), .inl rfl, rfl⟩
    · exact ⟨p, hp, .inr hp', rfl⟩

/-- If nothing came after the last reset, there is only the depth at that reset. -/
theorem depths_of_untilReset_eq (h : untilReset steps = steps) :
    depths steps = {(run {} steps).region.depth} := by
  ext d
  rw [Set.mem_singleton_iff, mem_depths_iff, h]
  constructor
  · rintro ⟨p, hp, hp', rfl⟩
    rw [hp'.eq_of_length_le hp.length_le]
  · rintro rfl
    exact ⟨steps, List.prefix_rfl, List.prefix_rfl, rfl⟩

/-- A new region has counted what was done, which is nothing. -/
theorem tallied_nil : Tallied [] (run {} []).region where
  depth := rfl
  maxDepth := by
    rw [depths_of_untilReset_eq rfl]
    exact isGreatest_singleton
  enterCount := rfl
  exitCount := rfl

/-- One more use keeps the counters true. -/
theorem Tallied.concat (h : Tallied steps (run {} steps).region) (step : RegionStep) :
    Tallied (steps ++ [step]) (run {} (steps ++ [step])).region := by
  have hdepth : (run {} (steps ++ [step])).region.depth + exits {} (steps ++ [step]) =
      entries (steps ++ [step]) := by
    have hone := (run {} steps).depth_step step
    have hall := h.depth
    rw [run_concat, exits_concat, entries_concat]
    omega
  by_cases hstep : step = .reset
  · subst hstep
    refine ⟨hdepth, ?_, ?_, ?_⟩
    · rw [depths_of_untilReset_eq (untilReset_concat_reset steps), run_concat]
      exact isGreatest_singleton
    · rw [sinceReset_concat_reset, run_concat]
      rfl
    · rw [sinceReset_concat_reset, run_concat]
      rfl
  · have hcounts := counts_step hstep (run {} steps)
    have hle := h.maxDepth.2 (depth_mem_depths steps)
    refine ⟨hdepth, ?_, ?_, ?_⟩
    · rw [depths_concat hstep, run_concat, hcounts.maxDepth hle]
      exact h.maxDepth.insert _
    · rw [sinceReset_concat hstep, entries_concat, ← h.enterCount, run_concat, hcounts.enterCount]
    · rw [untilReset_concat hstep, sinceReset_concat hstep, exits_concat, run_sinceReset,
        ← h.exitCount, run_concat, hcounts.exitCount]

/-- The counters are right after every row of uses. -/
theorem tallied_run (steps : List RegionStep) : Tallied steps (run {} steps).region := by
  induction steps using List.reverseRecOn with
  | nil => exact tallied_nil
  | append_singleton steps step ih => exact ih.concat step

end GuardedRegion
end SoftTimer
