import SoftTimer.Proofs.Integers
import SoftTimer.Proofs.Tallies

/-!
# Counting regions in words

The counters of a counting region are kept in 32-bit words.  Here its operations are written out once
more on words, with sums that give nothing where the machine would wrap.  As long as there were fewer
than `2 ^ 32` entries since the region was new, no count wraps, and the words are the numbers that a
counting region counts.  The one sum that may not fit is that of a restore value and one: then no
depth matches the restore value, and leaving is refused as it should be.

Main definitions:

- `WordRegion`: the counters as words, with `WordRegion.enter` and `WordRegion.exit`.
- `GuardedWords`: such a region with the restore values of its guards.
- `CountingRegion.HasRoom`: room for so many more entries.

Main results:

- Theorem `GuardedWords.exists_run_eq`: the words follow the counters as long as there is room.
- Theorem `GuardedWords.counts_truthful`: what the words say after any history, and when leaving is
  refused.
-/

namespace SoftTimer

/-! ## The counters as words -/

/-- A counting region with its counters in 32-bit words. -/
structure WordRegion where
  /-- How often it is held at present. -/
  depth : UInt32 := 0
  /-- The greatest depth since the counters were last reset. -/
  maxDepth : UInt32 := 0
  /-- How often it was entered since the counters were last reset. -/
  enterCount : UInt32 := 0
  /-- How often it was left since the counters were last reset. -/
  exitCount : UInt32 := 0
deriving DecidableEq

namespace WordRegion

/-- The counters as numbers. -/
def counts (r : WordRegion) : CountingRegion where
  depth := r.depth.toNat
  maxDepth := r.maxDepth.toNat
  enterCount := r.enterCount.toNat
  exitCount := r.exitCount.toNat

/-- Enter the region, if no counter wraps. -/
def enter (r : WordRegion) : Option (UInt32 × WordRegion) := do
  let depth ← Word.add? r.depth 1
  let enterCount ← Word.add? r.enterCount 1
  return (r.depth, { r with
    depth
    maxDepth := if r.maxDepth < depth then depth else r.maxDepth
    enterCount })

/-- Leave the region.  The outer option is that of a counter that would wrap, the inner one that of a
restore value that does not match.  The depth that would match may be too large for a word. -/
def exit (r : WordRegion) (restore : UInt32) : Option (Option WordRegion) :=
  if Word.add? restore 1 = some r.depth then do
    let exitCount ← Word.add? r.exitCount 1
    return some { r with depth := restore, exitCount }
  else
    return none

/-- Whether the region is free and was left as often as it was entered. -/
def isBalanced (r : WordRegion) : Bool :=
  r.depth == 0 && r.enterCount == r.exitCount

/-- Start counting anew. -/
def resetCounts (r : WordRegion) : WordRegion :=
  { depth := r.depth, maxDepth := r.depth }

variable {r : WordRegion} {restore : UInt32}

/-- One more than a word that is not the largest one is a word. -/
theorem exists_add?_one {a : UInt32} (h : a.toNat + 1 < UInt32.size) :
    ∃ b, Word.add? a 1 = some b ∧ b.toNat = a.toNat + 1 :=
  ⟨a + 1, Word.add?_of_lt h, Word.add?_eq_some_iff.1 (Word.add?_of_lt h)⟩

/-- Entering wraps no counter as long as there is room, and counts as it should. -/
theorem exists_enter_eq (hdepth : r.depth.toNat + 1 < UInt32.size)
    (hcount : r.enterCount.toNat + 1 < UInt32.size) :
    ∃ r', r.enter = some (r.depth, r') ∧ r'.counts = r.counts.enter.2 := by
  obtain ⟨depth, hadd, hdepth'⟩ := exists_add?_one hdepth
  obtain ⟨count, hadd', hcount'⟩ := exists_add?_one hcount
  have henter : r.enter = some (r.depth, { r with
      depth
      maxDepth := if r.maxDepth < depth then depth else r.maxDepth
      enterCount := count }) := by
    rw [enter, hadd, hadd']
    rfl
  refine ⟨_, henter, ?_⟩
  have hmax : (if r.maxDepth < depth then depth else r.maxDepth).toNat =
      max r.maxDepth.toNat (r.depth.toNat + 1) := by
    rw [← hdepth']
    split
    · next h => exact (Nat.max_eq_right (Nat.le_of_lt (UInt32.lt_iff_toNat_lt.1 h))).symm
    · next h => exact (Nat.max_eq_left (Nat.le_of_not_lt (mt UInt32.lt_iff_toNat_lt.2 h))).symm
  simp only [counts, CountingRegion.enter, hdepth', hcount', hmax]

/-- The restore value matches in words exactly if it does in numbers. -/
theorem add?_one_eq_iff : Word.add? restore 1 = some r.depth ↔ r.counts.depth = restore.toNat + 1 :=
  Word.add?_eq_some_iff

/-- A restore value that does not match is refused, and no counter is touched. -/
theorem exit_of_ne (h : r.counts.depth ≠ restore.toNat + 1) : r.exit restore = some none :=
  if_neg (mt add?_one_eq_iff.1 h)

/-- There are never more exits than entries, so that the count of exits has room. -/
theorem exists_exit_of_eq (h : r.counts.depth = restore.toNat + 1)
    (hroom : r.exitCount.toNat + r.depth.toNat < UInt32.size) :
    ∃ r', r.exit restore = some (some r') ∧ r'.depth = restore ∧
      r'.counts = { r.counts with depth := restore.toNat, exitCount := r.counts.exitCount + 1 } := by
  have hpos : 0 < r.depth.toNat := Nat.lt_of_lt_of_eq (Nat.succ_pos _) h.symm
  obtain ⟨count, hadd, hcount⟩ := exists_add?_one (a := r.exitCount) (by omega)
  refine ⟨{ r with depth := restore, exitCount := count }, ?_, rfl, ?_⟩
  · rw [exit, if_pos (add?_one_eq_iff.2 h), hadd]
    rfl
  · simp only [counts, hcount]

/-- Leaving wraps no counter as long as there is room, and comes to what it should. -/
theorem exists_exit_eq (restore : UInt32)
    (hroom : r.exitCount.toNat + r.depth.toNat < UInt32.size) :
    ∃ out, r.exit restore = some out ∧ r.counts.exit? restore.toNat = out.map counts := by
  by_cases h : r.counts.depth = restore.toNat + 1
  · obtain ⟨r', hexit, -, hcounts⟩ := exists_exit_of_eq h hroom
    refine ⟨some r', hexit, ?_⟩
    rw [CountingRegion.exit?, if_pos h, Option.map_some, hcounts]
  · exact ⟨none, exit_of_ne h, CountingRegion.exit?_eq_none_iff.2 h⟩

/-- Balance in words is balance in numbers. -/
theorem isBalanced_counts (r : WordRegion) : r.counts.isBalanced = r.isBalanced := by
  rw [Bool.eq_iff_iff]
  simp only [CountingRegion.isBalanced, isBalanced, counts, Bool.and_eq_true, beq_iff_eq,
    ← UInt32.toNat_inj, UInt32.toNat_zero]

end WordRegion

/-! ## Guards on words -/

/-- A region in words with the restore values of the guards that hold it, the latest first. -/
structure GuardedWords where
  /-- The region. -/
  region : WordRegion := {}
  /-- The restore values that the guards give back. -/
  guards : List UInt32 := []
deriving DecidableEq

/-- Room for so many more entries.  Each exit makes up for the entry before it. -/
structure CountingRegion.HasRoom (r : CountingRegion) (k : Nat) : Prop where
  enterCount : r.enterCount + k < UInt32.size
  exitCount : r.exitCount + r.depth + k < UInt32.size

/-- Room for some entries is room for fewer. -/
theorem CountingRegion.HasRoom.mono {r : CountingRegion} {j k : Nat} (h : r.HasRoom k)
    (hjk : j ≤ k) : r.HasRoom j := by
  rcases h with ⟨henter, hexit⟩
  exact ⟨by omega, by omega⟩

/-- A new region has room for as many entries as a word counts. -/
theorem CountingRegion.hasRoom_fresh {k : Nat} (h : k < UInt32.size) :
    CountingRegion.HasRoom {} k := by
  refine ⟨?_, ?_⟩
  · show 0 + k < UInt32.size
    omega
  · show 0 + 0 + k < UInt32.size
    omega

/-- A use takes room if it enters, and none otherwise. -/
theorem CountingRegion.HasRoom.step {g : GuardedRegion} {step : RegionStep} {k : Nat}
    (h : g.region.HasRoom (k + step.enters.toNat)) : (g.step step).2.region.HasRoom k := by
  rcases h with ⟨henter, hexit⟩
  by_cases hstep : step = .reset
  · subst hstep
    refine ⟨?_, ?_⟩
    · show 0 + k < UInt32.size
      omega
    · show 0 + g.region.depth + k < UInt32.size
      omega
  · rcases GuardedRegion.counts_step hstep g with ⟨hdepth, -, henter', hexit'⟩
    exact ⟨by omega, by omega⟩

/-- Uses take up room only for their entries. -/
theorem CountingRegion.HasRoom.run {g : GuardedRegion} {steps : List RegionStep} {k : Nat}
    (h : g.region.HasRoom (k + GuardedRegion.entries steps)) : (g.run steps).region.HasRoom k := by
  induction steps generalizing g with
  | nil => exact h
  | cons step steps ih =>
    rw [GuardedRegion.entries_cons, ← Nat.add_assoc] at h
    exact ih h.step

namespace GuardedWords

/-- The counters and the restore values as numbers. -/
def counts (w : GuardedWords) : GuardedRegion where
  region := w.region.counts
  guards := w.guards.map UInt32.toNat

/-- Use a guarded region once, if no counter wraps. -/
def step (w : GuardedWords) : RegionStep → Option (RegionReply × GuardedWords)
  | .enter => do
    let (restore, region) ← w.region.enter
    return (.entered restore.toNat, { w with region })
  | .exit restore => do
    match ← w.region.exit restore.toUInt32 with
    | some region => return (.left, { w with region })
    | none => return (.misplaced, w)
  | .lock => do
    let (restore, region) ← w.region.enter
    return (.done, { region, guards := restore :: w.guards })
  | .unlock =>
    match w.guards with
    | [] => return (.unlocked false, w)
    | restore :: guards => do
      match ← w.region.exit restore with
      | some region => return (.unlocked true, { region, guards })
      | none => return (.misplaced, { w with guards })
  | .reset => return (.done, { w with region := w.region.resetCounts })

/-- Use a guarded region step by step, if no counter wraps; the replies, and the region in the end. -/
def run (w : GuardedWords) : List RegionStep → Option (List RegionReply × GuardedWords)
  | [] => return ([], w)
  | step :: steps => do
    let (reply, w) ← w.step step
    let (replies, w) ← w.run steps
    return (reply :: replies, w)

variable {w : GuardedWords} {step : RegionStep} {steps : List RegionStep} {restore : UInt32}

/-- An exit with room wraps nothing, and comes to what it should. -/
theorem exists_step_exit_eq (restore : UInt32) (hroom : w.counts.region.HasRoom 0) :
    ∃ w', w.step (.exit restore.toNat) = some ((w.counts.step (.exit restore.toNat)).1, w') ∧
      w'.counts = (w.counts.step (.exit restore.toNat)).2 := by
  obtain ⟨out, hexit, hout⟩ := w.region.exists_exit_eq restore hroom.exitCount
  simp only [GuardedWords.step, GuardedRegion.step, Nat.toUInt32_eq, UInt32.ofNat_toNat]
  rw [hexit, show w.counts.region.exit? restore.toNat = _ from hout]
  cases out with
  | some region => exact ⟨_, rfl, rfl⟩
  | none => exact ⟨_, rfl, rfl⟩

/-- Giving up a guard with room wraps nothing, and comes to what it should. -/
theorem exists_step_unlock_eq (hroom : w.counts.region.HasRoom 0) :
    ∃ w', w.step .unlock = some ((w.counts.step .unlock).1, w') ∧
      w'.counts = (w.counts.step .unlock).2 := by
  rcases w with ⟨region, guards⟩
  cases guards with
  | nil => exact ⟨_, rfl, rfl⟩
  | cons restore guards =>
    obtain ⟨out, hexit, hout⟩ := region.exists_exit_eq restore hroom.exitCount
    simp only [GuardedWords.step, GuardedRegion.step, counts, List.map_cons]
    rw [hexit, hout]
    cases out with
    | some region => exact ⟨_, rfl, rfl⟩
    | none => exact ⟨_, rfl, rfl⟩

/-- One use, with room for it. -/
theorem exists_step_eq (hfits : ∀ restore, step = .exit restore → restore < UInt32.size)
    (hroom : w.counts.region.HasRoom step.enters.toNat) :
    ∃ w', w.step step = some ((w.counts.step step).1, w') ∧ w'.counts = (w.counts.step step).2 := by
  have henter : step.enters = true → ∃ region, w.region.enter = some (w.region.depth, region) ∧
      region.counts = w.counts.region.enter.2 := by
    intro h
    rw [h] at hroom
    have hexit : w.region.exitCount.toNat + w.region.depth.toNat + 1 < UInt32.size :=
      hroom.exitCount
    exact w.region.exists_enter_eq (by omega) hroom.enterCount
  cases step with
  | enter =>
    obtain ⟨region, hregion, hcounts⟩ := henter rfl
    refine ⟨{ w with region }, ?_, ?_⟩
    · rw [GuardedWords.step, hregion]
      rfl
    · simp only [counts, hcounts]
      rfl
  | exit restore =>
    have h := w.exists_step_exit_eq (UInt32.ofNatLT restore (hfits restore rfl)) hroom
    rwa [UInt32.toNat_ofNatLT] at h
  | lock =>
    obtain ⟨region, hregion, hcounts⟩ := henter rfl
    refine ⟨{ region, guards := w.region.depth :: w.guards }, ?_, ?_⟩
    · rw [GuardedWords.step, hregion]
      rfl
    · simp only [counts, hcounts]
      rfl
  | unlock => exact exists_step_unlock_eq hroom
  | reset => exact ⟨_, rfl, rfl⟩

/-- The words follow the counters as long as there is room. -/
theorem exists_run_eq (w : GuardedWords)
    (hfits : ∀ restore, .exit restore ∈ steps → restore < UInt32.size)
    (hroom : w.counts.region.HasRoom (GuardedRegion.entries steps)) :
    ∃ w', w.run steps = some (w.counts.replies steps, w') ∧ w'.counts = w.counts.run steps := by
  induction steps generalizing w with
  | nil => exact ⟨w, rfl, rfl⟩
  | cons step steps ih =>
    rw [GuardedRegion.entries_cons] at hroom
    have hfits' : ∀ restore, step = .exit restore → restore < UInt32.size := by
      rintro restore rfl
      exact hfits restore (List.mem_cons_self ..)
    obtain ⟨w₁, hstep, hcounts⟩ := exists_step_eq hfits' (hroom.mono (Nat.le_add_left _ _))
    obtain ⟨w', hrun, hcounts'⟩ := ih w₁ (fun restore h => hfits restore (List.mem_cons_of_mem _ h))
      (hcounts ▸ hroom.step)
    rw [hcounts] at hrun hcounts'
    refine ⟨w', ?_, hcounts'⟩
    simp only [GuardedWords.run, hstep, Option.bind_eq_bind, Option.bind_some, hrun]
    rfl

/-! ## When leaving is refused -/

section Leaving

variable {guards : List UInt32}

/-- An exit with a restore value that does not match leaves the region as it is. -/
theorem step_exit_of_ne (h : w.region.counts.depth ≠ restore.toNat + 1) :
    w.step (.exit restore.toNat) = some (.misplaced, w) := by
  simp only [GuardedWords.step, Nat.toUInt32_eq, UInt32.ofNat_toNat, WordRegion.exit_of_ne h]
  rfl

/-- An exit with the matching restore value returns to the depth that it restores. -/
theorem exists_step_exit_of_eq (hroom : w.counts.region.HasRoom 0)
    (h : w.region.counts.depth = restore.toNat + 1) :
    ∃ region, w.step (.exit restore.toNat) = some (.left, { w with region }) ∧
      region.depth = restore := by
  obtain ⟨region, hexit, hdepth, -⟩ := WordRegion.exists_exit_of_eq h hroom.exitCount
  refine ⟨region, ?_, hdepth⟩
  simp only [GuardedWords.step, Nat.toUInt32_eq, UInt32.ofNat_toNat, hexit]
  rfl

/-- A guard whose restore value does not match is given up, and the region stays as it is. -/
theorem step_unlock_of_ne (hguards : w.guards = restore :: guards)
    (h : w.region.counts.depth ≠ restore.toNat + 1) :
    w.step .unlock = some (.misplaced, { w with guards }) := by
  simp only [GuardedWords.step, hguards, WordRegion.exit_of_ne h]
  rfl

/-- A guard with the matching restore value is given up, and the depth is the one that it
restores. -/
theorem exists_step_unlock_of_eq (hroom : w.counts.region.HasRoom 0)
    (hguards : w.guards = restore :: guards) (h : w.region.counts.depth = restore.toNat + 1) :
    ∃ region, w.step .unlock = some (.unlocked true, { region, guards }) ∧
      region.depth = restore := by
  obtain ⟨region, hexit, hdepth, -⟩ := WordRegion.exists_exit_of_eq h hroom.exitCount
  refine ⟨region, ?_, hdepth⟩
  simp only [GuardedWords.step, hguards, hexit]
  rfl

end Leaving

/-! ## Whole histories -/

/-- What the words of a region say that was used in any way since it was new, with restore values that
are words and with fewer than `2 ^ 32` entries: nothing wraps, every use comes to what it should, and
the counters are right.  Leaving, by hand or by a guard, is refused exactly if the depth is not one
above the restore value, and then the region is as before. -/
theorem counts_truthful (hfits : ∀ restore, .exit restore ∈ steps → restore < UInt32.size)
    (hentries : GuardedRegion.entries steps < UInt32.size) :
    ∃ w : GuardedWords, GuardedWords.run {} steps = some (GuardedRegion.replies {} steps, w) ∧
      w.counts = GuardedRegion.run {} steps ∧
      GuardedRegion.Tallied steps w.region.counts ∧
      (∀ restore : UInt32,
        (w.region.depth.toNat ≠ restore.toNat + 1 →
          w.step (.exit restore.toNat) = some (.misplaced, w)) ∧
        (w.region.depth.toNat = restore.toNat + 1 →
          ∃ region, w.step (.exit restore.toNat) = some (.left, { w with region }) ∧
            region.depth = restore)) ∧
      ∀ restore guards, w.guards = restore :: guards →
        (w.region.depth.toNat ≠ restore.toNat + 1 →
          w.step .unlock = some (.misplaced, { w with guards })) ∧
        (w.region.depth.toNat = restore.toNat + 1 →
          ∃ region, w.step .unlock = some (.unlocked true, { region, guards }) ∧
            region.depth = restore) := by
  have hfresh := CountingRegion.hasRoom_fresh hentries
  obtain ⟨w, hrun, hcounts⟩ := exists_run_eq {} hfits hfresh
  have hroom : w.counts.region.HasRoom 0 := by
    rw [hcounts]
    exact CountingRegion.HasRoom.run (hfresh.mono (Nat.le_of_eq (Nat.zero_add _)))
  have htallied : GuardedRegion.Tallied steps w.counts.region :=
    hcounts ▸ GuardedRegion.tallied_run steps
  refine ⟨w, hrun, hcounts, htallied, fun restore => ⟨step_exit_of_ne, exists_step_exit_of_eq hroom⟩,
    fun restore guards hguards => ⟨step_unlock_of_ne hguards, exists_step_unlock_of_eq hroom hguards⟩⟩

/-- A region that is reset while it is held, and left with restore values that do not match.  No
depth is one above the largest word. -/
theorem counts_truthful_misused :
    let steps : List RegionStep :=
      [.lock, .enter, .exit 4294967295, .reset, .exit 1, .exit 3, .unlock, .unlock]
    (∀ restore, .exit restore ∈ steps → restore < UInt32.size) ∧
      GuardedRegion.entries steps < UInt32.size ∧
      ∃ w, GuardedWords.run {} steps = some ([.done, .entered 1, .misplaced, .done, .left,
          .misplaced, .unlocked true, .unlocked false], w) ∧
        w.region = { depth := 0, maxDepth := 2, enterCount := 0, exitCount := 2 } ∧
        GuardedRegion.Tallied steps w.region.counts ∧
        w.step (.exit 4294967295) = some (.misplaced, w) := by
  intro steps
  have hfits : ∀ restore, .exit restore ∈ steps → restore < UInt32.size := by
    intro restore h
    have hmem : restore = 4294967295 ∨ restore = 1 ∨ restore = 3 := by simpa [steps] using h
    have hsize : UInt32.size = 4294967296 := rfl
    omega
  have hentries : GuardedRegion.entries steps < UInt32.size := by decide
  obtain ⟨w, hrun, hcounts, htallied, hexit, -⟩ := counts_truthful hfits hentries
  have hregion : w.region = { depth := 0, maxDepth := 2, enterCount := 0, exitCount := 2 } := by
    have hw := congrArg (Option.map fun out => out.2.region) hrun
    exact (Option.some.inj hw).symm
  refine ⟨hfits, hentries, w, hrun, hregion, htallied, (hexit 4294967295).1 ?_⟩
  rw [hregion]
  decide

end GuardedWords
end SoftTimer
