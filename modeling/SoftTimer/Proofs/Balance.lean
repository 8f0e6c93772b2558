import SoftTimer.Proofs.RegionWords

/-!
# When a region reports balance

Entries and exits in pairs, by hand or by guards, are nested: what was entered last is left first.  A
region reports balance if it is free and was left as often as it was entered.  While the counters are
never reset this says that every entry was matched.  A reset forgets the entries made before it, but
not the exits still to come; so after a reset during which the region was held, it never reports
balance again until it is reset once more.

Main definitions:

- `Hold`: an entry that is not matched yet.
- `GuardedRegion.Paired`: uses in nested pairs, with the holds that are left.
- `GuardedRegion.Holding`: the state of a region that is held in this way.

Main results:

- Theorem `GuardedRegion.Paired.holding`: no exit of a pair is refused, and the depth is the number of
  holds.
- Theorem `GuardedRegion.Paired.reports_balance`: balance is reported exactly if there is no hold now
  and was none at the last reset.
- Theorem `GuardedRegion.exists_matched_unbalanced`: every entry may be matched without balance.
-/

namespace SoftTimer

/-- An entry that is not matched yet, with the restore value that it handed out. -/
inductive Hold where
  /-- The region was entered by hand. -/
  | byHand (restore : Nat)
  /-- The region was entered with a guard, which keeps the restore value. -/
  | byGuard (restore : Nat)
deriving DecidableEq

namespace Hold

/-- The restore value. -/
def restore : Hold → Nat
  | byHand restore | byGuard restore => restore

/-- The restore value of a guard. -/
def guard? : Hold → Option Nat
  | byHand _ => none
  | byGuard restore => some restore

/-- Each hold restores the depth that it found, which is the number of holds below it. -/
def Nested : List Hold → Prop
  | [] => True
  | hold :: holds => hold.restore = holds.length ∧ Nested holds

end Hold

namespace GuardedRegion

/-! ## Pairs -/

/-- Uses in pairs, of which the latest is closed first: an exit gives back the restore value of the
entry that it matches.  There may be resets at any points in between.  `holds` are the entries that
are not matched in the end, the latest first, and `kept` those that were not matched at the last
reset. -/
inductive Paired : List RegionStep → List Hold → List Hold → Prop where
  | nil : Paired [] [] []
  | enter {steps : List RegionStep} {holds kept : List Hold} (h : Paired steps holds kept) :
    Paired (steps ++ [.enter]) (.byHand (run {} steps).region.enter.1 :: holds) kept
  | exit {steps : List RegionStep} {holds kept : List Hold} {restore : Nat}
    (h : Paired steps (.byHand restore :: holds) kept) : Paired (steps ++ [.exit restore]) holds kept
  | lock {steps : List RegionStep} {holds kept : List Hold} (h : Paired steps holds kept) :
    Paired (steps ++ [.lock]) (.byGuard (run {} steps).region.enter.1 :: holds) kept
  | unlock {steps : List RegionStep} {holds kept : List Hold} {restore : Nat}
    (h : Paired steps (.byGuard restore :: holds) kept) : Paired (steps ++ [.unlock]) holds kept
  | reset {steps : List RegionStep} {holds kept : List Hold} (h : Paired steps holds kept) :
    Paired (steps ++ [.reset]) holds holds

/-- The state of a region that is held in this way. -/
structure Holding (g : GuardedRegion) (holds kept : List Hold) : Prop where
  nested : Hold.Nested holds
  depth : g.region.depth = holds.length
  guards : g.guards = holds.filterMap Hold.guard?
  /-- What is left after the last reset was entered after it, or was held then. -/
  counts : g.region.enterCount + kept.length = g.region.exitCount + holds.length

section Uses

variable {g : GuardedRegion} {holds kept : List Hold} {restore : Nat}

/-- A new region is held by nobody. -/
theorem holding_fresh : Holding {} [] [] :=
  ⟨trivial, rfl, rfl, rfl⟩

/-- Entering by hand adds a hold, with the depth before as its restore value. -/
theorem Holding.enter (h : g.Holding holds kept) :
    (g.step .enter).2.Holding (.byHand g.region.enter.1 :: holds) kept where
  nested := ⟨h.depth, h.nested⟩
  depth := congrArg (· + 1) h.depth
  guards := h.guards
  counts := by
    have hcounts := h.counts
    show g.region.enterCount + 1 + kept.length = g.region.exitCount + (holds.length + 1)
    omega

/-- Locking adds a hold by a guard. -/
theorem Holding.lock (h : g.Holding holds kept) :
    (g.step .lock).2.Holding (.byGuard g.region.enter.1 :: holds) kept where
  nested := ⟨h.depth, h.nested⟩
  depth := congrArg (· + 1) h.depth
  guards := congrArg (g.region.depth :: ·) h.guards
  counts := h.enter.counts

/-- What the latest hold hands back is accepted. -/
theorem Holding.exit?_eq {hold : Hold} (h : g.Holding (hold :: holds) kept) :
    g.region.exit? hold.restore = some { g.region with
      depth := holds.length
      exitCount := g.region.exitCount + 1 } := by
  have hdepth : g.region.depth = hold.restore + 1 := by
    rw [h.depth, h.nested.1, List.length_cons]
  rw [CountingRegion.exit?, if_pos hdepth, h.nested.1]

/-- An exit with the restore value of the latest hold takes that hold away. -/
theorem Holding.exit (h : g.Holding (.byHand restore :: holds) kept) :
    (g.step (.exit restore)).2.Holding holds kept := by
  have hexit : g.region.exit? restore = _ := h.exit?_eq
  have hcounts := h.counts
  rw [List.length_cons] at hcounts
  simp only [step, hexit]
  exact ⟨h.nested.2, rfl, h.guards, by dsimp only; omega⟩

/-- Giving up the latest guard takes its hold away, if it is the latest one. -/
theorem Holding.unlock (h : g.Holding (.byGuard restore :: holds) kept) :
    (g.step .unlock).2.Holding holds kept := by
  have hexit : g.region.exit? restore = _ := h.exit?_eq
  have hguards : g.guards = restore :: holds.filterMap Hold.guard? := h.guards
  have hcounts := h.counts
  rw [List.length_cons] at hcounts
  simp only [step, hguards, hexit]
  exact ⟨h.nested.2, rfl, rfl, by dsimp only; omega⟩

/-- At a reset the holds stay, and are the ones kept from then on. -/
theorem Holding.reset (h : g.Holding holds kept) : (g.step .reset).2.Holding holds holds :=
  ⟨h.nested, h.depth, h.guards, rfl⟩

/-- A region that is held in this way is balanced exactly if nobody holds it now and nobody did at
the last reset. -/
theorem Holding.isBalanced_iff (h : g.Holding holds kept) :
    g.region.isBalanced = true ↔ holds = [] ∧ kept = [] := by
  have hdepth := h.depth
  have hcounts := h.counts
  rw [CountingRegion.isBalanced, Bool.and_eq_true, beq_iff_eq, beq_iff_eq,
    ← List.length_eq_zero_iff, ← List.length_eq_zero_iff]
  omega

end Uses

section Histories

variable {steps : List RegionStep} {holds kept : List Hold}

/-- Uses in pairs leave the region with the holds that are still open. -/
theorem Paired.holding (h : Paired steps holds kept) : (run {} steps).Holding holds kept := by
  induction h with
  | nil => exact holding_fresh
  | enter _ ih => exact run_concat {} _ _ ▸ ih.enter
  | exit _ ih => exact run_concat {} _ _ ▸ ih.exit
  | lock _ ih => exact run_concat {} _ _ ▸ ih.lock
  | unlock _ ih => exact run_concat {} _ _ ▸ ih.unlock
  | reset _ ih => exact run_concat {} _ _ ▸ ih.reset

/-- There are as many holds as entries without an exit. -/
theorem Paired.length_add_exits (h : Paired steps holds kept) :
    holds.length + exits {} steps = entries steps := by
  rw [← h.holding.depth]
  exact (tallied_run steps).depth

/-- The restore values given back in pairs are less than the number of entries. -/
theorem Paired.restore_lt (h : Paired steps holds kept) {restore : Nat}
    (hmem : .exit restore ∈ steps) : restore < entries steps := by
  induction h with
  | nil => cases hmem
  | exit h ih =>
    rw [entries_concat]
    rcases List.mem_append.1 hmem with hmem | hlast
    · exact Nat.lt_add_right _ (ih hmem)
    · obtain rfl : restore = _ := RegionStep.exit.inj (List.mem_singleton.1 hlast)
      have hlength := h.length_add_exits
      have hrestore : restore = _ := h.holding.nested.1
      rw [List.length_cons] at hlength
      omega
  | enter _ ih | lock _ ih | unlock _ ih | reset _ ih =>
    rw [entries_concat]
    exact Nat.lt_add_right _ (ih (by simpa using hmem))

/-- After uses in nested pairs the region reports balance exactly if every entry has been matched and
every entry had been matched when the counters were last reset.  Words report the same, as long as
there were fewer than `2 ^ 32` entries. -/
theorem Paired.reports_balance (h : Paired steps holds kept) :
    (holds = [] ↔ exits {} steps = entries steps) ∧
    ((run {} steps).region.isBalanced = true ↔ holds = [] ∧ kept = []) ∧
    (entries steps < UInt32.size →
      ∃ w, GuardedWords.run {} steps = some (replies {} steps, w) ∧
        (w.region.isBalanced = true ↔ holds = [] ∧ kept = [])) := by
  refine ⟨?matched, h.holding.isBalanced_iff, ?words⟩
  case matched =>
    have hlength := h.length_add_exits
    rw [← List.length_eq_zero_iff]
    omega
  case words =>
    intro hentries
    have hroom := CountingRegion.hasRoom_fresh hentries
    have hfits : ∀ restore, .exit restore ∈ steps → restore < UInt32.size :=
      fun restore hmem => Nat.lt_trans (h.restore_lt hmem) hentries
    obtain ⟨w, hrun, hcounts⟩ := GuardedWords.exists_run_eq {} hfits hroom
    refine ⟨w, hrun, ?_⟩
    have hregion : w.region.counts = (run {} steps).region := congrArg GuardedRegion.region hcounts
    rw [← WordRegion.isBalanced_counts, hregion]
    exact h.holding.isBalanced_iff

/-- A region that was reset while it was held reports balance after the next reset. -/
theorem reports_balance_again :
    Paired [.enter, .reset, .lock, .unlock, .exit 0, .reset] [] [] ∧
      (run {} [.enter, .reset, .lock, .unlock, .exit 0, .reset]).region.isBalanced = true := by
  have h : Paired [.enter, .reset, .lock, .unlock, .exit 0, .reset] [] [] :=
    Paired.nil.enter.reset.lock.unlock.exit.reset
  exact ⟨h, h.reports_balance.2.1.2 ⟨rfl, rfl⟩⟩

/-- Every entry is matched, but the counters were reset in between. -/
theorem exists_matched_unbalanced :
    ∃ steps kept, Paired steps [] kept ∧ exits {} steps = entries steps ∧
      (run {} steps).region.isBalanced = false ∧
      ∃ w, GuardedWords.run {} steps = some (replies {} steps, w) ∧
        w.region.isBalanced = false :=
  ⟨[.enter, .reset, .exit 0], [.byHand 0], Paired.nil.enter.reset.exit, by decide, by decide, _, rfl,
    by decide⟩

end Histories

end GuardedRegion
end SoftTimer
