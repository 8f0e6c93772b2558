import SoftTimer.Proofs.History
import SoftTimer.Proofs.Regions

/-!
# The discipline of the regions

No region is ever held twice, and none is held while a callback runs: a step from one moment to the
next enters and leaves the region of one scheduler, or no region.  So a pass enters the region of its
scheduler when it begins, for each timer that it comes to, and when it ends.  The counters of a
region may be reset at any moment.

Main definitions:

- `Moment.gate`: the scheduler whose region a step enters.
- `System.Gated`: what such a step does to the regions, and what it records of them.
- `Deed`, `Moment.deeds`: runs in which region counters are reset.
- `Moment.ownEntries`: how often a pass enters the region of its scheduler by itself.

Main results:

- Theorem `Moment.gated_step`: a step enters and leaves the region of its gate once.
- Theorem `Moment.regions_disciplined`: at every moment every region is free and balanced and was
  never nested, and a pass enters its region twice and once for each visit.
-/

namespace SoftTimer

variable {m n : Nat}

/-! ## Gates -/

/-- What is recorded when the region of a scheduler, if one is given, is entered and left. -/
def passage (gate : Option (Fin m)) : List (Event m n) :=
  gate.elim [] fun s => [.entered s, .left s]

namespace System

variable {sys a b c : System m n} {s r : Fin m} {gate : Option (Fin m)}

/-- How the regions were used, in the order of time. -/
def uses (sys : System m n) : List (Event m n) :=
  (sys.trace.filter fun e => !e.isInner).reverse

/-- How often the region of a scheduler was entered. -/
def entries (sys : System m n) (s : Fin m) : Nat :=
  sys.trace.count (.entered s)

/-- From `a` to `b` the region of the scheduler given was entered and left once, if one is given,
and no region was used otherwise. -/
structure Gated (gate : Option (Fin m)) (a b : System m n) : Prop where
  region : ∀ r, b.region r = if gate = some r then (a.region r).used else a.region r
  uses : b.uses = a.uses ++ passage gate

/-- Where nothing happens no region is used. -/
theorem Gated.refl (a : System m n) : Gated none a a :=
  ⟨fun _ => rfl, (List.append_nil _).symm⟩

/-- Recording something else than a use of a region is no such use. -/
theorem Gated.emit (h : Gated gate a b) {e : Event m n} (he : e.isInner = true) :
    Gated gate a (b.emit e) := by
  refine ⟨h.region, ?_⟩
  rw [← h.uses, System.uses, trace_emit, List.filter_cons_of_neg (by simp [he])]
  rfl

/-- Work inside one region passes its gate once. -/
theorem Crossed.gated (h : Crossed s Event.isInner a b) : Gated (some s) a b := by
  rcases h with ⟨hregion, es, hes, hinner⟩
  constructor
  · intro r
    rw [hregion]
    by_cases hr : s = r
    · rw [hr, Function.update_self, if_pos rfl]
    · rw [Function.update_of_ne (Ne.symm hr), if_neg (by simpa using hr)]
  · have hnone : es.filter (fun e => !e.isInner) = [] :=
      List.filter_eq_nil_iff.2 fun e he => by simp [hinner e he]
    have hentered : (Event.entered s : Event m n).isInner = false := rfl
    have hleft : (Event.left s : Event m n).isInner = false := rfl
    simp [uses, hes, hnone, passage, hentered, hleft]

/-- A use of a region is found among the uses exactly if it is in the trace. -/
theorem mem_uses {e : Event m n} (he : e.isInner = false) : e ∈ sys.uses ↔ e ∈ sys.trace := by
  simp [uses, he]

/-- The entries of a region are counted among its uses. -/
theorem entries_eq (sys : System m n) (s : Fin m) : sys.entries s = sys.uses.count (.entered s) := by
  rw [entries, uses, List.count_reverse, List.count_filter (by rfl)]

/-- Passing a gate counts as one entry of its region, and of no other. -/
theorem Gated.entries_eq (h : Gated gate a b) (r : Fin m) :
    b.entries r = a.entries r + if gate = some r then 1 else 0 := by
  rw [System.entries_eq, h.uses, List.count_append, ← System.entries_eq]
  cases gate with
  | none => rfl
  | some s => by_cases hs : s = r <;> simp [passage, hs]

end System

namespace Moment

variable {x y : Moment m n} {s r : Fin m} {now : Timespec}

/-- The scheduler whose region a step enters: that of the pass in control, or else that of the
request, unless the request misses an argument. -/
def gate (x : Moment m n) (a : Action m n) : Option (Fin m) :=
  match x.cursor, a with
  | some c, _ => some c.scheduler
  | none, .request s what => if what.lacks then none else some s
  | none, .ret => none

/-- A pass in control passes the gate of its scheduler. -/
theorem gate_of_cursor {c : Cursor m n} (h : x.cursor = some c) (a : Action m n) :
    x.gate a = some c.scheduler := by
  simp only [gate, h]

/-- A request passes the gate of its scheduler unless it misses an argument. -/
theorem gate_of_no_cursor (h : x.cursor = none) (s : Fin m) (what : Request (Option (Fin n))) :
    x.gate (.request s what) = if what.lacks then none else some s := by
  simp only [gate, h]

/-- A dispatch, ignored or not, makes of the system what its beginning makes of it. -/
theorem system_act_dispatch (x : Moment m n) (s : Fin m) (now : Timespec) :
    (x.act (.request s (.dispatch now))).system = (x.system.begin s now).2 := by
  simp only [act]
  split
  · next heq => rw [heq]
  · next heq => rw [heq]

/-- A command passes the gate of its scheduler once, unless it misses an argument. -/
theorem gated_command (x : Moment m n) (s : Fin m) (c : Command (Option (Fin n))) :
    System.Gated (if c.lacks then none else some s) x.system
      (x.act (.request s (.command c))).system := by
  suffices hwork : System.Gated (if c.lacks then none else some s) x.system
      (x.system.command s c).2 from hwork.emit rfl
  rcases x.system.command_cases s c with
    ⟨hlacks, heq⟩ | ⟨hlacks, ⟨-, hcrossed⟩ | ⟨cause, -, hnoted⟩⟩
  · rw [hlacks, heq]
    exact .refl x.system
  · rw [hlacks]
    exact (hcrossed.mono fun _ => Event.isInner_of_isQuiet).gated
  · rw [hlacks]
    exact hnoted.crossed.gated

/-- A query passes the gate of its scheduler once, unless it misses an argument. -/
theorem gated_query (x : Moment m n) (s : Fin m) (q : Query (Option (Fin n))) :
    System.Gated (if q.lacks then none else some s) x.system
      (x.act (.request s (.query q))).system := by
  suffices hwork : System.Gated (if q.lacks then none else some s) x.system
      (x.system.query s q).2 from hwork.emit rfl
  rcases x.system.query_cases s q with ⟨hlacks, heq⟩ | ⟨hlacks, hcrossed⟩
  · rw [hlacks, heq]
    exact .refl x.system
  · rw [hlacks]
    exact (hcrossed.mono fun _ => Event.isInner_of_isQuiet).gated

/-- A step of a pass passes the gate of its scheduler once. -/
theorem gated_advance (x : Moment m n) (c : Cursor m n) :
    System.Gated (some c.scheduler) x.system (x.advance c).system := by
  rcases hnext : c.next with _ | t
  · rw [advance_finish hnext]
    exact (x.system.crossed_finish c.scheduler c.now).gated
  · have hvisit := (x.system.crossed_visit c.scheduler t).gated
    rw [system_advance hnext]
    split
    · exact hvisit.emit rfl
    · exact hvisit

/-- A step enters the region of its gate once and leaves it, and uses no region otherwise. -/
theorem gated_step (x : Moment m n) (a : Action m n) :
    System.Gated (x.gate a) x.system (x.step a).system := by
  rcases hcursor : x.cursor with _ | c
  · rw [step_of_no_cursor hcursor]
    cases a with
    | request s what =>
      rw [gate_of_no_cursor hcursor]
      cases what with
      | command c => exact gated_command x s c
      | query q => exact gated_query x s q
      | dispatch now =>
        rw [system_act_dispatch]
        exact (x.system.crossed_begin s now).gated
    | ret =>
      have hgate : x.gate .ret = none := by simp only [gate, hcursor]
      rw [hgate, act]
      split <;> exact .refl x.system
  · rw [step_of_cursor hcursor, gate_of_cursor hcursor]
    exact gated_advance x c

end Moment

/-! ## Runs in which counters are reset -/

/-- What happens at a moment. -/
inductive Deed (m n : Nat) where
  /-- The next step is made. -/
  | act (a : Action m n)
  /-- The region of a scheduler starts counting anew. -/
  | reset (s : Fin m)
deriving DecidableEq

namespace System

variable {sys : System m n}

/-- Let the region of a scheduler start counting anew. -/
def resetCounts (sys : System m n) (s : Fin m) : System m n :=
  sys.modifyScheduler s fun c => { c with region := c.region.resetCounts }

/-- Resetting counters changes a region, and nothing else but what was recorded. -/
theorem alike_resetCounts (sys : System m n) (s : Fin m) : sys.Alike (sys.resetCounts s) :=
  ⟨rfl, lists_modifyScheduler sys s (by intro _; rfl),
    dispatching_modifyScheduler sys s (by intro _; rfl),
    timeout_modifyScheduler sys s (by intro _; rfl)⟩

/-- Resetting the counters of one region leaves the others as they are. -/
theorem region_resetCounts (sys : System m n) (s r : Fin m) :
    (sys.resetCounts s).region r =
      if s = r then (sys.region r).resetCounts else sys.region r := by
  by_cases hr : s = r
  · subst hr
    simp [resetCounts, region]
  · rw [if_neg hr]
    exact congrArg Scheduler.region (scheduler_modifyScheduler_of_ne sys (Ne.symm hr) _)

end System

namespace Moment

variable {x y : Moment m n} {s : Fin m}

/-- The moment after a deed. -/
def deed (x : Moment m n) : Deed m n → Moment m n
  | .act a => x.step a
  | .reset s => { x with system := x.system.resetCounts s }

/-- The moment after a row of deeds. -/
def after (x : Moment m n) (deeds : List (Deed m n)) : Moment m n :=
  deeds.foldl deed x

/-- A row with one more deed is the row and then the deed. -/
theorem after_concat (x : Moment m n) (deeds : List (Deed m n)) (d : Deed m n) :
    x.after (deeds ++ [d]) = (x.after deeds).deed d :=
  List.foldl_concat _ _ _ _

/-- A deed leads from a steady system to a steady one. -/
theorem steady_deed (h : x.system.Steady) (d : Deed m n) : (x.deed d).system.Steady := by
  cases d with
  | act a => exact steady_step h a
  | reset s => exact h.of_alike (x.system.alike_resetCounts s)

/-- What holds at the start and after every deed holds after all deeds. -/
theorem after_induction {φ : Moment m n → Prop} {kinds : Fin m → RegionKind}
    (hinitial : φ (ofMachine (.initial kinds))) (hdeed : ∀ x d, φ x → φ (x.deed d))
    (deeds : List (Deed m n)) : φ ((ofMachine (.initial kinds)).after deeds) := by
  induction deeds using List.reverseRecOn with
  | nil => exact hinitial
  | append_singleton deeds d ih =>
    rw [after_concat]
    exact hdeed _ d ih

end Moment

/-! ## Regions at rest -/

/-- The region is of the kind given, and if that one counts, the region is free and balanced, and
was not nested since its counters were last reset. -/
def Region.AtRest : RegionKind → Region → Prop
  | .counting, region =>
    ∃ r, region = .counting r ∧ r.depth = 0 ∧ r.isBalanced = true ∧ r.maxDepth ≤ 1
  | .interruptMask, region => region = .interruptMask

namespace Region

variable {kind : RegionKind} {region : Region}

/-- A region that was never entered is at rest. -/
theorem atRest_fresh (kind : RegionKind) : (fresh kind).AtRest kind := by
  cases kind with
  | counting => exact ⟨{}, rfl, rfl, rfl, Nat.zero_le 1⟩
  | interruptMask => rfl

namespace AtRest

/-- A region at rest is at rest after one more use. -/
theorem used (h : region.AtRest kind) : region.used.AtRest kind := by
  cases kind with
  | counting =>
    rcases h with ⟨r, rfl, hdepth, hbalanced, hmax⟩
    refine ⟨r.used, rfl, hdepth, ?_, ?_⟩
    · simpa [CountingRegion.isBalanced, CountingRegion.used] using hbalanced
    · simp [CountingRegion.used, hdepth, hmax]
  | interruptMask =>
    obtain rfl : region = .interruptMask := h
    rfl

/-- A region at rest is at rest after its counters were reset. -/
theorem resetCounts (h : region.AtRest kind) : region.resetCounts.AtRest kind := by
  cases kind with
  | counting =>
    rcases h with ⟨r, rfl, hdepth, -, -⟩
    refine ⟨r.resetCounts, rfl, hdepth, ?_, ?_⟩
    · simp [CountingRegion.isBalanced, CountingRegion.resetCounts, hdepth]
    · simp [CountingRegion.resetCounts, hdepth]
  | interruptMask =>
    obtain rfl : region = .interruptMask := h
    rfl

end AtRest

end Region

namespace System

variable {sys sys' : System m n} {kinds : Fin m → RegionKind} {gate : Option (Fin m)}

/-- Every region is at rest, and until now none was left out of order. -/
structure Disciplined (kinds : Fin m → RegionKind) (sys : System m n) : Prop where
  atRest : ∀ s, (sys.region s).AtRest (kinds s)
  ordered : ∀ s, .fault s .regionOrder ∉ sys.uses

/-- At the start every region is at rest. -/
theorem disciplined_initial (kinds : Fin m → RegionKind) :
    (initial kinds : System m n).Disciplined kinds := by
  refine ⟨fun s => ?_, fun s => List.not_mem_nil⟩
  have hregion : (initial kinds : System m n).region s = .fresh (kinds s) := by
    simp [region, initial, scheduler]
  rw [hregion]
  exact Region.atRest_fresh _

/-- Passing a gate keeps every region at rest, and no region is left out of order. -/
theorem Disciplined.gated (h : sys.Disciplined kinds) (hgated : Gated gate sys sys') :
    sys'.Disciplined kinds := by
  constructor
  · intro s
    rw [hgated.region]
    split
    · exact (h.atRest s).used
    · exact h.atRest s
  · intro s
    rw [hgated.uses, List.mem_append, not_or]
    refine ⟨h.ordered s, ?_⟩
    cases gate <;> simp [passage]

/-- Resetting counters keeps every region at rest. -/
theorem Disciplined.resetCounts (h : sys.Disciplined kinds) (s : Fin m) :
    (sys.resetCounts s).Disciplined kinds := by
  refine ⟨fun r => ?_, h.ordered⟩
  rw [region_resetCounts]
  split
  · exact (h.atRest r).resetCounts
  · exact h.atRest r

end System

namespace Moment

variable {x y : Moment m n} {s : Fin m} {now : Timespec} {es : List (Event m n)}

/-- After any deeds every region is at rest, and none was left out of order. -/
theorem disciplined_after (kinds : Fin m → RegionKind) (deeds : List (Deed m n)) :
    ((ofMachine (.initial kinds)).after deeds).system.Disciplined kinds := by
  refine after_induction (φ := fun x => x.system.Disciplined kinds)
    (System.disciplined_initial kinds) ?_ deeds
  intro x d hx
  cases d with
  | act a => exact hx.gated (gated_step x a)
  | reset s => exact hx.resetCounts s

/-! ## The entries of a pass -/

/-- A pass of `s` is under way before each of the deeds. -/
abbrev During (s : Fin m) (x : Moment m n) (deeds : List (Deed m n)) : Prop :=
  MarkedAlong deed s x deeds

/-- How often a deed enters the region of `s`. -/
def entering (s : Fin m) (x : Moment m n) (d : Deed m n) : Nat :=
  (x.deed d).system.entries s - x.system.entries s

/-- The entries that a deed makes into the region of `s`, one by one. -/
def entrances (s : Fin m) (x : Moment m n) (d : Deed m n) : List (Fin m) :=
  List.replicate (entering s x d) s

/-- How often the pass of `s` enters the region of `s` by a deed, as far as it is in control. -/
def ownEntry (s : Fin m) (x : Moment m n) (d : Deed m n) : Nat :=
  (ownStep (entrances s) s x d).length

/-- A pass enters the region as often as the deed does if it is in control, and otherwise not. -/
theorem ownEntry_eq (s : Fin m) (x : Moment m n) (d : Deed m n) :
    ownEntry s x d = if x.cursor.map Cursor.scheduler = some s then entering s x d else 0 := by
  rw [ownEntry, ownStep]
  split
  · exact List.length_replicate
  · rfl

/-- How often the pass of `s` enters the region of `s` by itself during some deeds. -/
def ownEntries (s : Fin m) (x : Moment m n) (deeds : List (Deed m n)) : Nat :=
  (ownAlong deed (entrances s) s x deeds).length

/-- The entries of a pass add up deed by deed. -/
theorem ownEntries_cons (s : Fin m) (x : Moment m n) (d : Deed m n) (deeds : List (Deed m n)) :
    ownEntries s x (d :: deeds) = ownEntry s x d + ownEntries s (x.deed d) deeds :=
  List.length_append

/-- While no pass is in control none enters a region by itself. -/
theorem ownEntry_of_no_cursor (h : x.cursor = none) (s : Fin m) (d : Deed m n) :
    ownEntry s x d = 0 := by
  rw [ownEntry_eq, h]
  rfl

/-- By a step a pass in control enters its region once, and no other pass enters one. -/
theorem ownEntry_of_cursor {c : Cursor m n} (h : x.cursor = some c) (s : Fin m) (a : Action m n) :
    ownEntry s x (.act a) = if c.scheduler = s then 1 else 0 := by
  have hentries := (gated_step x a).entries_eq s
  rw [gate_of_cursor h] at hentries
  rw [ownEntry_eq, h]
  by_cases hs : c.scheduler = s
  · simp [hs, entering, deed, hentries]
  · simp [hs]

/-- While a pass of `s` is under way it enters the region of `s` by itself once for each timer that
it comes to, and once when it ends. -/
theorem ownEntry_of_change {a : Action m n} (h : Change x (x.step a) es)
    (hs : x.system.dispatching s = true) :
    ownEntry s x (.act a) + ((x.step a).system.dispatching s).toNat = (visits s es).length + 1 := by
  generalize hy : x.step a = y at *
  cases h with
  | other hcursor hes _ hdispatching =>
    rw [ownEntry_of_no_cursor hcursor, visits_other s hes, hdispatching, hs]
    rfl
  | began hcursor _ _ _ hbegun =>
    have hkept : y.system.dispatching s = true := by
      rw [hbegun.dispatching, Function.update_apply, hs, ite_self]
    rw [ownEntry_of_no_cursor hcursor, visits_began, hkept]
    rfl
  | @visited c t hcursor _ _ hdispatching =>
    rw [ownEntry_of_cursor hcursor, visits_visited, hdispatching, hs]
    split <;> rfl
  | @finished c hcursor _ _ hdispatching =>
    rw [ownEntry_of_cursor hcursor, visits_finished, hdispatching]
    by_cases hc : c.scheduler = s
    · simp [hc]
    · simp [hc, Function.update_of_ne (Ne.symm hc), hs]

/-- By a deed a pass under way enters its region once for each timer it comes to, and once when it
ends. -/
theorem exists_ownEntry (hx : x.system.Steady) (d : Deed m n) (hs : x.system.dispatching s = true) :
    ∃ es, (x.deed d).system.course = x.system.course ++ es ∧
      ownEntry s x d + ((x.deed d).system.dispatching s).toNat = (visits s es).length + 1 := by
  cases d with
  | act a =>
    rcases exists_change hx a with ⟨es, hes, hchange⟩
    exact ⟨es, hes, ownEntry_of_change hchange hs⟩
  | reset r =>
    have hkept : (x.system.resetCounts r).dispatching s = true := by
      rw [(x.system.alike_resetCounts r).dispatching, hs]
    have hnone : ownEntry s x (.reset r) = 0 := by
      rw [ownEntry_eq]
      split
      · exact Nat.sub_self (x.system.entries s)
      · rfl
    refine ⟨[], (List.append_nil _).symm, ?_⟩
    rw [hnone, show (x.deed (.reset r)).system = x.system.resetCounts r from rfl, hkept]
    rfl

/-- From a moment at which a pass is under way to one at which it still is, or is just over, the
entries of the pass are its visits, and one more if it is over. -/
theorem exists_ownEntries {deeds : List (Deed m n)} (hx : x.system.Steady)
    (h : During s x deeds) :
    ∃ es, (x.after deeds).system.course = x.system.course ++ es ∧
      ownEntries s x deeds + ((x.after deeds).system.dispatching s).toNat =
        (visits s es).length + (x.system.dispatching s).toNat := by
  -- a pass under way owes one entry, which is the one that clears its mark
  induction deeds generalizing x with
  | nil => exact ⟨[], (List.append_nil _).symm, rfl⟩
  | cons d deeds ih =>
    rcases h with ⟨hs, hrest⟩
    rcases exists_ownEntry hx d hs with ⟨first, hfirst, hown⟩
    rcases ih (steady_deed hx d) hrest with ⟨more, hmore, hsum⟩
    refine ⟨first ++ more, ?_, ?_⟩
    · rw [← List.append_assoc, ← hfirst]
      exact hmore
    · have hafter : x.after (d :: deeds) = (x.deed d).after deeds := rfl
      rw [hafter, ownEntries_cons, visits_append, List.length_append, hs, Bool.toNat_true]
      omega

/-- A dispatch that is not ignored marks its scheduler. -/
theorem dispatching_step_dispatch (hcursor : x.cursor = none) (s : Fin m) (now : Timespec)
    (hx : x.system.Steady) : (x.step (.request s (.dispatch now))).system.dispatching s = true := by
  rw [step_of_no_cursor hcursor, system_act_dispatch]
  cases hs : x.system.dispatching s with
  | true => rw [(System.alike_begin_of_dispatching hs now).dispatching, hs]
  | false =>
    rcases hx with ⟨armed, hsound, -⟩
    rw [(hsound.begin hs now).2.dispatching, Function.update_self]

/-- Whatever clients and callbacks do, and whenever counters are reset: at every moment every
counting region is free and balanced, and was never nested; no region was left out of order.  Every
step enters the region of one scheduler once and leaves it: that of the pass in control, or that of
the request, and then none if the request misses an argument.  A dispatch that is not ignored enters
the region of its scheduler when it begins, and then its pass by itself enters it once for each timer
that it comes to, and once more at its end. -/
theorem regions_disciplined (kinds : Fin m → RegionKind) (deeds : List (Deed m n)) :
    let x := (ofMachine (.initial kinds)).after deeds
    (∀ s, kinds s = .counting → ∃ r, x.system.region s = .counting r ∧ r.depth = 0 ∧
      r.isBalanced = true ∧ r.maxDepth ≤ 1) ∧
    (∀ s, .fault s .regionOrder ∉ x.system.trace) ∧
    (∀ a, System.Gated (x.gate a) x.system (x.step a).system) ∧
    ∀ s now more, x.cursor = none → x.system.dispatching s = false →
      During s (x.step (.request s (.dispatch now))) more →
        let y := x.step (.request s (.dispatch now))
        let z := y.after more
        ∃ es, z.system.course = y.system.course ++ es ∧
          y.system.entries s + ownEntries s y more =
            x.system.entries s + (visits s es).length +
              if z.system.dispatching s then 1 else 2 := by
  intro x
  have hdisciplined : x.system.Disciplined kinds := disciplined_after kinds deeds
  have hsteady : x.system.Steady :=
    after_induction (φ := fun x => x.system.Steady) (System.steady_initial kinds)
      (fun _ d hx => steady_deed hx d) deeds
  refine ⟨?_, ?_, gated_step x, ?_⟩
  · intro s hs
    have hrest := hdisciplined.atRest s
    rwa [hs] at hrest
  · exact fun s hmem => hdisciplined.ordered s ((System.mem_uses rfl).2 hmem)
  · intro s now more hcursor _ hduring y z
    have hgate : x.gate (.request s (.dispatch now)) = some s := gate_of_no_cursor hcursor s _
    have hentries : y.system.entries s = x.system.entries s + 1 := by
      rw [(gated_step x _).entries_eq s, hgate, if_pos rfl]
    have hmarked : y.system.dispatching s = true :=
      dispatching_step_dispatch hcursor s now hsteady
    rcases exists_ownEntries (steady_step hsteady _) hduring with ⟨es, hes, hown⟩
    refine ⟨es, hes, ?_⟩
    change ownEntries s y more + (z.system.dispatching s).toNat =
      (visits s es).length + (y.system.dispatching s).toNat at hown
    rw [hmarked, Bool.toNat_true] at hown
    cases hz : z.system.dispatching s with
    | true =>
      rw [hz, Bool.toNat_true] at hown
      rw [if_pos rfl]
      omega
    | false =>
      rw [hz, Bool.toNat_false] at hown
      rw [if_neg Bool.false_ne_true]
      omega

/-- Two timers are armed on `s`, and the pass of `s` is about to begin. -/
def armingTwo (s : Fin m) (t u : Fin n) : List (Deed m n) :=
  [.act (.request s (.command (.init (some t) (some 0) .none))),
    .act (.request s (.command (.init (some u) (some 1) .none))),
    .act (.request s (.command (.arm (some t) .precise (some (.new 2 0)) none))),
    .act (.request s (.command (.arm (some u) .precise (some (.new 1 0)) none)))]

/-- The pass of `s` calls a timer.  The callback dispatches `r`, is ignored when it dispatches `s`,
resets the counters of `s`, and releases `t`, which the pass then skips. -/
def releasing (s r : Fin m) (t : Fin n) : List (Deed m n) :=
  [.act .ret, .act (.request r (.dispatch (.new 2 0))), .act .ret,
    .act (.request s (.dispatch (.new 2 0))), .reset s, .act (.request s (.command (.deinit (some t)))),
    .act .ret, .act .ret, .act .ret]

/-- The pass comes to two timers, and enters the region four times by itself. -/
theorem entries_releasing :
    let x : Moment 2 2 := (ofMachine (.initial fun _ => .counting)).after (armingTwo 0 0 1)
    let y := x.step (.request 0 (.dispatch (.new 2 0)))
    let z := y.after (releasing 0 1 0)
    (∃ r, x.system.region 0 = .counting r ∧ r.depth = 0 ∧ r.isBalanced = true ∧ r.maxDepth ≤ 1) ∧
      x.cursor = none ∧ x.system.dispatching 0 = false ∧ During 0 y (releasing 0 1 0) ∧
      z.system.dispatching 0 = false ∧
      ∃ es, z.system.course = y.system.course ++ es ∧
        y.system.entries 0 + ownEntries 0 y (releasing 0 1 0) =
          x.system.entries 0 + (visits 0 es).length + if z.system.dispatching 0 then 1 else 2 := by
  have hcursor : ((ofMachine (.initial fun _ => .counting)).after
      (armingTwo (0 : Fin 2) (0 : Fin 2) 1)).cursor = none := by decide
  have hidle : ((ofMachine (.initial fun _ => .counting)).after
      (armingTwo (0 : Fin 2) (0 : Fin 2) 1)).system.dispatching 0 = false := by decide
  have hduring : During 0 (((ofMachine (.initial fun _ => .counting)).after
      (armingTwo (0 : Fin 2) (0 : Fin 2) 1)).step (.request 0 (.dispatch (.new 2 0))))
        (releasing 0 1 0) := by decide
  have hover : ((((ofMachine (.initial fun _ => .counting)).after
      (armingTwo (0 : Fin 2) (0 : Fin 2) 1)).step (.request 0 (.dispatch (.new 2 0)))).after
        (releasing 0 1 0)).system.dispatching 0 = false := by decide
  rcases regions_disciplined (fun _ => .counting) (armingTwo (0 : Fin 2) (0 : Fin 2) 1) with
    ⟨hregion, -, -, hpass⟩
  exact ⟨hregion 0 rfl, hcursor, hidle, hduring, hover,
    hpass 0 (.new 2 0) (releasing 0 1 0) hcursor hidle hduring⟩

end Moment
end SoftTimer
