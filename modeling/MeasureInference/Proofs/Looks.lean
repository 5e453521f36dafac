import Mathlib.Algebra.GroupWithZero.Nat
import Mathlib.Data.List.Count
import Mathlib.Data.List.Infix
import MeasureInference.Inspection
import MeasureInference.Proofs.LevelResolution

/-!
What a caller can count while calls are performed on the same arguments and output.

The looks of a call come in at most three runs, one for each loop: the scan asks for measures and
stops behind the first text; the collection asks every selected argument whether it has levels, and
for the levels of those that say so; and the count takes the output from its start to its end, if
there is anything to count. The first run goes no further than the halt, the second goes over all
slots again. What a caller has counted behind some calls is the sum of what each of them takes
alone, because a call leaves nothing behind that another one could use.
-/

namespace MeasureInference

open MeasureInference.Measure (nominalText)

/-- What is counted of looks that were each taken so many times. -/
def Readings.ofCounts (arguments : Nat) (times : Look → Nat) : Readings where
  arguments := (List.range arguments).map fun j =>
    ⟨times (.measure j), times (.hasLevels j), times (.levels j)⟩
  starts := times .start
  cells := times .cell

theorem Readings.ofCounts_count (arguments : Nat) (looks : List Look) :
    (ofCounts arguments fun look => looks.count look) = ofLooks arguments looks := rfl

namespace Argument

/-- Whether a position is that of a text. -/
def isTextAt (args : List Argument) (position : Nat) : Bool :=
  args[position]?.any fun arg => arg.measure = nominalText

/-- Whether the argument at a position says that it has levels. -/
def hasLevelsAt (args : List Argument) (position : Nat) : Bool := args[position]?.any hasLevels

/-- Positions up to and including the first one of a text. -/
def upToText (args : List Argument) (positions : List Nat) : List Nat :=
  positions.take (positions.findIdx (isTextAt args) + 1)

theorem getElem?_of_mem_selected {slots : List UInt64} {args : List Argument}
    {entry : Nat × Argument} (h : entry ∈ selected slots args) :
    args[entry.1]? = some entry.2 := by
  obtain ⟨slot, -, hslot⟩ := List.mem_filterMap.mp h
  obtain ⟨arg, harg, rfl⟩ := Option.map_eq_some_iff.mp hslot
  exact harg

theorem map_fst_selected (slots : List UInt64) (args : List Argument) :
    (selected slots args).map Prod.fst =
      (slots.map UInt64.toNat).filter fun position => position < args.length := by
  induction slots with
  | nil => rfl
  | cons slot slots ih =>
      rw [selected] at ih ⊢
      by_cases hslot : slot.toNat < args.length
      · simp [hslot, ih]
      · simp [hslot, ih]

end Argument

/-! ### The three runs of looks -/

/-- A scan halts at the first text, whatever its state. -/
theorem looks_scanArguments {args : List Argument} {selected : List (Nat × Argument)}
    (h : ∀ entry ∈ selected, args[entry.1]? = some entry.2) (state : Measure) :
    (scanArguments state selected).looks =
      (Argument.upToText args (selected.map Prod.fst)).map Look.measure := by
  induction selected generalizing state with
  | nil => rfl
  | cons entry selected ih =>
      obtain ⟨position, arg⟩ := entry
      obtain ⟨hentry, hselected⟩ := List.forall_mem_cons.mp h
      have hposition : Argument.isTextAt args position = decide (arg.measure = nominalText) := by
        rw [Argument.isTextAt, hentry, Option.any_some]
      rw [scanArguments, Observed.looks_bind, Observed.measureOf, Observed.looks_look,
        Observed.value_look, Argument.upToText, List.map_cons, List.findIdx_cons, hposition]
      by_cases htext : arg.measure = nominalText
      · simp [htext]
      · have hproceed : ∃ next, state.step arg.measure = .proceed next := by
          revert htext
          cases state <;> cases arg.measure <;> simp [Measure.step]
        obtain ⟨next, hnext⟩ := hproceed
        rw [hnext]
        simp [htext, ih hselected, Argument.upToText]

/-- What the collection of candidates looks at for one argument. -/
def candidateLooks (entry : Nat × Argument) : List Look :=
  .hasLevels entry.1 :: if entry.2.hasLevels then [.levels entry.1] else []

theorem looks_collectCandidates (candidates : Usage) (selected : List (Nat × Argument)) :
    (collectCandidates candidates selected).looks = selected.flatMap candidateLooks := by
  induction selected generalizing candidates with
  | nil => rfl
  | cons entry selected ih =>
      obtain ⟨position, arg⟩ := entry
      rw [collectCandidates, Observed.looks_bind, Observed.hasLevelsOf, Observed.looks_look,
        Observed.value_look, List.flatMap_cons, candidateLooks]
      by_cases hlevels : arg.hasLevels = true
      · simp [hlevels, Observed.levelsOf, ih]
      · simp [hlevels, ih]

theorem count_scanLooks (positions : List Nat) (look : Look) :
    (positions.map Look.measure).count look =
      match look with
      | .measure j => positions.count j
      | _ => 0 := by
  cases look with
  | measure j => exact List.count_map_of_injective positions _ (fun _ _ => Look.measure.inj) j
  | hasLevels | levels | start | cell => simp [List.count_eq_zero]

theorem count_looks_tally (u : Usage) (output : List Cell) (look : Look) :
    (u.tally output).looks.count look =
      match look with
      | .start => 1
      | .cell => output.length
      | _ => 0 := by
  rw [Usage.looks_tally]
  cases look <;> simp [List.count_replicate]

theorem count_candidateLooks {args : List Argument} {selected : List (Nat × Argument)}
    (h : ∀ entry ∈ selected, args[entry.1]? = some entry.2) (look : Look) :
    (selected.flatMap candidateLooks).count look =
      match look with
      | .hasLevels j => (selected.map Prod.fst).count j
      | .levels j => if Argument.hasLevelsAt args j then (selected.map Prod.fst).count j else 0
      | _ => 0 := by
  induction selected with
  | nil => cases look <;> simp
  | cons entry selected ih =>
      obtain ⟨hentry, hselected⟩ := List.forall_mem_cons.mp h
      have hlevels : Argument.hasLevelsAt args entry.1 = entry.2.hasLevels := by
        rw [Argument.hasLevelsAt, hentry, Option.any_some]
      rw [List.flatMap_cons, List.count_append, ih hselected, candidateLooks, ← hlevels]
      cases look with
      | measure | start | cell => split <;> simp
      | hasLevels j =>
          have hlooks : (if Argument.hasLevelsAt args entry.1 then
              [Look.levels entry.1] else []).count (.hasLevels j) = 0 := by
            split <;> simp
          rw [List.count_cons, hlooks]
          simp [List.count_cons, Nat.add_comm]
      | levels j =>
          by_cases hj : entry.1 = j
          · subst hj
            split <;> simp_all [Nat.add_comm]
          · split <;> simp [hj]

namespace Descriptor

/-! ### One call -/

/-- The positions that the return slots of a call select, in slot order. -/
def positions (d : Descriptor) (args : List Argument) : List Nat :=
  (d.returns.map UInt64.toNat).filter fun position => position < args.length

/-- Whether a call goes on to levels: it asks for them, and its result is a text. -/
def resolvesLevels (d : Descriptor) (args : List Argument) (call : Call) : Bool :=
  call ≠ .resolveType && (d.resolveType args).value = nominalText

/-- Whether a call reads the output: it goes on to levels, and finds a candidate. -/
def readsOutput (d : Descriptor) (args : List Argument) (call : Call) : Bool :=
  d.resolvesLevels args call && Argument.levelLabels (Argument.views d.returns args) ≠ []

/-- How often one call takes a look. Measures are asked for up to the first text, levels behind it
too. -/
def amount (d : Descriptor) (args : List Argument) (output : List Cell) (call : Call)
    (look : Look) : Nat :=
  if d.returns = [] ∨ args = [] then 0
  else
    match look with
    | .measure j => (Argument.upToText args (d.positions args)).count j
    | .hasLevels j => if d.resolvesLevels args call then (d.positions args).count j else 0
    | .levels j =>
      if d.resolvesLevels args call && Argument.hasLevelsAt args j then
        (d.positions args).count j
      else 0
    | .start => if d.readsOutput args call then 1 else 0
    | .cell => if d.readsOutput args call then output.length else 0

theorem isEmpty_candidates (d : Descriptor) (args : List Argument) :
    (d.candidates args).isEmpty = true ↔
      Argument.levelLabels (Argument.views d.returns args) = [] := by
  have hcounts := Usage.counts_foldl_addCandidate_empty
    (Argument.levelLabels (Argument.views d.returns args))
  show (d.candidates args).counts.isEmpty = true ↔ _
  rw [candidates, hcounts, List.isEmpty_iff, List.map_eq_nil_iff]
  constructor
  · intro h
    rw [List.eq_nil_iff_forall_not_mem] at h ⊢
    simpa only [List.mem_eraseDups] using h
  · intro h
    rw [h, List.eraseDups_nil]

theorem looks_resolveType (d : Descriptor) (args : List Argument) :
    (d.resolveType args).looks =
      if d.scans args then (Argument.upToText args (d.positions args)).map Look.measure
      else [] := by
  rw [resolveType]
  split
  · have hselected : ∀ entry ∈ Argument.selected d.returns args, args[entry.1]? = some entry.2 :=
      fun _ => Argument.getElem?_of_mem_selected
    have hscan := looks_scanArguments hselected .nominal
    rw [Argument.map_fst_selected] at hscan
    simp [hscan, positions]
  · rfl

theorem looks_levelUsage (d : Descriptor) (args : List Argument) (output : List Cell) :
    (d.levelUsage args output).looks =
      (d.resolveType args).looks ++
        if d.scans args && (d.resolveType args).value = nominalText then
          (Argument.selected d.returns args).flatMap candidateLooks ++
            if Argument.levelLabels (Argument.views d.returns args) ≠ [] then
              ((d.candidates args).tally output).looks
            else []
        else [] := by
  by_cases hscans : d.scans args = true
  · rw [hscans, Bool.true_and]
    by_cases htext : (d.resolveType args).value = nominalText
    · rw [levelUsage_of_eq_nominalText hscans htext, if_pos (decide_eq_true htext)]
      dsimp only
      rw [looks_collectCandidates]
      congr 2
      by_cases hempty : Argument.levelLabels (Argument.views d.returns args) = []
      · rw [if_pos ((isEmpty_candidates d args).mpr hempty), if_neg (not_not.mpr hempty)]
      · rw [if_neg (mt (isEmpty_candidates d args).mp hempty), if_pos hempty]
    · rw [levelUsage_of_ne_nominalText hscans htext, if_neg (mt of_decide_eq_true htext),
        List.append_nil]
  · rw [levelUsage_of_not_scans hscans, looks_resolveType, if_neg hscans,
      Bool.eq_false_iff.mpr hscans]
    rfl

theorem looks_resolveLevels (d : Descriptor) (args : List Argument) (output : List Cell) :
    (d.resolveLevels args output).looks = (d.levelUsage args output).looks := by
  rw [resolveLevels, Observed.looks_bind]
  cases (d.levelUsage args output).value <;> simp

/-- The looks of a call: the scan, then the collection if the call goes on to levels, then the
output if there is a candidate. -/
theorem looks_perform {d : Descriptor} {args : List Argument} (hscans : d.scans args = true)
    (output : List Cell) (call : Call) :
    (d.perform args output call).looks =
      (Argument.upToText args (d.positions args)).map Look.measure ++
        ((if d.resolvesLevels args call then
            (Argument.selected d.returns args).flatMap candidateLooks else []) ++
          if d.readsOutput args call then ((d.candidates args).tally output).looks else []) := by
  have hlevels : (d.levelUsage args output).looks =
      (Argument.upToText args (d.positions args)).map Look.measure ++
        ((if d.resolvesLevels args .levelUsage then
            (Argument.selected d.returns args).flatMap candidateLooks else []) ++
          if d.readsOutput args .levelUsage then ((d.candidates args).tally output).looks else []) := by
    rw [looks_levelUsage, looks_resolveType, if_pos hscans]
    by_cases htext : (d.resolveType args).value = nominalText
    · simp [hscans, htext, resolvesLevels, readsOutput]
    · simp [htext, resolvesLevels, readsOutput]
  cases call with
  | resolveType =>
      rw [perform, Observed.looks_map, looks_resolveType, if_pos hscans]
      simp [resolvesLevels, readsOutput]
  | resolveLevels =>
      rw [perform, Observed.looks_map, looks_resolveLevels, hlevels]
      rfl
  | levelUsage =>
      rw [perform, Observed.looks_map, hlevels]

theorem looks_perform_of_not_scans {d : Descriptor} {args : List Argument}
    (hscans : ¬d.scans args = true) (output : List Cell) (call : Call) :
    (d.perform args output call).looks = [] := by
  have hlevels : (d.levelUsage args output).looks = [] := by
    simp [looks_levelUsage, looks_resolveType, hscans]
  cases call with
  | resolveType => rw [perform, Observed.looks_map, looks_resolveType, if_neg hscans]
  | resolveLevels => rw [perform, Observed.looks_map, looks_resolveLevels, hlevels]
  | levelUsage => rw [perform, Observed.looks_map, hlevels]

theorem count_looks_perform (d : Descriptor) (args : List Argument) (output : List Cell)
    (call : Call) (look : Look) :
    (d.perform args output call).looks.count look = d.amount args output call look := by
  by_cases hscans : d.scans args = true
  · have hselected : ∀ entry ∈ Argument.selected d.returns args, args[entry.1]? = some entry.2 :=
      fun _ => Argument.getElem?_of_mem_selected
    have hcollection := count_candidateLooks hselected look
    rw [Argument.map_fst_selected] at hcollection
    rw [looks_perform hscans, List.count_append, List.count_append, count_scanLooks,
      apply_ite (List.count look), apply_ite (List.count look), hcollection, count_looks_tally,
      amount.eq_def, if_neg (not_or.mpr (scans_eq_true.mp hscans))]
    -- Each kind of look stands in one of the three runs only.
    cases look with
    | measure | hasLevels | start | cell => simp [positions]
    | levels j =>
        simp only [positions]
        cases d.resolvesLevels args call <;> simp
  · have hempty : d.returns = [] ∨ args = [] := by
      rw [scans_eq_true] at hscans
      tauto
    rw [looks_perform_of_not_scans hscans, amount.eq_def, if_pos hempty, List.count_nil]

/-! ### Calls in a row -/

theorem readings_inspect_behind (d : Descriptor) (args : List Argument) (output : List Cell)
    (earlier : List Look) (calls : List Call) :
    (d.inspect args output earlier calls).map Prod.snd =
      calls.inits.tail.map fun past =>
        .ofCounts args.length fun look =>
          earlier.count look + (past.map fun call => d.amount args output call look).sum := by
  induction calls generalizing earlier with
  | nil => rfl
  | cons call calls ih =>
      have hlooks : Readings.ofLooks args.length (earlier ++ (d.perform args output call).looks) =
          .ofCounts args.length fun look =>
            earlier.count look + d.amount args output call look := by
        rw [← Readings.ofCounts_count]
        simp only [List.count_append, count_looks_perform]
      have hinits : calls.inits = [] :: calls.inits.tail := by
        cases calls <;> simp
      rw [inspect, List.map_cons, ih, hlooks, List.inits_cons, List.tail_cons, hinits]
      simp only [List.map_cons, List.map_map, List.tail_cons, List.count_append,
        count_looks_perform, Function.comp_def, List.sum_cons, Nat.add_assoc, List.map_nil,
        List.sum_nil, Nat.add_zero]

/-- Behind each of some calls, everything has been looked at as often as the calls so far take
together. -/
theorem readings_inspect_eq_sum_amount (d : Descriptor) (args : List Argument) (output : List Cell)
    (calls : List Call) :
    (d.inspect args output [] calls).map Prod.snd =
      calls.inits.tail.map fun past =>
        .ofCounts args.length fun look =>
          (past.map fun call => d.amount args output call look).sum := by
  have hbehind := d.readings_inspect_behind args output [] calls
  simpa only [List.count_nil, Nat.zero_add] using hbehind

end Descriptor

end MeasureInference
