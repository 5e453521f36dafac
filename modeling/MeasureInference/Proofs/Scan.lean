import MeasureInference.Proofs.Chain

/-!
Which measures a scan consumes, and through which states it goes.

A scan goes on past every measure but `nominalText`, so how far it goes is decided by the list
alone. Its states are another matter: below the top of the chain they climb it, but a scan may also
be started at the top, where `continuous`, and nothing else, leads down. Scans can be cut anywhere
in front of the halt and taken up again in the state reached.
-/

namespace MeasureInference

namespace Measure

def Step.state : Step → Measure
  | .proceed state => state
  | .halt state => state

def Step.halts : Step → Bool
  | .proceed _ => false
  | .halt _ => true

/-- The measures up to and including the first `nominalText`, or all of them if there is none. -/
def upToText (measures : List Measure) : List Measure :=
  measures.take (measures.idxOf nominalText + 1)

/-- The state that a scan ends in. -/
def reached (state : Measure) (measures : List Measure) : Measure :=
  ((steps state measures).getLast?.map Step.state).getD state

def halted (state : Measure) (measures : List Measure) : Bool :=
  (steps state measures).any Step.halts

/-! ### One step -/

theorem step_of_ne_nominalText (state : Measure) {next : Measure} (h : next ≠ nominalText) :
    step state next = .proceed (step state next).state := by
  cases state <;> cases next <;> first | contradiction | rfl

/-- At the top of the chain `continuous` leads down, and everything else leaves the state. -/
theorem step_from_nominalText {next : Measure} (h : next ≠ nominalText) :
    step nominalText next = .proceed (if next = continuous then continuous else nominalText) := by
  cases next <;> first | contradiction | rfl

variable (state : Measure) {next : Measure} (measures : List Measure)

theorem steps_cons_nominalText : steps state (nominalText :: measures) = [.halt nominalText] := rfl

theorem steps_cons_of_ne (h : next ≠ nominalText) :
    steps state (next :: measures) =
      .proceed (step state next).state :: steps (step state next).state measures := by
  rw [steps, step_of_ne_nominalText state h]
  rfl

theorem upToText_cons_nominalText : upToText (nominalText :: measures) = [nominalText] := by
  rw [upToText, List.idxOf_cons_self]
  rfl

theorem upToText_cons_of_ne (h : next ≠ nominalText) :
    upToText (next :: measures) = next :: upToText measures := by
  have hindex : (next :: measures).idxOf nominalText = measures.idxOf nominalText + 1 := by
    rw [List.idxOf_cons, beq_false_of_ne h, cond_false]
  rw [upToText, hindex, List.take_succ_cons, upToText]

theorem reached_cons_of_ne (h : next ≠ nominalText) :
    reached state (next :: measures) = reached (step state next).state measures := by
  rw [reached, reached, steps_cons_of_ne state measures h, List.getLast?_cons]
  cases (steps (step state next).state measures).getLast? <;> rfl

theorem halted_cons_of_ne (h : next ≠ nominalText) :
    halted state (next :: measures) = halted (step state next).state measures := by
  rw [halted, halted, steps_cons_of_ne state measures h]
  rfl

/-! ### Whole scans -/

theorem length_steps : (steps state measures).length = (upToText measures).length := by
  induction measures generalizing state with
  | nil => rfl
  | cons m measures ih =>
      by_cases hm : m = nominalText
      · rw [hm, steps_cons_nominalText, upToText_cons_nominalText]
        rfl
      · rw [steps_cons_of_ne state measures hm, upToText_cons_of_ne measures hm, List.length_cons,
          List.length_cons, ih]

/-- The step behind a measure halts if the measure is `nominalText`, and goes on otherwise. -/
theorem getElem?_steps_halts {k : Nat} {s : Step} (h : (steps state measures)[k]? = some s) :
    if measures[k]? = some nominalText then s = .halt nominalText else s.halts = false := by
  induction measures generalizing state k with
  | nil => cases h
  | cons m measures ih =>
      by_cases hm : m = nominalText
      · subst hm
        rw [steps_cons_nominalText, List.getElem?_singleton] at h
        split at h
        · next hk =>
          cases h
          rw [hk, List.getElem?_cons_zero, if_pos rfl]
        · cases h
      · rw [steps_cons_of_ne state measures hm] at h
        cases k with
        | zero =>
            cases h
            rw [List.getElem?_cons_zero, if_neg (by simpa using hm)]
            rfl
        | succ k => exact ih _ h

/-- Below the top of the chain the states of a scan are the running maxima. -/
theorem getElem?_steps_state {state : Measure} (hstate : state ≠ nominalText) {k : Nat} {s : Step}
    (h : (steps state measures)[k]? = some s) :
    s.state = (measures.take (k + 1)).foldl max state := by
  induction measures generalizing state k with
  | nil => cases h
  | cons m measures ih =>
      rw [List.take_succ_cons, List.foldl_cons]
      by_cases hm : m = nominalText
      · subst hm
        rw [max_eq_right (le_nominalText state), foldl_max_nominalText]
        rw [steps_cons_nominalText, List.getElem?_singleton] at h
        split at h
        · cases h
          rfl
        · cases h
      · rw [steps_cons_of_ne state measures hm, step_eq_proceed_max hstate hm] at h
        cases k with
        | zero =>
            cases h
            rfl
        | succ k => exact ih (max_ne_nominalText hstate hm) h

theorem steps_from_continuous (h : nominalText ∉ measures) :
    steps continuous measures = measures.map fun _ => .proceed continuous := by
  induction measures with
  | nil => rfl
  | cons m measures ih =>
      obtain ⟨hm, hmeasures⟩ := not_or.mp (mt List.mem_cons.mpr h)
      have hstep : (step continuous m).state = continuous := by
        cases m <;> first | contradiction | rfl
      rw [steps_cons_of_ne _ measures (Ne.symm hm), hstep, ih hmeasures, List.map_cons]

/-- A scan from the top of the chain stays there until it meets `continuous`, and then stays at
that. -/
theorem steps_from_nominalText (h : nominalText ∉ measures) (k : Nat) :
    (steps nominalText measures)[k]? =
      measures[k]?.map fun _ =>
        .proceed (if continuous ∈ measures.take (k + 1) then continuous else nominalText) := by
  induction measures generalizing k with
  | nil => rfl
  | cons m measures ih =>
      obtain ⟨hm, hmeasures⟩ := not_or.mp (mt List.mem_cons.mpr h)
      rw [steps_cons_of_ne _ measures (Ne.symm hm), step_from_nominalText (Ne.symm hm),
        List.take_succ_cons]
      by_cases hcontinuous : m = continuous
      · subst hcontinuous
        rw [if_pos rfl, Step.state, steps_from_continuous measures hmeasures]
        cases k with
        | zero =>
            rw [List.getElem?_cons_zero, List.getElem?_cons_zero, Option.map_some,
              if_pos (List.mem_cons_self ..)]
        | succ k =>
            rw [List.getElem?_cons_succ, List.getElem?_cons_succ, List.getElem?_map,
              if_pos (List.mem_cons_self ..)]
      · rw [if_neg hcontinuous, Step.state]
        cases k with
        | zero => simp [Ne.symm hcontinuous]
        | succ k => simp [ih hmeasures, Ne.symm hcontinuous]

theorem steps_append (xs ys : List Measure) :
    steps state (xs ++ ys) =
      if halted state xs then steps state xs
      else steps state xs ++ steps (reached state xs) ys := by
  induction xs generalizing state with
  | nil => rfl
  | cons x xs ih =>
      by_cases hx : x = nominalText
      · subst hx
        rfl
      · rw [List.cons_append, steps_cons_of_ne state _ hx, steps_cons_of_ne state xs hx, ih,
          halted_cons_of_ne state xs hx, reached_cons_of_ne state xs hx]
        split <;> rfl

/-- The scan over arguments takes the same steps, and asks for one measure in each of them. -/
theorem scanArguments_eq_reached (selected : List (Nat × Argument)) :
    (scanArguments state selected).value =
        reached state (selected.map fun entry => entry.2.measure) ∧
      (scanArguments state selected).looks =
        (selected.take (steps state (selected.map fun entry => entry.2.measure)).length).map
          fun entry => .measure entry.1 := by
  induction selected generalizing state with
  | nil => exact ⟨rfl, rfl⟩
  | cons entry selected ih =>
      obtain ⟨position, arg⟩ := entry
      rw [scanArguments, Observed.value_bind, Observed.looks_bind, Observed.measureOf,
        Observed.value_look, Observed.looks_look, List.map_cons]
      by_cases harg : arg.measure = nominalText
      · rw [harg]
        exact ⟨rfl, rfl⟩
      · obtain ⟨hvalue, hlooks⟩ := ih (step state arg.measure).state
        rw [steps_cons_of_ne state _ harg, reached_cons_of_ne state _ harg,
          step_of_ne_nominalText state harg, List.length_cons, List.take_succ_cons, List.map_cons]
        exact ⟨hvalue, congrArg (Look.measure position :: ·) hlooks⟩

/-- A scan consumes the measures up to and including the first `nominalText`, and halts there and
nowhere else. Its states are the running maxima of the chain, if it starts below the top; from the
top it goes down to the first `continuous`, if no `nominalText` is in its way. A scan of one list
behind another is the scan of the first, and, unless that halts, one of the second from the state
reached. The scan over arguments is this scan of their measures. -/
theorem scan_decided :
    (steps state measures).length = (upToText measures).length ∧
    (∀ (k : Nat) (s : Step), (steps state measures)[k]? = some s →
      if measures[k]? = some nominalText then s = .halt nominalText else s.halts = false) ∧
    (state ≠ nominalText → ∀ (k : Nat) (s : Step), (steps state measures)[k]? = some s →
      IsGreatest (insert state {m | m ∈ measures.take (k + 1)}) s.state) ∧
    (state = nominalText → nominalText ∉ measures → ∀ k : Nat, (steps state measures)[k]? =
      measures[k]?.map fun _ =>
        .proceed (if continuous ∈ measures.take (k + 1) then continuous else nominalText)) ∧
    (∀ more, steps state (measures ++ more) =
      if halted state measures then steps state measures
      else steps state measures ++ steps (reached state measures) more) ∧
    (∀ selected : List (Nat × Argument), (selected.map fun entry => entry.2.measure) = measures →
      (scanArguments state selected).value = reached state measures ∧
      (scanArguments state selected).looks =
        (selected.take (steps state measures).length).map fun entry => .measure entry.1) := by
  refine ⟨length_steps state measures, fun k s => getElem?_steps_halts state measures, ?climb,
    ?top, steps_append state measures, ?arguments⟩
  case climb =>
    intro hstate k s hs
    rw [getElem?_steps_state measures hstate hs]
    exact isGreatest_foldl_max state _
  case top =>
    rintro rfl hnone
    exact steps_from_nominalText measures hnone
  case arguments =>
    rintro selected rfl
    exact scanArguments_eq_reached state selected

/-- A scan from the top of the chain that is led down, and one that a text ends. -/
theorem scan_decided_ledDown :
    steps nominalText [ordinal, continuous, ordinal] =
      [.proceed nominalText, .proceed continuous, .proceed continuous] ∧
    (∀ k : Nat, (steps nominalText [ordinal, continuous, ordinal])[k]? =
      [ordinal, continuous, ordinal][k]?.map fun _ =>
        .proceed (if continuous ∈ [ordinal, continuous, ordinal].take (k + 1) then continuous
          else nominalText)) ∧
    IsGreatest (insert ordinal {m | m ∈ [nominal, continuous, nominalText, ordinal].take 2})
      continuous ∧
    (steps ordinal [nominal, continuous, nominalText, ordinal]).length = 3 := by
  have hdown := scan_decided nominalText [ordinal, continuous, ordinal]
  have hended := scan_decided ordinal [nominal, continuous, nominalText, ordinal]
  exact ⟨rfl, hdown.2.2.2.1 rfl (by decide), hended.2.2.1 (by decide) 1 _ rfl, hended.1⟩

end Measure

end MeasureInference
