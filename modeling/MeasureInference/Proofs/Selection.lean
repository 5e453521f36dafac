import MeasureInference.Column
import MeasureInference.Proofs.LevelResolution

/-!
What the result of a call depends on.

A call looks at its arguments through its slots. It asks each argument that they select for its
measure and for whether it has levels, and only one that has some for their labels; and of the
output it only counts how often texts occur. So two calls have the same results as soon as the
arguments that they select answer alike, one after the other, and their outputs hold each text
equally often (`sameResults_of_alike`). Whatever else may differ between the two is a case of this
one law: the functions, the numbering of the arguments, those that are not selected, the codes of
levels, the order of the output.

That slots and arguments have to be there at all is no accident. Without any, the declared measure
is the result, and the law fails.
-/

namespace MeasureInference

namespace Argument

/-- Arguments that inference cannot tell apart. -/
structure Alike (a b : Argument) : Prop where
  measure : a.measure = b.measure
  hasLevels : a.hasLevels = b.hasLevels
  labels : a.hasLevels = true → a.levels.map Level.label = b.levels.map Level.label

theorem Alike.refl (a : Argument) : Alike a a := ⟨rfl, rfl, fun _ => rfl⟩

/-! ### Selecting -/

theorem map_measure_of_alike {xs ys : List Argument} (h : List.Forall₂ Alike xs ys) :
    xs.map Argument.measure = ys.map Argument.measure :=
  map_eq_map_of_forall₂ h fun _ _ => Alike.measure

theorem levelLabels_of_alike {xs ys : List Argument} (h : List.Forall₂ Alike xs ys) :
    levelLabels xs = levelLabels ys := by
  induction h with
  | nil => rfl
  | @cons x y xs ys hxy _ ih =>
      rw [levelLabels_cons, levelLabels_cons, ← hxy.hasLevels, ih]
      by_cases hlevels : x.hasLevels = true
      · rw [if_pos hlevels, if_pos hlevels, hxy.labels hlevels]
      · rw [if_neg hlevels, if_neg hlevels]

/-- Slots of two calls that select alike one after the other select alike altogether. -/
theorem views_alike {slots slots' : List UInt64} {args args' : List Argument}
    (h : List.Forall₂
      (fun slot slot' => Option.Rel Alike args[slot.toNat]? args'[slot'.toNat]?) slots slots') :
    List.Forall₂ Alike (views slots args) (views slots' args') :=
  List.rel_filterMap (fun _ _ => id) h

theorem views_alike_of_eq {slots slots' : List UInt64} {args args' : List Argument}
    (h : views slots args = views slots' args') :
    List.Forall₂ Alike (views slots args) (views slots' args') := by
  rw [h]
  exact List.forall₂_same.mpr fun arg _ => Alike.refl arg

theorem views_map {σ : UInt64 → UInt64} {slots : List UInt64} {args args' : List Argument}
    (h : ∀ slot ∈ slots, args'[(σ slot).toNat]? = args[slot.toNat]?) :
    views (slots.map σ) args' = views slots args := by
  rw [views, List.filterMap_map]
  exact List.filterMap_congr h

end Argument

theorem getElem?_rel {α β : Type} {R : α → β → Prop} {xs : List α} {ys : List β}
    (h : List.Forall₂ R xs ys) (k : Nat) : Option.Rel R xs[k]? ys[k]? := by
  induction h generalizing k with
  | nil => exact .none
  | cons hxy _ ih =>
      cases k with
      | zero => exact .some hxy
      | succ k => simpa using ih k

theorem Cell.occurrences_eq_count (label : String) (cells : List Cell) :
    occurrences label cells = (cells.filterMap Cell.asText?).count label := by
  induction cells with
  | nil => rfl
  | cons cell cells ih =>
      rw [occurrences_cons, ih, List.filterMap_cons]
      cases cell with
      | text s => simp [occurrences, asText?, List.count_cons, Nat.add_comm]
      | missing | integer | decimal => simp [occurrences, asText?]

/-! ### The law -/

namespace Descriptor

/-- Two calls that have the same results. -/
structure SameResults (d : Descriptor) (args : List Argument) (output : List Cell)
    (e : Descriptor) (args' : List Argument) (output' : List Cell) : Prop where
  measure : (d.resolveType args).value = (e.resolveType args').value
  usage : (d.levelUsage args output).value = (e.levelUsage args' output').value
  levels : (d.resolveLevels args output).value = (e.resolveLevels args' output').value

variable {d e : Descriptor} {args args' : List Argument} {output output' : List Cell}

theorem resolveType_of_alike (hd : d.returns ≠ []) (he : e.returns ≠ []) (hargs : args ≠ [])
    (hargs' : args' ≠ [])
    (h : List.Forall₂ Argument.Alike (Argument.views d.returns args)
      (Argument.views e.returns args')) :
    (d.resolveType args).value = (e.resolveType args').value := by
  rw [value_resolveType hd hargs, value_resolveType he hargs', Argument.map_measure_of_alike h]

theorem value_tally_candidates_of_alike
    (h : List.Forall₂ Argument.Alike (Argument.views d.returns args)
      (Argument.views e.returns args'))
    (houtput : ∀ text, Cell.occurrences text output = Cell.occurrences text output') :
    ((d.candidates args).tally output).value = ((e.candidates args').tally output').value := by
  apply Usage.ext_counts
  rw [counts_tally_candidates, counts_tally_candidates, candidateLabels, candidateLabels,
    Argument.levelLabels_of_alike h]
  simp only [houtput]

theorem sameResults_of_alike (hd : d.returns ≠ []) (he : e.returns ≠ []) (hargs : args ≠ [])
    (hargs' : args' ≠ [])
    (h : List.Forall₂ Argument.Alike (Argument.views d.returns args)
      (Argument.views e.returns args'))
    (houtput : ∀ text, Cell.occurrences text output = Cell.occurrences text output') :
    SameResults d args output e args' output' := by
  have hmeasure := resolveType_of_alike hd he hargs hargs' h
  have husage : (d.levelUsage args output).value = (e.levelUsage args' output').value := by
    rw [value_levelUsage_of_scans (scans_eq_true.mpr ⟨hd, hargs⟩),
      value_levelUsage_of_scans (scans_eq_true.mpr ⟨he, hargs'⟩), hmeasure,
      value_tally_candidates_of_alike h houtput]
  refine ⟨hmeasure, husage, ?_⟩
  rw [value_resolveLevels, value_resolveLevels, husage]

theorem sameResults_of_views (hd : d.returns ≠ []) (he : e.returns ≠ []) (hargs : args ≠ [])
    (hargs' : args' ≠ [])
    (h : Argument.views d.returns args = Argument.views e.returns args') (output : List Cell) :
    SameResults d args output e args' output :=
  sameResults_of_alike hd he hargs hargs' (Argument.views_alike_of_eq h) fun _ => rfl

/-! ### What makes no difference -/

theorem sameResults_columns (hd : d.returns ≠ []) {columns columns' : List Column}
    (hcolumns : columns.map Column.argument ≠ [])
    (h : List.Forall₂ (fun c c' => c.measure = c'.measure ∧
      c.levels.map Level.label = c'.levels.map Level.label) columns columns')
    (output : List Cell) :
    SameResults d (columns.map Column.argument) output d (columns'.map Column.argument) output := by
  have halike : List.Forall₂ Argument.Alike (columns.map Column.argument)
      (columns'.map Column.argument) := by
    rw [List.forall₂_map_left_iff, List.forall₂_map_right_iff]
    apply h.imp
    rintro c c' ⟨hmeasure, hlabels⟩
    -- Whether a column has levels can be seen from its labels.
    have hempty := congrArg List.isEmpty hlabels
    rw [List.isEmpty_map, List.isEmpty_map] at hempty
    exact ⟨hmeasure, congrArg (!·) hempty, fun _ => hlabels⟩
  have hcolumns' : columns'.map Column.argument ≠ [] := by
    intro hnil
    rw [hnil, List.forall₂_nil_right_iff] at halike
    exact hcolumns halike
  refine sameResults_of_alike hd hd hcolumns hcolumns' ?_ fun _ => rfl
  exact Argument.views_alike (List.forall₂_same.mpr fun slot _ => getElem?_rel halike slot.toNat)

theorem sameResults_renumbered (hd : d.returns ≠ []) (hargs : args ≠ []) (hargs' : args' ≠ [])
    {σ : UInt64 → UInt64} (h : ∀ slot ∈ d.returns, args'[(σ slot).toNat]? = args[slot.toNat]?)
    (output : List Cell) :
    SameResults d args output { d with returns := d.returns.map σ } args' output :=
  sameResults_of_views hd (mt List.map_eq_nil_iff.mp hd) hargs hargs'
    (Argument.views_map h).symm output

theorem sameResults_outOfRange (hd : d.returns ≠ []) (hargs : args ≠ []) {slots : List UInt64}
    (hslots : slots ≠ [])
    (h : slots.filter (Argument.inRange args) = d.returns.filter (Argument.inRange args))
    (output : List Cell) :
    SameResults d args output { d with returns := slots } args output := by
  have hviews : Argument.views d.returns args = Argument.views slots args := by
    rw [← Argument.views_filter_inRange d.returns, ← h, Argument.views_filter_inRange]
  exact sameResults_of_views (e := { d with returns := slots }) hd hslots hargs hargs hviews output

theorem sameResults_texts (hd : d.returns ≠ []) (hargs : args ≠ [])
    (h : (output.filterMap Cell.asText?).Perm (output'.filterMap Cell.asText?)) :
    SameResults d args output d args output' := by
  refine sameResults_of_alike hd hd hargs hargs (Argument.views_alike_of_eq rfl) fun text => ?_
  rw [Cell.occurrences_eq_count, Cell.occurrences_eq_count, h.count_eq]

/-- The results of a call with slots and arguments depend on what the slots select and on how often
each text occurs in the output, and on nothing else: not on the function with its mode and its
declared measure; not on the codes of levels, the names and the values of columns; not on the
numbering of the arguments, those that no slot selects included; not on slots out of range; and not
on the order of the output or its cells that are no texts. -/
theorem results_depend_on_selection (d : Descriptor) (args : List Argument) (output : List Cell)
    (hreturns : d.returns ≠ []) (hargs : args ≠ []) :
    (∀ e args' output', e.returns ≠ [] → args' ≠ [] →
      List.Forall₂ Argument.Alike (Argument.views d.returns args)
        (Argument.views e.returns args') →
      (∀ text, Cell.occurrences text output = Cell.occurrences text output') →
      SameResults d args output e args' output') ∧
    (∀ e, e.returns = d.returns → SameResults d args output e args output) ∧
    (∀ columns columns', args = columns.map Column.argument →
      List.Forall₂ (fun c c' => c.measure = c'.measure ∧
        c.levels.map Level.label = c'.levels.map Level.label) columns columns' →
      SameResults d args output d (columns'.map Column.argument) output) ∧
    (∀ σ args', args' ≠ [] →
      (∀ slot ∈ d.returns, args'[(σ slot).toNat]? = args[slot.toNat]?) →
      SameResults d args output { d with returns := d.returns.map σ } args' output) ∧
    (∀ slots, slots ≠ [] →
      slots.filter (Argument.inRange args) = d.returns.filter (Argument.inRange args) →
      SameResults d args output { d with returns := slots } args output) ∧
    (∀ output', (output.filterMap Cell.asText?).Perm (output'.filterMap Cell.asText?) →
      SameResults d args output d args output') := by
  refine ⟨?law, ?function, ?columns, ?numbering, ?outOfRange, ?output⟩
  case law =>
    intro e args' output' he hargs' halike houtput
    exact sameResults_of_alike hreturns he hargs hargs' halike houtput
  case function =>
    intro e he
    exact sameResults_of_views hreturns (he ▸ hreturns) hargs hargs (by rw [he]) output
  case columns =>
    rintro columns columns' rfl hcolumns
    exact sameResults_columns hreturns hargs hcolumns output
  case numbering =>
    intro σ args' hargs' hσ
    exact sameResults_renumbered hreturns hargs hargs' hσ output
  case outOfRange =>
    intro slots hslots hfilter
    exact sameResults_outOfRange hreturns hargs hslots hfilter output
  case output =>
    intro output' hperm
    exact sameResults_texts hreturns hargs hperm

/-- The slots of a call, one of them out of range, and its arguments, one of them not selected. -/
def choice : Descriptor := ⟨⟨"IF"⟩, .continuous, [2, 7, 0], .rowWise⟩

def choiceArgs : List Argument :=
  [⟨.nominalText, true, [⟨0, "x"⟩, ⟨1, "y"⟩]⟩, ⟨.ordinal, false, []⟩,
    ⟨.nominalText, true, [⟨0, "z"⟩, ⟨1, "x"⟩]⟩]

/-- The same call, but for all that makes no difference. -/
def recoded : Descriptor := ⟨⟨"CASE"⟩, .nominal, [0, 1], .unspecified⟩

def recodedArgs : List Argument :=
  [⟨.nominalText, true, [⟨7, "z"⟩, ⟨3, "x"⟩]⟩, ⟨.nominalText, true, [⟨9, "x"⟩, ⟨9, "y"⟩]⟩]

theorem results_recoded :
    choice.returns ≠ [] ∧ choiceArgs ≠ [] ∧
    SameResults choice choiceArgs [.text "x", .missing, .text "z", .text "x"]
      recoded recodedArgs [.text "z", .text "x", .text "x", .integer 4] ∧
    (recoded.resolveLevels recodedArgs
      [.text "z", .text "x", .text "x", .integer 4]).value = [⟨"z", "z"⟩, ⟨"x", "x"⟩] := by
  have hviews : List.Forall₂ Argument.Alike (Argument.views choice.returns choiceArgs)
      (Argument.views recoded.returns recodedArgs) :=
    .cons ⟨rfl, rfl, fun _ => rfl⟩ (.cons ⟨rfl, rfl, fun _ => rfl⟩ .nil)
  have htexts : ∀ text,
      Cell.occurrences text [.text "x", .missing, .text "z", .text "x"] =
        Cell.occurrences text [.text "z", .text "x", .text "x", .integer 4] := by
    intro text
    rw [Cell.occurrences_eq_count, Cell.occurrences_eq_count]
    exact (List.Perm.swap "z" "x" ["x"]).count_eq text
  obtain ⟨hlaw, -⟩ := results_depend_on_selection choice choiceArgs
    [.text "x", .missing, .text "z", .text "x"] (by decide) (by decide)
  exact ⟨by decide, by decide, hlaw _ _ _ (by decide) (by decide) hviews htexts, by decide⟩

end Descriptor

end MeasureInference
