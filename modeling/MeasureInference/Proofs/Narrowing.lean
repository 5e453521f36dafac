import MeasureInference.Proofs.Column

/-!
Narrowing again changes nothing.

The levels of a call become the labels of a column, and a further call may return that column as it
is. Its levels are then the same ones, counted as before. Three properties of levels make this so:
none is repeated, so that a column of them offers them in the same order, however often its slot is
repeated; each occurs in the output; and how often they occur is all that is asked of the output, so
that its order does not matter. A call without levels gives a column without levels, which is
returned without looking at the output.
-/

namespace MeasureInference

open MeasureInference.Measure (nominalText)

namespace Argument

/-- An argument that is selected again and again offers what it offers once. -/
theorem eraseDups_levelLabels_of_forall_eq {args : List Argument} {arg : Argument}
    (hmem : arg ∈ args) (hall : ∀ a ∈ args, a = arg) :
    (levelLabels args).eraseDups = (levelLabels [arg]).eraseDups := by
  obtain ⟨first, rest, rfl⟩ := List.exists_cons_of_ne_nil (List.ne_nil_of_mem hmem)
  obtain ⟨rfl, hrest⟩ := List.forall_mem_cons.mp hall
  have hsubset : levelLabels rest ⊆ levelLabels [first] := by
    intro label hlabel
    obtain ⟨a, ha, hlevels⟩ := mem_levelLabels.mp hlabel
    exact mem_levelLabels.mpr ⟨first, List.mem_singleton.mpr rfl, hrest a ha ▸ hlevels⟩
  have hsplit : levelLabels (first :: rest) = levelLabels [first] ++ levelLabels rest :=
    levelLabels_append [first] rest
  rw [hsplit, Roster.eraseDups_append_of_subset hsubset]

end Argument

namespace Descriptor

/-- All slots in range select the same argument, and there is such a slot. -/
structure SelectsOnly (d : Descriptor) (args : List Argument) (arg : Argument) : Prop where
  selected : ∃ slot ∈ d.returns, args[slot.toNat]? = some arg
  only : ∀ slot ∈ d.returns, ∀ a, args[slot.toNat]? = some a → a = arg

variable {d : Descriptor} {args : List Argument} {arg : Argument}

theorem SelectsOnly.mem_views (h : d.SelectsOnly args arg) :
    arg ∈ Argument.views d.returns args :=
  Argument.mem_views.mpr h.selected

theorem SelectsOnly.eq_of_mem_views (h : d.SelectsOnly args arg) :
    ∀ a ∈ Argument.views d.returns args, a = arg := by
  intro a ha
  obtain ⟨slot, hslot, hget⟩ := Argument.mem_views.mp ha
  exact h.only slot hslot a hget

theorem SelectsOnly.scans (h : d.SelectsOnly args arg) : d.scans args = true := by
  obtain ⟨slot, hslot, hget⟩ := h.selected
  exact scans_eq_true.mpr
    ⟨List.ne_nil_of_mem hslot, List.ne_nil_of_mem (List.mem_of_getElem? hget)⟩

theorem SelectsOnly.candidateLabels (h : d.SelectsOnly args arg) :
    d.candidateLabels args = (Argument.levelLabels [arg]).eraseDups :=
  Argument.eraseDups_levelLabels_of_forall_eq h.mem_views h.eq_of_mem_views

theorem SelectsOnly.value_resolveType (h : d.SelectsOnly args arg)
    (harg : arg.measure = nominalText) : (d.resolveType args).value = nominalText := by
  obtain ⟨hreturns, hargs⟩ := scans_eq_true.mp h.scans
  exact (value_resolveType_eq_nominalText hreturns hargs).mpr ⟨arg, h.mem_views, harg⟩

/-- A column of labels, none of which is repeated, offers them as they are. -/
theorem SelectsOnly.candidateLabels_withLabels {c : Column} {labels : List String}
    (h : d.SelectsOnly args (c.withLabels labels).argument) (hlabels : labels.Nodup) :
    d.candidateLabels args = labels := by
  have hcolumn : Argument.levelLabels [(c.withLabels labels).argument] = labels := by
    have hoffered := Column.levelLabels_map_argument [c.withLabels labels]
    rwa [List.flatMap_singleton, Column.labels_withLabels] at hoffered
  rw [h.candidateLabels, hcolumn, Roster.eraseDups_of_nodup hlabels]

/-! ### The labels of a call's levels -/

/-- The labels of the levels of a call. -/
def resolvedLabels (d : Descriptor) (args : List Argument) (output : List Cell) : List String :=
  (d.resolveLevels args output).value.map ResolvedLevel.label

theorem resolvedLabels_eq_ite (d : Descriptor) (args : List Argument) (output : List Cell) :
    d.resolvedLabels args output =
      if (d.resolveType args).value = nominalText then d.usedLabels args output else [] := by
  rw [resolvedLabels, value_resolveLevels_eq_ite]
  split
  · rw [List.map_map]
    exact List.map_id _
  · rfl

theorem value_resolveLevels_eq_map (d : Descriptor) (args : List Argument) (output : List Cell) :
    (d.resolveLevels args output).value =
      (d.resolvedLabels args output).map ResolvedLevel.ofLabel := by
  rw [resolvedLabels_eq_ite, value_resolveLevels_eq_ite]
  split <;> rfl

theorem nodup_resolvedLabels (d : Descriptor) (args : List Argument) (output : List Cell) :
    (d.resolvedLabels args output).Nodup := by
  rw [resolvedLabels_eq_ite]
  split
  · exact nodup_usedLabels d args output
  · exact List.nodup_nil

theorem occurrences_pos_of_mem_resolvedLabels {output : List Cell} {label : String}
    (h : label ∈ d.resolvedLabels args output) : 0 < Cell.occurrences label output := by
  rw [resolvedLabels_eq_ite] at h
  split at h
  · exact of_decide_eq_true (List.mem_filter.mp h).2
  · cases h

/-- A label of a level has been counted, and found. -/
theorem count?_of_mem_resolvedLabels {output : List Cell} {label : String}
    (h : label ∈ d.resolvedLabels args output) :
    ∃ usage, (d.levelUsage args output).value = some usage ∧
      usage.count? label = some (Cell.occurrences label output) := by
  have hresolved := h
  rw [resolvedLabels, value_resolveLevels] at hresolved
  cases husage : (d.levelUsage args output).value with
  | none =>
      rw [husage] at hresolved
      cases hresolved
  | some usage =>
      obtain ⟨-, htext, rfl⟩ := value_levelUsage_eq_some.mp husage
      rw [resolvedLabels_eq_ite, if_pos htext] at h
      refine ⟨_, rfl, ?_⟩
      rw [count?_tally_candidates, if_pos (List.mem_of_mem_filter h)]

/-! ### Narrowing again -/

/-- The levels of a call repeat no label. Where a text column of them is returned as it is, they are
the levels again, whatever else the second call is given and whatever order the same output comes
in; and what is counted there are just these labels, each found as often as it was before. -/
theorem resolveLevels_narrowed (d : Descriptor) (args : List Argument) (output : List Cell) :
    (d.resolvedLabels args output).Nodup ∧
    ∀ (c : Column) (e : Descriptor) (args' : List Argument) (output' : List Cell),
      c.measure = nominalText →
      e.SelectsOnly args' (c.withLabels (d.resolvedLabels args output)).argument →
      output.Perm output' →
      (e.resolveLevels args' output').value = (d.resolveLevels args output).value ∧
      ∃ usage, (e.levelUsage args' output').value = some usage ∧
        usage.labels = d.resolvedLabels args output ∧
        ∀ t ∈ usage.counts, 0 < t.count ∧
          ∃ earlier, (d.levelUsage args output).value = some earlier ∧
            earlier.count? t.label = some t.count := by
  have hnodup := nodup_resolvedLabels d args output
  refine ⟨hnodup, fun c e args' output' hc hselects hperm => ?_⟩
  have htext : (e.resolveType args').value = nominalText := by
    apply hselects.value_resolveType
    rw [Column.measure_argument, Column.measure_withLabels, hc]
  have hcandidates := hselects.candidateLabels_withLabels hnodup
  have hoccurs (label : String) :
      Cell.occurrences label output' = Cell.occurrences label output :=
    (hperm.count_eq (Cell.text label)).symm
  refine ⟨?levels, _, value_levelUsage_eq_some.mpr ⟨hselects.scans, htext, rfl⟩, ?offered, ?counts⟩
  case levels =>
    have hused : e.usedLabels args' output' = d.resolvedLabels args output := by
      rw [usedLabels, hcandidates, List.filter_eq_self]
      intro label hlabel
      rw [hoccurs, decide_eq_true_eq]
      exact occurrences_pos_of_mem_resolvedLabels hlabel
    rw [value_resolveLevels_eq_map, value_resolveLevels_eq_map, resolvedLabels_eq_ite, if_pos htext,
      hused]
  case offered => rw [labels_tally_candidates, hcandidates]
  case counts =>
    intro t ht
    rw [counts_tally_candidates, hcandidates] at ht
    obtain ⟨label, hlabel, rfl⟩ := List.mem_map.mp ht
    dsimp only
    rw [hoccurs]
    exact ⟨occurrences_pos_of_mem_resolvedLabels hlabel, count?_of_mem_resolvedLabels hlabel⟩

/-- The second slot is out of range and the third is the first one again. -/
def passing : Descriptor := ⟨⟨"TRIM"⟩, .ordinal, [1, 7, 1], .columnWise⟩

def passedArgs (c : Column) : List Argument := [⟨.nominalText, true, [⟨4, "q"⟩]⟩, c.argument]

def merging : Descriptor := ⟨⟨"IF"⟩, .continuous, [1, 0], .unspecified⟩

def mergedArgs : List Argument :=
  [⟨.nominalText, true, [⟨0, "x"⟩, ⟨1, "y"⟩]⟩, ⟨.ordinal, true, [⟨0, "z"⟩, ⟨1, "x"⟩]⟩]

def mergedOutput : List Cell := [.text "x", .missing, .text "z", .text "x"]

theorem resolveLevels_passing :
    (merging.resolveLevels mergedArgs mergedOutput).value = [⟨"z", "z"⟩, ⟨"x", "x"⟩] ∧
    (passing.resolveLevels
      (passedArgs ((Column.new "c" nominalText).withLabels ["z", "x"]))
      [.text "x", .text "x", .missing, .text "z"]).value = [⟨"z", "z"⟩, ⟨"x", "x"⟩] := by
  have hlevels : (merging.resolveLevels mergedArgs mergedOutput).value =
      [⟨"z", "z"⟩, ⟨"x", "x"⟩] := by decide
  have hlabels : merging.resolvedLabels mergedArgs mergedOutput = ["z", "x"] := by
    rw [resolvedLabels, hlevels]
    rfl
  have hselects : passing.SelectsOnly
      (passedArgs ((Column.new "c" nominalText).withLabels
        (merging.resolvedLabels mergedArgs mergedOutput)))
      ((Column.new "c" nominalText).withLabels
        (merging.resolvedLabels mergedArgs mergedOutput)).argument := by
    refine ⟨⟨1, by decide, rfl⟩, ?_⟩
    simp [passing, passedArgs, eq_comm]
  obtain ⟨-, hnarrowed⟩ := resolveLevels_narrowed merging mergedArgs mergedOutput
  obtain ⟨hpassed, -⟩ := hnarrowed (Column.new "c" nominalText) passing _
    [.text "x", .text "x", .missing, .text "z"] rfl hselects (by decide)
  rw [hlabels, hlevels] at hpassed
  exact ⟨hlevels, hpassed⟩

end Descriptor

end MeasureInference
