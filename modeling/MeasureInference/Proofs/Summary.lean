import Mathlib.Data.List.Basic
import MeasureInference.Host
import MeasureInference.Proofs.Lines

/-!
The line about a function tells all of its configuration.

The name stands in front as it is and may hold anything, a whole line of another function included,
so the line is taken apart from its other end. Behind the brace that opens the configuration there
is no further one; it is the last of the line, wherever else the name has one. What follows are
fields between commas, and only the last of them, the list of slots, has commas of its own.
-/

namespace MeasureInference

/-! ### Taking lists apart -/

section Splitting

variable {α : Type} {a : α} {front front' behind behind' : List α}

/-- Equal lists are split alike where an element stands first. -/
theorem append_cons_inj_of_notMem_front (hfront : a ∉ front) (hfront' : a ∉ front')
    (h : front ++ a :: behind = front' ++ a :: behind') : front = front' ∧ behind = behind' := by
  rcases List.append_eq_append_iff.mp h with ⟨more, hmore, hrest⟩ | ⟨more, hmore, hrest⟩
  · cases more with
    | nil => simpa using And.intro hmore.symm hrest
    | cons b more =>
        cases hrest
        exact absurd (hmore ▸ by simp) hfront'
  · cases more with
    | nil => simpa using And.intro hmore hrest.symm
    | cons b more =>
        cases hrest
        exact absurd (hmore ▸ by simp) hfront

/-- Equal lists are split alike where an element stands last. -/
theorem append_cons_inj_of_notMem_behind (hbehind : a ∉ behind) (hbehind' : a ∉ behind')
    (h : front ++ a :: behind = front' ++ a :: behind') : front = front' ∧ behind = behind' := by
  have hreverse : behind.reverse ++ a :: front.reverse = behind'.reverse ++ a :: front'.reverse := by
    simpa using congrArg List.reverse h
  obtain ⟨hrest, hname⟩ := append_cons_inj_of_notMem_front (by simpa using hbehind)
    (by simpa using hbehind') hreverse
  exact ⟨List.reverse_inj.mp hname, List.reverse_inj.mp hrest⟩

end Splitting

/-! ### Fields -/

/-- What is shown loses nothing if it can be read back. -/
theorem injective_of_read_back {α β : Type} {shown : α → β} {read? : β → Option α}
    (h : ∀ a, read? (shown a) = some a) : Function.Injective shown := by
  intro a b hshown
  rw [← Option.some_inj, ← h a, hshown, h]

theorem Measure.name_injective : Function.Injective Measure.name :=
  injective_of_read_back Measure.ofText?_name

theorem EvalMode.name_injective : Function.Injective EvalMode.name :=
  injective_of_read_back EvalMode.ofText?_name

theorem slotsText_injective : Function.Injective slotsText :=
  injective_of_read_back slotsOfText?_slotsText

theorem toString_flag_inj {a b : Bool} : toString a = toString b ↔ a = b := by
  cases a <;> cases b <;> decide

/-- The two flags of a mode tell which mode it is. -/
theorem EvalMode.eq_of_flags {a b : EvalMode} (hrow : a.isRowWise = b.isRowWise)
    (hcolumn : a.isColumnWise = b.isColumnWise) : a = b := by
  revert hrow hcolumn
  cases a <;> cases b <;> decide

theorem comma_notMem_flag (b : Bool) : ',' ∉ (toString b).toList := by
  cases b <;> decide

theorem Measure.comma_notMem_name (m : Measure) : ',' ∉ m.name.toList := by
  cases m <;> decide

theorem brace_notMem_slotsText (slots : List UInt64) : '\x7b' ∉ (slotsText slots).toList := by
  have hslot (n : Nat) : '\x7b' ∉ Nat.toDigits 10 n := by
    intro h
    cases Nat.isDigit_of_mem_toDigits (by decide) (by decide) h
  rw [toList_slotsText]
  cases slots with
  | nil => decide
  | cons slot slots =>
      rw [List.map_cons, intercalate_cons]
      simp [hslot]

namespace Descriptor

/-- What the line shows behind the brace that opens the configuration. -/
def configurationText (d : Descriptor) : List Char :=
  " row_wise: ".toList ++ ((toString d.mode.isRowWise).toList ++
    ',' :: (" column_wise: ".toList ++ ((toString d.mode.isColumnWise).toList ++
      ',' :: (" measure_type: ".toList ++ (d.measure.name.toList ++
        ',' :: (" returns: ".toList ++ ((slotsText d.returns).toList ++ " \x7d".toList)))))))

theorem toList_summary (d : Descriptor) :
    d.summary.toList = (d.id.name.toList ++ [' ']) ++ '\x7b' :: d.configurationText := by
  have hopen : " \x7b row_wise: ".toList = [' '] ++ '\x7b' :: " row_wise: ".toList := by decide
  have hcolumn : ", column_wise: ".toList = ',' :: " column_wise: ".toList := by decide
  have hmeasure : ", measure_type: ".toList = ',' :: " measure_type: ".toList := by decide
  have hreturns : ", returns: ".toList = ',' :: " returns: ".toList := by decide
  unfold summary configurationText
  simp only [String.toList_append]
  rw [hopen, hcolumn, hmeasure, hreturns]
  simp only [List.append_assoc, List.cons_append, List.nil_append]

theorem brace_notMem_configurationText (d : Descriptor) : '\x7b' ∉ d.configurationText := by
  have hflag (b : Bool) : '\x7b' ∉ (toString b).toList := by cases b <;> decide
  have hname : '\x7b' ∉ d.measure.name.toList := by cases d.measure <;> decide
  have hfurther {field : List Char} (h : '\x7b' ∉ field) : '\x7b' ∉ ',' :: field :=
    List.not_mem_cons_of_ne_of_not_mem (by decide) h
  have hreturns := List.not_mem_append (by decide : '\x7b' ∉ " returns: ".toList)
    (List.not_mem_append (brace_notMem_slotsText d.returns)
      (by decide : '\x7b' ∉ " \x7d".toList))
  have hmeasure := List.not_mem_append (by decide : '\x7b' ∉ " measure_type: ".toList)
    (List.not_mem_append hname (hfurther hreturns))
  have hcolumn := List.not_mem_append (by decide : '\x7b' ∉ " column_wise: ".toList)
    (List.not_mem_append (hflag d.mode.isColumnWise) (hfurther hmeasure))
  exact List.not_mem_append (by decide : '\x7b' ∉ " row_wise: ".toList)
    (List.not_mem_append (hflag d.mode.isRowWise) (hfurther hcolumn))

/-- The configuration is read off its text field by field. -/
theorem eq_of_configurationText {d e : Descriptor}
    (h : d.configurationText = e.configurationText) :
    d.mode = e.mode ∧ d.measure = e.measure ∧ d.returns = e.returns := by
  unfold configurationText at h
  obtain ⟨hrow, h⟩ := append_cons_inj_of_notMem_front (comma_notMem_flag _) (comma_notMem_flag _)
    (List.append_cancel_left h)
  obtain ⟨hcolumn, h⟩ := append_cons_inj_of_notMem_front (comma_notMem_flag _) (comma_notMem_flag _)
    (List.append_cancel_left h)
  obtain ⟨hmeasure, h⟩ := append_cons_inj_of_notMem_front (Measure.comma_notMem_name _)
    (Measure.comma_notMem_name _) (List.append_cancel_left h)
  have hreturns := List.append_cancel_right (List.append_cancel_left h)
  rw [String.toList_inj] at hrow hcolumn hmeasure hreturns
  exact ⟨EvalMode.eq_of_flags (toString_flag_inj.mp hrow) (toString_flag_inj.mp hcolumn),
    Measure.name_injective hmeasure, slotsText_injective hreturns⟩

theorem summary_injective : Function.Injective summary := by
  intro d e h
  have htext := congrArg String.toList h
  rw [toList_summary, toList_summary] at htext
  -- The name may hold braces too, so the line is split at its last one.
  obtain ⟨hname, hconfiguration⟩ := append_cons_inj_of_notMem_behind
    (brace_notMem_configurationText d) (brace_notMem_configurationText e) htext
  have hid : d.id = e.id :=
    congrArg FunctionId.mk (String.toList_inj.mp (List.append_cancel_right hname))
  obtain ⟨hmode, hmeasure, hreturns⟩ := eq_of_configurationText hconfiguration
  cases d
  cases e
  rw [Descriptor.mk.injEq]
  exact ⟨hid, hmeasure, hreturns, hmode⟩

end Descriptor

/-! ### What is shown of registries -/

theorem Host.describe_eq_iff {r s : Registry} {name : String} :
    (step r (.describe name)).2 = (step s (.describe name)).2 ↔
      r.find? ⟨name⟩ = s.find? ⟨name⟩ := by
  have hstep (r : Registry) : (step r (.describe name)).2 =
      (r.descriptor ⟨name⟩).map fun d => .text d.summary := rfl
  rw [hstep, hstep, Registry.descriptor, Registry.descriptor]
  cases r.find? ⟨name⟩ with
  | none => cases s.find? ⟨name⟩ <;> simp [Except.map]
  | some d =>
      cases s.find? ⟨name⟩ with
      | none => simp [Except.map]
      | some e => simp [Except.map, Descriptor.summary_injective.eq_iff]

/-- A line about a function loses nothing of its descriptor. So the lines of all functions tell which
registry they are of, and the answer to a question about one function tells what is registered for
it, if anything is. -/
theorem Descriptor.summary_loses_nothing :
    Function.Injective Descriptor.summary ∧
      (Function.Injective fun r : Registry => r.toList.map Descriptor.summary) ∧
      ∀ (r s : Registry) (name : String),
        (Host.step r (.describe name)).2 = (Host.step s (.describe name)).2 ↔
          r.find? ⟨name⟩ = s.find? ⟨name⟩ := by
  refine ⟨summary_injective, fun r s h => ?_, fun r s name => Host.describe_eq_iff⟩
  have hlist : r.toList = s.toList := List.map_injective_iff.mpr summary_injective h
  exact congrArg (fun entries => (⟨⟨entries⟩⟩ : Registry)) hlist

end MeasureInference
