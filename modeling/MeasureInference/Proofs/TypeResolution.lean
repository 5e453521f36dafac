import Mathlib.Data.List.Forall2
import MeasureInference.Proofs.Chain

/-!
The measure of a call as the greatest of what its return slots select.

The scan is gone after `value_resolveType`: what is left is a maximum over the selected measures,
and a maximum sees neither the order of the slots, nor how often one of them is repeated, nor slots
that select nothing. All of these are one fact, `resolveType_congr`: two descriptors whose slots
select the same set of arguments resolve alike.
-/

namespace MeasureInference

open MeasureInference.Measure (nominal)

/-- Lists that are related entry by entry look alike in every view that the relation respects. -/
theorem map_eq_map_of_forall₂ {α β γ : Type} {R : α → β → Prop} {f : α → γ} {g : β → γ}
    {as : List α} {bs : List β} (h : List.Forall₂ R as bs) (hR : ∀ a b, R a b → f a = g b) :
    as.map f = bs.map g := by
  induction h with
  | nil => rfl
  | cons hab _ ih => rw [List.map_cons, List.map_cons, hR _ _ hab, ih]

namespace Argument

/-- The arguments that return slots select, in slot order. -/
def views (slots : List UInt64) (args : List Argument) : List Argument :=
  slots.filterMap fun slot => args[slot.toNat]?

theorem map_snd_selected (slots : List UInt64) (args : List Argument) :
    (selected slots args).map Prod.snd = views slots args := by
  rw [selected, views, List.map_filterMap]
  congr 1
  funext slot
  cases args[slot.toNat]? <;> rfl

theorem mem_views {slots : List UInt64} {args : List Argument} {arg : Argument} :
    arg ∈ views slots args ↔ ∃ slot ∈ slots, args[slot.toNat]? = some arg := by
  rw [views, List.mem_filterMap]

/-- Whether a slot selects an argument. -/
def inRange (args : List Argument) (slot : UInt64) : Bool := slot.toNat < args.length

theorem views_filter_inRange (slots : List UInt64) (args : List Argument) :
    views (slots.filter (inRange args)) args = views slots args := by
  rw [views, views, List.filterMap_filter]
  congr 1
  funext slot
  by_cases hslot : slot.toNat < args.length
  · simp [inRange, hslot]
  · simp [inRange, hslot]

end Argument

namespace Descriptor

theorem scans_eq_true {d : Descriptor} {args : List Argument} :
    d.scans args = true ↔ d.returns ≠ [] ∧ args ≠ [] := by
  simp [scans]

theorem value_resolveType_of_not_scans {d : Descriptor} {args : List Argument}
    (h : d.returns = [] ∨ args = []) : (d.resolveType args).value = d.measure := by
  have hscans : ¬d.scans args = true := by
    rw [scans_eq_true]
    tauto
  rw [resolveType, if_neg hscans]
  rfl

theorem value_resolveType {d : Descriptor} {args : List Argument} (hreturns : d.returns ≠ [])
    (hargs : args ≠ []) :
    (d.resolveType args).value =
      ((Argument.views d.returns args).map Argument.measure).foldl max nominal := by
  rw [resolveType, if_pos (scans_eq_true.mpr ⟨hreturns, hargs⟩), ← Argument.map_snd_selected,
    List.map_map]
  exact value_scanArguments (by decide) _

theorem isGreatest_resolveType {d : Descriptor} {args : List Argument} (hreturns : d.returns ≠ [])
    (hargs : args ≠ []) :
    IsGreatest (insert nominal {m | ∃ arg ∈ Argument.views d.returns args, arg.measure = m})
      (d.resolveType args).value := by
  rw [value_resolveType hreturns hargs]
  simpa only [List.mem_map] using
    Measure.isGreatest_foldl_max nominal ((Argument.views d.returns args).map Argument.measure)

/-- Slots that select the same arguments, in whatever order and however often, resolve alike. -/
theorem resolveType_congr {d e : Descriptor} {args : List Argument} (hd : d.returns ≠ [])
    (he : e.returns ≠ []) (hargs : args ≠ [])
    (h : ∀ arg, arg ∈ Argument.views d.returns args ↔ arg ∈ Argument.views e.returns args) :
    (d.resolveType args).value = (e.resolveType args).value := by
  have hgreatest := isGreatest_resolveType hd hargs
  -- Both measures are the greatest element of one and the same set.
  simp only [h] at hgreatest
  exact hgreatest.unique (isGreatest_resolveType he hargs)

/-- Only what is selected counts, so slots that hold the same numbers resolve alike. -/
theorem resolveType_returns_congr {d : Descriptor} {args : List Argument} {slots : List UInt64}
    (hreturns : d.returns ≠ []) (hargs : args ≠ []) (hslots : slots ≠ [])
    (h : ∀ slot, slot ∈ slots ↔ slot ∈ d.returns) :
    ({ d with returns := slots }.resolveType args).value = (d.resolveType args).value := by
  apply resolveType_congr hslots hreturns hargs
  intro arg
  simp only [Argument.mem_views, h]

theorem resolveType_perm {d : Descriptor} {args : List Argument} {slots : List UInt64}
    (hreturns : d.returns ≠ []) (hargs : args ≠ []) (h : slots.Perm d.returns) :
    ({ d with returns := slots }.resolveType args).value = (d.resolveType args).value := by
  have hslots : slots ≠ [] := by
    rintro rfl
    exact hreturns h.nil_eq.symm
  exact resolveType_returns_congr hreturns hargs hslots fun slot => h.mem_iff

theorem resolveType_repeated {d : Descriptor} {args : List Argument} {slot : UInt64}
    {before after : List UInt64} (hargs : args ≠ []) (hslot : slot ∈ d.returns)
    (hsplit : d.returns = before ++ after) :
    ({ d with returns := before ++ slot :: after }.resolveType args).value =
      (d.resolveType args).value := by
  have hreturns : d.returns ≠ [] := List.ne_nil_of_mem hslot
  apply resolveType_returns_congr hreturns hargs (by simp)
  intro s
  rw [hsplit] at hslot ⊢
  simp only [List.mem_append, List.mem_cons] at hslot ⊢
  constructor
  · rintro (h | rfl | h)
    · exact .inl h
    · exact hslot
    · exact .inr h
  · rintro (h | h)
    · exact .inl h
    · exact .inr (.inr h)

theorem resolveType_outOfRange {d : Descriptor} {args : List Argument} {slots : List UInt64}
    (hreturns : d.returns ≠ []) (hargs : args ≠ []) (hslots : slots ≠ [])
    (h : slots.filter (Argument.inRange args) = d.returns.filter (Argument.inRange args)) :
    ({ d with returns := slots }.resolveType args).value = (d.resolveType args).value := by
  apply resolveType_congr hslots hreturns hargs
  intro arg
  rw [← Argument.views_filter_inRange slots, h, Argument.views_filter_inRange]

/-- Without slots or arguments a call has the declared measure. Otherwise it has the greatest of
`nominal` and the selected measures, so that only the set of selected arguments matters: not the
declared measure, not the order of the slots, not repeated slots and not those out of range. -/
theorem resolveType_eq_greatest (d : Descriptor) (args : List Argument) :
    (d.returns = [] ∨ args = [] → (d.resolveType args).value = d.measure) ∧
    (d.returns ≠ [] → args ≠ [] →
      IsGreatest (insert nominal {m | ∃ arg ∈ Argument.views d.returns args, arg.measure = m})
        (d.resolveType args).value ∧
      (∀ measure, ({ d with measure }.resolveType args).value = (d.resolveType args).value) ∧
      (∀ slots, slots.Perm d.returns →
        ({ d with returns := slots }.resolveType args).value = (d.resolveType args).value) ∧
      (∀ slot before after, slot ∈ d.returns → d.returns = before ++ after →
        ({ d with returns := before ++ slot :: after }.resolveType args).value =
          (d.resolveType args).value) ∧
      (∀ slots, slots ≠ [] →
        slots.filter (Argument.inRange args) = d.returns.filter (Argument.inRange args) →
        ({ d with returns := slots }.resolveType args).value = (d.resolveType args).value)) := by
  refine ⟨value_resolveType_of_not_scans, fun hreturns hargs =>
    ⟨isGreatest_resolveType hreturns hargs, ?declared, ?order, ?repeated, ?outOfRange⟩⟩
  case declared =>
    intro measure
    exact resolveType_congr hreturns hreturns hargs fun _ => Iff.rfl
  case order =>
    intro slots hperm
    exact resolveType_perm hreturns hargs hperm
  case repeated =>
    intro slot before after hslot hsplit
    exact resolveType_repeated hargs hslot hsplit
  case outOfRange =>
    intro slots hslots hfilter
    exact resolveType_outOfRange hreturns hargs hslots hfilter

end Descriptor

end MeasureInference
