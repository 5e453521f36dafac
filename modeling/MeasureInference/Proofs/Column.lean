import MeasureInference.Column
import MeasureInference.Proofs.LevelResolution

/-!
Columns as arguments of calls.

Of a column inference sees the measure and the labels of its levels: that there are levels at all
can be told from the labels, and the codes of levels are never looked at. So a column that takes its
levels from labels offers just these labels, whatever becomes of their codes.
-/

namespace MeasureInference

theorem Level.getElem?_ofLabels (labels : List String) (k : Nat) :
    (ofLabels labels)[k]? = labels[k]?.map fun label => ⟨Int32.ofNat k, label⟩ :=
  List.getElem?_mapIdx

@[simp] theorem Level.map_label_ofLabels (labels : List String) :
    (ofLabels labels).map label = labels := by
  apply List.ext_getElem?
  intro k
  rw [List.getElem?_map, getElem?_ofLabels, Option.map_map]
  exact Option.map_id'

namespace Column

/-- The labels of a column's levels. -/
def labels (c : Column) : List String := c.levels.map Level.label

@[simp] theorem measure_argument (c : Column) : c.argument.measure = c.measure := rfl

@[simp] theorem measure_withLabels (c : Column) (labels : List String) :
    (c.withLabels labels).measure = c.measure := rfl

@[simp] theorem labels_withLabels (c : Column) (labels : List String) :
    (c.withLabels labels).labels = labels :=
  Level.map_label_ofLabels labels

/-- Columns offer their labels, those without levels none. -/
theorem levelLabels_map_argument (columns : List Column) :
    Argument.levelLabels (columns.map argument) = columns.flatMap labels := by
  induction columns with
  | nil => rfl
  | cons c columns ih =>
      rw [List.map_cons, Argument.levelLabels_cons, ih, List.flatMap_cons]
      by_cases hlevels : c.levels = [] <;> simp [argument, hasLevels, labels, hlevels]

end Column

end MeasureInference
