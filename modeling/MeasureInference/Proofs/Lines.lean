import MeasureInference.Proofs.StoredForms

/-!
Lines of a journal, and what they still tell of the events behind them.

A line holds texts only. The name of a function stands there as it is; the names of measures and
modes are read back as free spellings; and a list of slots is shown as the array that it also is in
a table, so the table's reader takes it back. Nothing of a setup event is lost on the way.
-/

namespace MeasureInference

/-- An event as a journal shows it. -/
structure Line where
  severity : Severity
  message : String
  fields : List (String × String)
  deriving DecidableEq, Repr

/-- The slots that a text shows. -/
def slotsOfText? (text : String) : Option (List UInt64) :=
  (Json.Reader.document (.ok <$> Json.Reader.arrayOf Descriptor.slotReader) text).toOption

namespace Event

def line (e : Event) : Line := ⟨e.severity, e.message, e.fields⟩

/-- The setup that a line tells of. -/
def ofLine? (l : Line) : Option Event :=
  match l.message, l.fields with
  | "registered function", [("function", f)] => some (.registered ⟨f⟩)
  | "configured function", [("function", f), ("measure_type", m), ("returns", slots)] => do
    return .configured ⟨f⟩ (← Measure.ofText? m) (← slotsOfText? slots)
  | "set evaluation mode", [("function", f), ("mode", m)] => do
    return .modeSet ⟨f⟩ (← EvalMode.ofText? m)
  | _, _ => none

/-- The function that an event registers. -/
def registers? : Event → Option FunctionId
  | registered f => some f
  | _ => none

/-- The function that an event edits. -/
def edits? : Event → Option FunctionId
  | configured f _ _ => some f
  | modeSet f _ => some f
  | _ => none

/-- Whether an event tells of setup. -/
def isSetup (e : Event) : Bool := e.registers?.isSome || e.edits?.isSome

end Event

theorem intercalate_cons {α : Type} (gap first : List α) (more : List (List α)) :
    gap.intercalate (first :: more) = first ++ more.flatMap fun part => gap ++ part := by
  induction more generalizing first with
  | nil => simp [List.intercalate]
  | cons second more ih => simp [List.intercalate_cons_cons, ih]

theorem toList_slotsText (slots : List UInt64) :
    (slotsText slots).toList =
      '[' :: ([',', ' '].intercalate (slots.map fun slot => (toString slot.toNat).toList) ++
        [']']) := by
  rw [slotsText, String.toList_append, String.toList_append, String.toList_intercalate,
    List.map_map]
  rfl

theorem spells_shownSlot (slot : UInt64) :
    Json.Spells (Descriptor.slotDocument slot) (toString slot.toNat).toList :=
  Descriptor.spells_slot slot .compact 0

theorem spellsItems_shownSlots (slots : List UInt64) :
    Json.SpellsItems false (slots.map Descriptor.slotDocument)
      ((slots.flatMap fun slot => [',', ' '] ++ (toString slot.toNat).toList) ++ [']']) := by
  induction slots with
  | nil => exact .close Json.blank_nil
  | cons slot slots ih =>
      have hgap : Json.Blank [' '] := by decide
      have hitem := Json.SpellsItems.further Json.blank_nil hgap (spells_shownSlot slot) ih
      rw [List.map_cons]
      simpa using hitem

theorem spells_slotsText (slots : List UInt64) :
    Json.Spells (.array (slots.map Descriptor.slotDocument)) (slotsText slots).toList := by
  rw [toList_slotsText]
  cases slots with
  | nil => exact .array (.close Json.blank_nil)
  | cons slot slots =>
      rw [List.map_cons, List.map_cons, intercalate_cons, List.flatMap_map, List.append_assoc]
      have hitems := Json.SpellsItems.first Json.blank_nil (spells_shownSlot slot)
        (spellsItems_shownSlots slots)
      exact Json.Spells.array hitems

/-- A list of slots is shown as an array of numbers, with a space behind each comma. -/
theorem slotsOfText?_slotsText (slots : List UInt64) :
    slotsOfText? (slotsText slots) = some slots := by
  have hwrites :
      Json.Reader.Writes (slotsText slots) (.array (slots.map Descriptor.slotDocument)) :=
    .of_spells (spells_slotsText slots) String.ofList_toList.symm
  have hreader := Json.Reader.interprets_arrayOf Descriptor.interprets_slotReader
  rw [slotsOfText?, (hreader.document hwrites).1 slots (Descriptor.slotsOf?_written slots)]
  rfl

theorem Measure.ofText?_name (m : Measure) : Measure.ofText? m.name = some m := by
  cases m <;> rfl

theorem EvalMode.ofText?_name (m : EvalMode) : EvalMode.ofText? m.name = some m := by
  cases m <;> rfl

/-- The texts of a line lose nothing of a setup event, and no other event is taken for one. -/
theorem Event.ofLine?_line (e : Event) : ofLine? e.line = if e.isSetup then some e else none := by
  cases e with
  | registered f => rfl
  | configured f measure returns =>
      simp [ofLine?, line, message, fields, Measure.ofText?_name, slotsOfText?_slotsText, isSetup,
        edits?]
  | modeSet f mode =>
      simp [ofLine?, line, message, fields, EvalMode.ofText?_name, isSetup, edits?]
  | tableLoaded | columnsResolving | measureResolved | usageTallied => rfl

end MeasureInference
