import MeasureInference.Proofs.Json.Written
import MeasureInference.Proofs.TableDocuments

/-!
The stored forms of the library's values read back, each in every style whose gaps are white space.

A written value is the text of a document, and what that document means is decided apart from any
text. The fields of a descriptor are told apart by their names, so an object may have them in any
order, and one may be missing where its default says the same.
-/

namespace MeasureInference

open Json (Document Spells Style Value escapeGlyphs)
open Json.Reader (Interprets)

/-- A written value is read as what its document means. -/
theorem Stored.parse_render_of_spells {α : Type} [Stored α] {r : Json.Reader α}
    {meaning : Document → Option α} (hreader : (Stored.reader : Json.Reader _) = .ok <$> r)
    (hr : Interprets r meaning) {value : Value} {style : Style} {doc : Document}
    (hspells : Spells doc (value.write style 0)) {a : α} (ha : meaning doc = some a) :
    Stored.parse (value.render style) = .ok a :=
  (Stored.parse_of_interprets hreader hr (.of_spells hspells rfl)).1 a ha

/-! ### Names -/

theorem FunctionId.ofDocument?_written (f : FunctionId) :
    FunctionId.ofDocument? (.text (escapeGlyphs f.name)) = some f := by
  rw [FunctionId.ofDocument?, Document.text?, Json.textOf?_escapeGlyphs]
  rfl

theorem Measure.ofDocument?_written (m : Measure) :
    Measure.ofDocument? (.text (escapeGlyphs m.name)) = some m := by
  rw [Measure.ofDocument?, Document.named?, Json.textOf?_escapeGlyphs]
  cases m <;> rfl

theorem EvalMode.ofDocument?_written (m : EvalMode) :
    EvalMode.ofDocument? (.text (escapeGlyphs m.name)) = some m := by
  rw [EvalMode.ofDocument?, Document.named?, Json.textOf?_escapeGlyphs]
  cases m <;> rfl

namespace Descriptor

/-! ### Positions -/

/-- A return slot as it is stored. -/
def slotValue (slot : UInt64) : Value := .number (.whole slot.toNat)

def slotDocument (slot : UInt64) : Document := .number (.ofInt slot.toNat)

theorem spells_slot (slot : UInt64) (style : Style) (depth : Nat) :
    Spells (slotDocument slot) ((slotValue slot).write style depth) :=
  Json.spells_whole _

theorem slotOf?_written (slot : UInt64) : slotOf? (slotDocument slot) = some slot := by
  have hvalue : (Json.Digits.ofNat slot.toNat).value = slot.toNat := Json.Digits.value_ofNat _
  have hword : (Json.Digits.ofNat slot.toNat).value < UInt64.size := by
    rw [hvalue]
    exact slot.toNat_lt_size
  have hslot : slotOf? (slotDocument slot) =
      some (UInt64.ofNat (Json.Digits.ofNat slot.toNat).value) :=
    if_pos ⟨rfl, rfl, rfl, hword⟩
  rw [hslot, hvalue, UInt64.ofNat_toNat]

theorem slotsOf?_written (slots : List UInt64) :
    Document.arrayOf? slotOf? (.array (slots.map slotDocument)) = some slots :=
  Document.arrayOf?_map fun slot _ => slotOf?_written slot

/-! ### Rows -/

/-- The members of a stored descriptor. -/
def allMembers (d : Descriptor) : List (String × Value) := [
  ("id", d.id.toValue),
  ("measure_type", d.measure.toValue),
  ("returns", .array (d.returns.map slotValue)),
  ("mode", d.mode.toValue)]

/-- The document of the member with a name. -/
def fieldDocument (d : Descriptor) : String → Document
  | "id" => .text (escapeGlyphs d.id.name)
  | "measure_type" => .text (escapeGlyphs d.measure.name)
  | "returns" => .array (d.returns.map slotDocument)
  | _ => .text (escapeGlyphs d.mode.name)

/-- The document of an object whose members have some of the names. -/
def objectDocument (d : Descriptor) (names : List String) : Document :=
  .object (names.map fun name => (escapeGlyphs name, d.fieldDocument name))

theorem spells_fieldDocument {style : Style} (hstyle : style.Loose) (d : Descriptor) (depth : Nat) :
    ∀ m ∈ d.allMembers, Spells (d.fieldDocument m.1) (m.2.write style depth) := by
  have hslots : Spells (.array (d.returns.map slotDocument))
      ((Value.array (d.returns.map slotValue)).write style depth) :=
    Json.spells_array hstyle fun slot _ => spells_slot slot style _
  simpa [allMembers, fieldDocument] using
    ⟨Json.spells_text _, Json.spells_text _, hslots, Json.spells_text _⟩

variable {d : Descriptor}

theorem spells_objectDocument {style : Style} (hstyle : style.Loose)
    {members : List (String × Value)} (hamong : ∀ m ∈ members, m ∈ d.allMembers) (depth : Nat) :
    Spells (d.objectDocument (members.map (·.1))) ((Value.object members).write style depth) := by
  have hmembers : ∀ m ∈ members.map fun m => (m.1, m.2, d.fieldDocument m.1),
      Spells m.2.2 (m.2.1.write style (depth + 1)) :=
    List.forall_mem_map.mpr fun m hm => d.spells_fieldDocument hstyle _ m (hamong m hm)
  simpa [objectDocument, Function.comp_def] using Json.spells_object hstyle hmembers

/-- Where each name has its document and stands once, the values of a name are that one or none. -/
theorem valuesOf_written (docOf : String → Document) {names : List String} (hnodup : names.Nodup)
    (name : String) :
    valuesOf name (names.map fun key => (escapeGlyphs key, docOf key)) =
      if name ∈ names then [docOf name] else [] := by
  induction names with
  | nil => rfl
  | cons key names ih =>
      obtain ⟨hkey, hnodup⟩ := List.nodup_cons.mp hnodup
      rw [List.map_cons]
      by_cases hname : key = name
      · subst hname
        rw [valuesOf_cons_of_eq (Json.textOf?_escapeGlyphs key), ih hnodup, if_neg hkey,
          if_pos List.mem_cons_self]
      · have hmem : name ∈ key :: names ↔ name ∈ names := by simp [Ne.symm hname]
        rw [valuesOf_cons_of_ne (by simpa [Json.textOf?_escapeGlyphs] using hname), ih hnodup]
        simp only [hmem]

/-- The fields are told apart by their names, so each name may be missing that has a default. -/
theorem ofDocument?_objectDocument {names : List String} (hnodup : names.Nodup)
    (hid : "id" ∈ names) (hmeasure : "measure_type" ∉ names → d.measure = .continuous)
    (hreturns : "returns" ∉ names → d.returns = [])
    (hmode : "mode" ∉ names → d.mode = .unspecified) :
    ofDocument? (d.objectDocument names) = some d := by
  have hrequired : requiredField FunctionId.ofDocument?
      (if "id" ∈ names then [d.fieldDocument "id"] else []) = some d.id := by
    rw [if_pos hid]
    exact d.id.ofDocument?_written
  have hoptional {α : Type} {meaning : Document → Option α} {a absent : α} {name : String}
      (hdoc : meaning (d.fieldDocument name) = some a) (habsent : name ∉ names → a = absent) :
      optionalField meaning absent (if name ∈ names then [d.fieldDocument name] else []) =
        some a := by
    split
    · exact hdoc
    · next hmissing => rw [habsent hmissing, optionalField]
  have hkeys : ∀ member ∈ names.map fun name => (escapeGlyphs name, d.fieldDocument name),
      (Json.textOf? member.1).isSome :=
    List.forall_mem_map.mpr fun name _ => by simp [Json.textOf?_escapeGlyphs]
  rw [objectDocument, ofDocument?, if_pos hkeys, ofMembers?, valuesOf_written _ hnodup,
    valuesOf_written _ hnodup, valuesOf_written _ hnodup, valuesOf_written _ hnodup, ofFields?,
    hrequired, hoptional d.measure.ofDocument?_written hmeasure,
    hoptional (slotsOf?_written d.returns) hreturns, hoptional d.mode.ofDocument?_written hmode]
  rfl

/-- The document of a written descriptor. -/
def document (d : Descriptor) : Document :=
  .object [
    (escapeGlyphs "id", .text (escapeGlyphs d.id.name)),
    (escapeGlyphs "measure_type", .text (escapeGlyphs d.measure.name)),
    (escapeGlyphs "returns", .array (d.returns.map slotDocument)),
    (escapeGlyphs "mode", .text (escapeGlyphs d.mode.name))]

theorem spells_document {style : Style} (hstyle : style.Loose) (d : Descriptor) (depth : Nat) :
    Spells d.document (d.toValue.write style depth) := by
  have hamong : ∀ m ∈ d.allMembers, m ∈ d.allMembers := fun _ hm => hm
  exact spells_objectDocument hstyle hamong depth

theorem ofDocument?_document (d : Descriptor) : ofDocument? d.document = some d := by
  have hnames : ["id", "measure_type", "returns", "mode"].Nodup := by decide
  exact ofDocument?_objectDocument hnames (by decide) (absurd (by decide)) (absurd (by decide))
    (absurd (by decide))

end Descriptor

/-- A written table of descriptors is read back row by row. -/
theorem Stored.parse_render_table {style : Style} (hstyle : style.Loose)
    (rows : List Descriptor) :
    Stored.parse ((Stored.toValue rows).render style) = .ok rows := by
  have hspells : Spells (.array (rows.map Descriptor.document))
      ((Value.array (rows.map Descriptor.toValue)).write style 0) :=
    Json.spells_array hstyle fun row _ => row.spells_document hstyle 1
  have hrows : Descriptor.tableOf? (.array (rows.map Descriptor.document)) = some rows :=
    Document.arrayOf?_map fun row _ => row.ofDocument?_document
  exact Stored.parse_render_of_spells rfl Descriptor.interprets_table hspells hrows

end MeasureInference
