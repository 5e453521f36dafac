import MeasureInference.Proofs.Json.Written
import MeasureInference.Proofs.TableDocuments
import MeasureInference.Registry.Table

/-!
Which texts get past reading as a function table.

Reading a table may fail, and rows that have been read may declare a function twice; only the first
of these is a malformed text. So whether a text is malformed is decided by its document alone.
-/

namespace MeasureInference

open Json (Blank Document Glyph Spells SpellsMember blank_nil escapeGlyphs)
open Json.Reader (Writes)

namespace Registry

theorem addRow_ne_malformed (r : Registry) (row : Descriptor) (why : Json.Malformation) :
    addRow r row ≠ .error (.malformed why) := by
  rw [addRow]
  split <;> nofun

/-- The only fault of rows that have been read is a function that is declared twice. -/
theorem ofRows_ne_malformed (rows : List Descriptor) (why : Json.Malformation) :
    ofRows rows ≠ .error (.malformed why) := by
  have hfold (r : Registry) : rows.foldlM addRow r ≠ .error (.malformed why) := by
    induction rows generalizing r with
    | nil => nofun
    | cons row rows ih =>
        rw [List.foldlM_cons]
        cases hrow : addRow r row with
        | ok r' => exact ih r'
        | error fault =>
            intro heq
            cases heq
            exact addRow_ne_malformed r row why hrow
  exact hfold empty

/-- A text of a document gets past reading if and only if the document is a table, and then the rows
that are read are those of the table. -/
theorem ofTable_of_writes {text : String} {doc : Document} (h : Writes text doc) :
    ((∀ why, ofTable text ≠ .error (.malformed why)) ↔ (Descriptor.tableOf? doc).isSome) ∧
      ∀ rows, Descriptor.tableOf? doc = some rows →
        Stored.parse text = .ok rows ∧ ofTable text = ofRows rows := by
  obtain ⟨hread, hrefuse⟩ := Stored.parse_of_writes h
  have hrows (rows : List Descriptor) (hrows : Descriptor.tableOf? doc = some rows) :
      Stored.parse text = .ok rows ∧ ofTable text = ofRows rows := by
    refine ⟨hread rows hrows, ?_⟩
    rw [ofTable, hread rows hrows]
    rfl
  refine ⟨⟨fun hne => ?_, fun hsome why => ?_⟩, hrows⟩
  · cases hdoc : Descriptor.tableOf? doc with
    | some rows => rfl
    | none =>
        obtain ⟨why, hwhy⟩ := hrefuse hdoc
        refine absurd ?_ (hne why)
        rw [ofTable, hwhy]
        rfl
  · obtain ⟨rows, hdoc⟩ := Option.isSome_iff_exists.mp hsome
    rw [(hrows rows hdoc).2]
    exact ofRows_ne_malformed rows why

/-- A row in each notation. The first one has its fields in another order, an escaped letter in a
key, a measure that is written as an object, and a member that no row knows. -/
def mixedTable : Document :=
  .array [
    .object [
      (escapeGlyphs "note", .array [.object [], .flag true]),
      (.unit .zero .zero ⟨'6', 6, rfl⟩ ⟨'9', 9, rfl⟩ :: escapeGlyphs "d",
        .text (escapeGlyphs "F")),
      (escapeGlyphs "measure_type", .object [(escapeGlyphs "ordinal", .null)])],
    .array [
      .text (escapeGlyphs "G"), .text (escapeGlyphs "nominal"),
      .array [.number (.ofInt 7)]]]

def mixedTableText : String :=
  "[ \x7b\"note\":[\x7b\x7d,true], \"\\u0069d\":\"F\"," ++
    "\"measure_type\":\x7b\"ordinal\":null\x7d\x7d ,[\"G\",\"nominal\",[7]]]\n"

theorem writes_mixedTable : Writes mixedTableText mixedTable := by
  have hspace : Blank [' '] := by decide
  have hnote : SpellsMember (escapeGlyphs "note", .array [.object [], .flag true]) _ :=
    .mk _ blank_nil blank_nil (.array (.first blank_nil (.object (.close blank_nil))
      (.further blank_nil blank_nil .trueFlag (.close blank_nil))))
  have hid := SpellsMember.mk
    (.unit .zero .zero ⟨'6', 6, rfl⟩ ⟨'9', 9, rfl⟩ :: escapeGlyphs "d")
    blank_nil blank_nil (.text (escapeGlyphs "F"))
  have hmeasure : SpellsMember
      (escapeGlyphs "measure_type", .object [(escapeGlyphs "ordinal", .null)]) _ :=
    .mk _ blank_nil blank_nil (.object (.first blank_nil (.mk _ blank_nil blank_nil .null)
      (.close blank_nil)))
  have hobject := Spells.object (.first blank_nil hnote (.further blank_nil hspace hid
    (.further blank_nil blank_nil hmeasure (.close blank_nil))))
  have harray := Spells.array (.first blank_nil (.text (escapeGlyphs "G"))
    (.further blank_nil blank_nil (.text (escapeGlyphs "nominal"))
      (.further blank_nil blank_nil
        (.array (.first blank_nil (.number (.ofInt 7)) (.close blank_nil))) (.close blank_nil))))
  exact ⟨[], _, ['\n'], rfl, blank_nil,
    .array (.first hspace hobject (.further hspace blank_nil harray (.close blank_nil))), by decide⟩

theorem ofTable_mixedTable :
    Writes mixedTableText mixedTable ∧
      (∀ why, ofTable mixedTableText ≠ .error (.malformed why)) ∧
      Stored.parse mixedTableText =
        .ok [(⟨⟨"F"⟩, .ordinal, [], .unspecified⟩ : Descriptor),
          ⟨⟨"G"⟩, .nominal, [7], .unspecified⟩] :=
  ⟨writes_mixedTable, (ofTable_of_writes writes_mixedTable).1.mpr rfl,
    ((ofTable_of_writes writes_mixedTable).2 _ rfl).1⟩

/-- A row with a member whose key is half of a pair of surrogates. -/
def halfKeyRow : List (List Glyph × Document) :=
  [(escapeGlyphs "id", .text (escapeGlyphs "F")),
    ([.unit ⟨'d', 13, rfl⟩ ⟨'8', 8, rfl⟩ .zero .zero], .null)]

theorem writes_halfKeyRow :
    Writes "[\x7b\"id\":\"F\",\"\\ud800\":null\x7d]" (.array [.object halfKeyRow]) := by
  have hid := SpellsMember.mk (escapeGlyphs "id") blank_nil blank_nil
    (.text (escapeGlyphs "F"))
  have hhalf := SpellsMember.mk [.unit ⟨'d', 13, rfl⟩ ⟨'8', 8, rfl⟩ .zero .zero]
    blank_nil blank_nil .null
  have hrow : Spells (.object halfKeyRow) _ :=
    .object (.first blank_nil hid (.further blank_nil blank_nil hhalf
      (.close blank_nil)))
  exact .of_spells (.array (.first blank_nil hrow (.close blank_nil))) rfl

/-- A key that denotes no text keeps a row from being read, although no field has this key. -/
theorem ofTable_halfKeyRow :
    Writes "[\x7b\"id\":\"F\",\"\\ud800\":null\x7d]" (.array [.object halfKeyRow]) ∧
      Descriptor.ofMembers? halfKeyRow = some ⟨⟨"F"⟩, .continuous, [], .unspecified⟩ ∧
      ∃ why, ofTable "[\x7b\"id\":\"F\",\"\\ud800\":null\x7d]" = .error (.malformed why) := by
  refine ⟨writes_halfKeyRow, ?_, ?_⟩
  · rfl
  · have hnone : Descriptor.tableOf? (.array [.object halfKeyRow]) = none := rfl
    obtain ⟨why, hwhy⟩ := (Stored.parse_of_writes writes_halfKeyRow).2 hnone
    exact ⟨why, by rw [ofTable, hwhy]; rfl⟩

end Registry

end MeasureInference
