import MeasureInference.Proofs.Json.Record
import MeasureInference.Stored

/-!
Which documents are function tables, and what their rows say.

The form of a table is stated on documents and owes nothing to the order of reading: a field of an
object is the list of all values whose key denotes its name, wherever they stand and however the key
is written, and the field has to occur once or may be left out. Reading fills a draft member by
member, so the two are compared field by field: what reading does to one field of the draft depends
only on the values of that field.
-/

namespace MeasureInference

open Json (Document Glyph textOf? Record)
open Json.Reader (Interprets Writes)

/-! ### The form of a table -/

def FunctionId.ofDocument? (doc : Document) : Option FunctionId := doc.text?.map FunctionId.mk

def Measure.ofDocument? : Document → Option Measure :=
  Document.named? [("continuous", .continuous), ("ordinal", .ordinal), ("nominal", .nominal),
    ("nominal_text", .nominalText)]

def EvalMode.ofDocument? : Document → Option EvalMode :=
  Document.named? [("unspecified", .unspecified), ("row_wise", .rowWise),
    ("column_wise", .columnWise)]

/-- A field that has to be there once. -/
def requiredField {α : Type} (meaning : Document → Option α) : List Document → Option α
  | [value] => meaning value
  | _ => none

/-- A field that may be left out and has a default then. -/
def optionalField {α : Type} (meaning : Document → Option α) (absent : α) :
    List Document → Option α
  | [] => some absent
  | [value] => meaning value
  | _ => none

/-- The values of the members whose key denotes a name. -/
def valuesOf (name : String) (members : List (List Glyph × Document)) : List Document :=
  (members.filter fun member => textOf? member.1 = some name).map (·.2)

namespace Descriptor

/-- A position is a number without sign, point and exponent that fits a word. -/
def slotOf? : Document → Option UInt64
  | .number n =>
    if n.negative = false ∧ n.fraction?.isNone ∧ n.exponent?.isNone ∧
        n.whole.value < UInt64.size then
      some (UInt64.ofNat n.whole.value)
    else none
  | _ => none

/-- A row from the documents that stand for its fields. -/
def ofFields? (ids measures slots modes : List Document) : Option Descriptor := do
  let id ← requiredField FunctionId.ofDocument? ids
  let measure ← optionalField Measure.ofDocument? .continuous measures
  let returns ← optionalField (Document.arrayOf? slotOf?) [] slots
  let mode ← optionalField EvalMode.ofDocument? .unspecified modes
  return ⟨id, measure, returns, mode⟩

/-- The row of the members of an object. -/
def ofMembers? (members : List (List Glyph × Document)) : Option Descriptor :=
  ofFields? (valuesOf "id" members) (valuesOf "measure_type" members) (valuesOf "returns" members)
    (valuesOf "mode" members)

/-- The row of the items of an array. -/
def ofItems? (items : List Document) : Option Descriptor :=
  ofFields? items[0]?.toList items[1]?.toList items[2]?.toList items[3]?.toList

/-- A row is an object whose keys denote texts, or an array of no more items than fields. -/
def ofDocument? : Document → Option Descriptor
  | .object members =>
    if ∀ member ∈ members, (textOf? member.1).isSome then ofMembers? members else none
  | .array items => if items.length ≤ 4 then ofItems? items else none
  | _ => none

/-- A table is an array of rows. -/
def tableOf? : Document → Option (List Descriptor) := Document.arrayOf? ofDocument?

/-! ### Reading the fields -/

/-- Of the numbers that are read as whole ones, the range of positions keeps those without sign. -/
theorem slotOf?_number (n : Json.Numeral) :
    ((n.whole?.filter fun k => slotRange.least ≤ k ∧ k ≤ slotRange.greatest).map
        fun k => UInt64.ofNat k.toNat) =
      slotOf? (.number n) := by
  rw [Json.Numeral.whole?, slotOf?]
  cases n.fraction? with
  | some d => simp
  | none =>
      cases n.exponent? with
      | some e => simp
      | none =>
          cases n.negative with
          | false =>
              by_cases hword : n.whole.value < UInt64.size
              · have hrange : slotRange.least ≤ (n.whole.value : Int) ∧
                    (n.whole.value : Int) ≤ slotRange.greatest :=
                  ⟨Int.natCast_nonneg _, Int.le_sub_one_of_lt (Int.ofNat_lt.mpr hword)⟩
                have hslot : ((some (n.whole.value : Int)).filter fun k =>
                      slotRange.least ≤ k ∧ k ≤ slotRange.greatest).map
                        (fun k => UInt64.ofNat k.toNat) = some (UInt64.ofNat n.whole.value) := by
                  rw [Option.filter_some, decide_eq_true hrange, if_pos rfl, Option.map_some,
                    Int.toNat_natCast]
                simpa only [Option.isSome_none, Option.isNone_none, Bool.or_self, hword,
                  Bool.false_eq_true, if_false, if_true, and_self] using hslot
              · simp [hword]
          | true =>
              by_cases hword : 1 ≤ n.whole.value ∧ n.whole.value ≤ Nat.pow 2 63
              · have hrange : ¬ (slotRange.least ≤ -(n.whole.value : Int)) := by
                  show ¬ (0 ≤ -(n.whole.value : Int))
                  omega
                simp [hword, hrange]
              · simp [hword]

theorem interprets_slotReader : Interprets slotReader slotOf? := by
  refine ((Json.Reader.interprets_whole slotRange).bind_pure _).congr fun doc => ?_
  cases doc with
  | number n => exact slotOf?_number n
  | _ => rfl

/-- The parts of a descriptor, each of which has a field of its own. -/
inductive Part where
  | id
  | measure
  | returns
  | mode
  deriving DecidableEq

namespace Part

/-- All parts, in the order of their fields. -/
def all : List Part := [id, measure, returns, mode]

def name : Part → String
  | id => "id"
  | measure => "measure_type"
  | returns => "returns"
  | mode => "mode"

/-- What a part is given as. -/
abbrev Holds : Part → Type
  | id => FunctionId
  | measure => Measure
  | returns => List UInt64
  | mode => EvalMode

def get (draft : Draft) : (p : Part) → Option p.Holds
  | id => draft.id?
  | measure => draft.measure?
  | returns => draft.returns?
  | mode => draft.mode?

def set (draft : Draft) : (p : Part) → p.Holds → Draft
  | id, a => { draft with id? := some a }
  | measure, a => { draft with measure? := some a }
  | returns, a => { draft with returns? := some a }
  | mode, a => { draft with mode? := some a }

def reader : (p : Part) → Json.Reader p.Holds
  | id => FunctionId.reader
  | measure => Measure.reader
  | returns => Json.Reader.arrayOf slotReader
  | mode => EvalMode.reader

def meaning : (p : Part) → Document → Option p.Holds
  | id => FunctionId.ofDocument?
  | measure => Measure.ofDocument?
  | returns => Document.arrayOf? slotOf?
  | mode => EvalMode.ofDocument?

def field (p : Part) : Json.Field Draft where
  name := p.name
  given := fun draft => (get draft p).isSome
  read := fun draft => do
    let a ← p.reader
    return set draft p a

@[simp] theorem get_set_self (draft : Draft) (p : Part) (a : p.Holds) :
    get (set draft p a) p = some a := by
  cases p <;> rfl

theorem get_set_of_ne {p q : Part} (h : q ≠ p) (draft : Draft) (a : p.Holds) :
    get (set draft p a) q = get draft q := by
  cases p <;> cases q <;> first | rfl | exact absurd rfl h

theorem name_injective : Function.Injective name := by
  intro p q h
  cases p <;> cases q <;> first | rfl | exact absurd h (by decide)

theorem ext_get {draft draft' : Draft} (h : ∀ p, get draft p = get draft' p) : draft = draft' := by
  obtain ⟨_, _, _, _⟩ := draft
  obtain ⟨_, _, _, _⟩ := draft'
  exact (Draft.mk.injEq ..).mpr ⟨h id, h measure, h returns, h mode⟩

theorem interprets_reader (p : Part) : Interprets p.reader p.meaning := by
  cases p with
  | id => exact Json.Reader.interprets_text.map FunctionId.mk
  | measure => exact Json.Reader.interprets_named _
  | returns => exact Json.Reader.interprets_arrayOf interprets_slotReader
  | mode => exact Json.Reader.interprets_named _

end Part

theorem fields_eq : record.fields = Part.all.map Part.field := rfl

/-- What a field of a descriptor makes of a document. -/
def put (field : Json.Field Draft) (draft : Draft) (doc : Document) : Option Draft :=
  (Part.all.find? fun p => p.name = field.name).bind fun p =>
    (p.meaning doc).map (Part.set draft p)

theorem put_field (p : Part) (draft : Draft) (doc : Document) :
    put p.field draft doc = (p.meaning doc).map (Part.set draft p) := by
  cases p <;> rfl

theorem interprets_fields :
    ∀ field ∈ record.fields, ∀ draft, Interprets (field.read draft) (put field draft) := by
  rw [fields_eq, List.forall_mem_map]
  intro p _ draft
  exact (p.interprets_reader.bind_pure _).congr fun doc => (put_field p draft doc).symm

/-! ### Filling a draft -/

/-- What the values of a field make of it in a draft: it stays as it is, or it is given once. -/
def FieldFilled {α : Type} (meaning : Document → Option α) (before : Option α) :
    List Document → Option α → Prop
  | [], after => after = before
  | [value], after => before = none ∧ ∃ a, meaning value = some a ∧ after = some a
  | _, _ => False

theorem fieldFilled_cons {α : Type} {meaning : Document → Option α} {before after : Option α}
    {value : Document} {values : List Document} :
    FieldFilled meaning before (value :: values) after ↔
      before = none ∧ ∃ a, meaning value = some a ∧ FieldFilled meaning (some a) values after := by
  cases values with
  | nil => rfl
  | cons value' values =>
      refine iff_of_false not_false ?_
      rintro ⟨-, a, -, hfilled⟩
      cases values with
      | nil => cases hfilled.1
      | cons => exact hfilled

theorem requiredField_eq_some {α : Type} {meaning : Document → Option α} {values : List Document}
    {a : α} :
    requiredField meaning values = some a ↔ FieldFilled meaning none values (some a) := by
  match values with
  | [] => simp [requiredField, FieldFilled]
  | [value] => simp [requiredField, FieldFilled]
  | _ :: _ :: _ => simp [requiredField, FieldFilled]

theorem optionalField_eq_some {α : Type} {meaning : Document → Option α} {absent : α}
    {values : List Document} {a : α} :
    optionalField meaning absent values = some a ↔
      ∃ after, FieldFilled meaning none values after ∧ after.getD absent = a := by
  match values with
  | [] => simp [optionalField, FieldFilled]
  | [value] =>
      constructor
      · intro h
        exact ⟨some a, ⟨rfl, a, h, rfl⟩, rfl⟩
      · rintro ⟨after, ⟨-, b, hb, rfl⟩, rfl⟩
        exact hb
  | _ :: _ :: _ => simp [optionalField, FieldFilled]

/-- What the values of all fields make of a draft. -/
def Filled (draft final : Draft) (values : Part → List Document) : Prop :=
  ∀ p : Part, FieldFilled p.meaning (Part.get draft p) (values p) (Part.get final p)

theorem finish_eq_ok {final : Draft} {d : Descriptor} :
    record.finish final = .ok d ↔
      final.id? = some d.id ∧ final.measure?.getD .continuous = d.measure ∧
        final.returns?.getD [] = d.returns ∧ final.mode?.getD .unspecified = d.mode := by
  obtain ⟨id, measure, returns, mode⟩ := d
  cases hid : final.id? with
  | none => simp [record, hid]
  | some id' =>
      simp only [record, hid, Except.ok.injEq, Descriptor.mk.injEq, Option.some.injEq]
      rfl

/-- The fields of a row make a descriptor out of the blank draft. -/
theorem ofFields?_eq_some {values : Part → List Document} {d : Descriptor} :
    ofFields? (values .id) (values .measure) (values .returns) (values .mode) = some d ↔
      ∃ final, Filled record.blank final values ∧ record.finish final = .ok d := by
  have hfields :
      ofFields? (values .id) (values .measure) (values .returns) (values .mode) = some d ↔
        requiredField FunctionId.ofDocument? (values .id) = some d.id ∧
        optionalField Measure.ofDocument? .continuous (values .measure) = some d.measure ∧
        optionalField (Document.arrayOf? slotOf?) [] (values .returns) = some d.returns ∧
        optionalField EvalMode.ofDocument? .unspecified (values .mode) = some d.mode := by
    obtain ⟨id, measure, returns, mode⟩ := d
    simp only [ofFields?, Option.bind_eq_bind, Option.bind_eq_some_iff, Option.pure_def,
      Option.some.injEq, Descriptor.mk.injEq]
    constructor
    · rintro ⟨_, hid, _, hmeasure, _, hreturns, _, hmode, rfl, rfl, rfl, rfl⟩
      exact ⟨hid, hmeasure, hreturns, hmode⟩
    · rintro ⟨hid, hmeasure, hreturns, hmode⟩
      exact ⟨id, hid, measure, hmeasure, returns, hreturns, mode, hmode, rfl, rfl, rfl, rfl⟩
  rw [hfields, requiredField_eq_some, optionalField_eq_some, optionalField_eq_some,
    optionalField_eq_some]
  constructor
  · rintro ⟨hid, ⟨measure?, hmeasure, hmeasure'⟩, ⟨returns?, hreturns, hreturns'⟩, mode?, hmode,
      hmode'⟩
    refine ⟨⟨some d.id, measure?, returns?, mode?⟩, fun p => ?_,
      finish_eq_ok.mpr ⟨rfl, hmeasure', hreturns', hmode'⟩⟩
    cases p with
    | id => exact hid
    | measure => exact hmeasure
    | returns => exact hreturns
    | mode => exact hmode
  · rintro ⟨final, hfilled, hfinish⟩
    obtain ⟨hid', hmeasure', hreturns', hmode'⟩ := finish_eq_ok.mp hfinish
    exact ⟨hid' ▸ hfilled .id, ⟨final.measure?, hfilled .measure, hmeasure'⟩,
      ⟨final.returns?, hfilled .returns, hreturns'⟩, final.mode?, hfilled .mode, hmode'⟩

theorem filled_nil {draft final : Draft} {values : Part → List Document}
    (h : ∀ p, values p = []) : Filled draft final values ↔ draft = final := by
  simp only [Filled, h, FieldFilled]
  constructor
  · exact fun hsame => (Part.ext_get hsame).symm
  · rintro rfl p
    rfl

/-- One more value of a field is a value of a draft that has none for it, and gives it one. -/
theorem filled_cons {draft final : Draft} {p : Part} {value : Document}
    {values rest : Part → List Document} (hvalue : values p = value :: rest p)
    (hothers : ∀ q ≠ p, values q = rest q) :
    Filled draft final values ↔
      Part.get draft p = none ∧ ∃ a, p.meaning value = some a ∧
        Filled (Part.set draft p a) final rest := by
  constructor
  · intro h
    have hp := h p
    rw [hvalue, fieldFilled_cons] at hp
    obtain ⟨hnew, a, ha, hfilled⟩ := hp
    refine ⟨hnew, a, ha, fun q => ?_⟩
    by_cases hq : q = p
    · subst hq
      rwa [Part.get_set_self]
    · rw [Part.get_set_of_ne hq, ← hothers q hq]
      exact h q
  · rintro ⟨hnew, a, ha, h⟩ q
    by_cases hq : q = p
    · subst hq
      have hfilled := h q
      rw [Part.get_set_self] at hfilled
      rw [hvalue, fieldFilled_cons]
      exact ⟨hnew, a, ha, hfilled⟩
    · have hfilled := h q
      rwa [Part.get_set_of_ne hq, ← hothers q hq] at hfilled

/-! ### Members -/

theorem valuesOf_cons_of_eq {name : String} {key : List Glyph} (h : textOf? key = some name)
    (value : Document) (members : List (List Glyph × Document)) :
    valuesOf name ((key, value) :: members) = value :: valuesOf name members := by
  rw [valuesOf, List.filter_cons, if_pos (decide_eq_true h), List.map_cons]
  rfl

theorem valuesOf_cons_of_ne {name : String} {key : List Glyph} (h : textOf? key ≠ some name)
    (value : Document) (members : List (List Glyph × Document)) :
    valuesOf name ((key, value) :: members) = valuesOf name members := by
  rw [valuesOf, List.filter_cons, if_neg (by simpa using h)]
  rfl

theorem find?_fields (p : Part) : record.fields.find? (·.name = p.name) = some p.field := by
  cases p <;> rfl

/-- A member of a known field gives the field if it is not given yet. -/
theorem fillMembers_cons_of_field {draft final : Draft} {key : List Glyph} {value : Document}
    {members : List (List Glyph × Document)} {p : Part} (hkey : textOf? key = some p.name) :
    Record.fillMembers put record draft ((key, value) :: members) = some final ↔
      Part.get draft p = none ∧ ∃ a, p.meaning value = some a ∧
        Record.fillMembers put record (Part.set draft p a) members = some final := by
  rw [Record.fillMembers, Record.fillMember, hkey, Option.bind_some, find?_fields]
  dsimp only
  rw [put_field]
  show (if (Part.get draft p).isSome then none else _).bind _ = _ ↔ _
  cases Part.get draft p with
  | none => cases p.meaning value <;> simp
  | some b => simp

/-- A member of another name leaves the draft as it is. -/
theorem fillMembers_cons_of_unknown {draft : Draft} {key : List Glyph} {value : Document}
    {members : List (List Glyph × Document)} {name : String} (hkey : textOf? key = some name)
    (hname : ∀ p : Part, p.name ≠ name) :
    Record.fillMembers put record draft ((key, value) :: members) =
      Record.fillMembers put record draft members := by
  have hfield : record.fields.find? (·.name = name) = none := by
    rw [fields_eq, List.find?_map, Option.map_eq_none_iff, List.find?_eq_none]
    intro p _
    exact mt of_decide_eq_true (hname p)
  rw [Record.fillMembers, Record.fillMember, hkey, Option.bind_some, hfield]
  rfl

/-- Filling member by member is filling field by field. -/
theorem fillMembers_eq_some {draft final : Draft} {members : List (List Glyph × Document)} :
    Record.fillMembers put record draft members = some final ↔
      Filled draft final (fun p => valuesOf p.name members) ∧
        ∀ member ∈ members, (textOf? member.1).isSome := by
  induction members generalizing draft with
  | nil =>
      have hnone : Filled draft final (fun p => valuesOf p.name []) ↔ draft = final :=
        filled_nil fun _ => rfl
      rw [Record.fillMembers, Option.some.injEq, hnone]
      exact (and_iff_left (List.forall_mem_nil _)).symm
  | cons member members ih =>
      obtain ⟨key, value⟩ := member
      rw [List.forall_mem_cons]
      cases hkey : textOf? key with
      | none => simp [Record.fillMembers, Record.fillMember, hkey]
      | some name =>
          have hother {p : Part} (hne : p.name ≠ name) :
              valuesOf p.name ((key, value) :: members) = valuesOf p.name members := by
            apply valuesOf_cons_of_ne
            rw [hkey]
            exact fun heq => hne (Option.some.inj heq).symm
          by_cases hpart : ∃ p : Part, p.name = name
          · obtain ⟨p, rfl⟩ := hpart
            rw [fillMembers_cons_of_field hkey, filled_cons (valuesOf_cons_of_eq hkey value members)
              fun q hq => hother (Part.name_injective.ne hq)]
            simp only [ih, Option.isSome_some, true_and, ← and_assoc, exists_and_right]
          · have hname (p : Part) : p.name ≠ name := not_exists.mp hpart p
            simp only [fillMembers_cons_of_unknown hkey hname, ih, hother (hname _),
              Option.isSome_some, true_and]

/-! ### Items -/

/-- The item that comes to stand for a part, if the fields of some parts are read one by one. -/
def itemOf (p : Part) : List Part → List Document → List Document
  | q :: parts, item :: items => if p = q then [item] else itemOf p parts items
  | _, _ => []

theorem itemOf_eq_nil {p : Part} {parts : List Part} (h : p ∉ parts) (items : List Document) :
    itemOf p parts items = [] := by
  induction parts generalizing items with
  | nil => rfl
  | cons q parts ih =>
      cases items with
      | nil => rfl
      | cons item items =>
          rw [List.mem_cons, not_or] at h
          rw [itemOf, if_neg h.1, ih h.2]

theorem itemOf_all (p : Part) (items : List Document) :
    itemOf p Part.all items =
      match p with
      | .id => items[0]?.toList
      | .measure => items[1]?.toList
      | .returns => items[2]?.toList
      | .mode => items[3]?.toList := by
  match items with
  | [] => cases p <;> rfl
  | [_] => cases p <;> rfl
  | [_, _] => cases p <;> rfl
  | [_, _, _] => cases p <;> rfl
  | _ :: _ :: _ :: _ :: _ => cases p <;> rfl

/-- Filling item by item gives each field at most one value. -/
theorem fillItems_eq_some {draft final : Draft} {parts : List Part} (hparts : parts.Nodup)
    (hblank : ∀ p ∈ parts, Part.get draft p = none) {items : List Document} :
    Record.fillItems put (parts.map Part.field) draft items = some final ↔
      Filled draft final (fun p => itemOf p parts items) ∧ items.length ≤ parts.length := by
  induction parts generalizing draft items with
  | nil =>
      have hnone : Filled draft final (fun p => itemOf p [] items) ↔ draft = final :=
        filled_nil fun _ => rfl
      rw [hnone]
      cases items <;> simp [Record.fillItems]
  | cons p parts ih =>
      cases items with
      | nil =>
          have hnone : Filled draft final (fun q => itemOf q (p :: parts) []) ↔ draft = final :=
            filled_nil fun _ => rfl
          rw [hnone]
          simp [Record.fillItems]
      | cons item items =>
          obtain ⟨hp, hrest⟩ := List.nodup_cons.mp hparts
          obtain ⟨hnew, hblank⟩ := List.forall_mem_cons.mp hblank
          have hset (a : p.Holds) : ∀ q ∈ parts, Part.get (Part.set draft p a) q = none := by
            intro q hq
            have hne : q ≠ p := fun heq => hp (heq ▸ hq)
            rw [Part.get_set_of_ne hne, hblank q hq]
          have hvalue : itemOf p (p :: parts) (item :: items) = item :: itemOf p parts items := by
            rw [itemOf, if_pos rfl, itemOf_eq_nil hp]
          have hothers (q : Part) (hq : q ≠ p) :
              itemOf q (p :: parts) (item :: items) = itemOf q parts items := by
            rw [itemOf, if_neg hq]
          rw [filled_cons hvalue hothers, List.map_cons, Record.fillItems, put_field]
          have hlength : (item :: items).length ≤ (p :: parts).length ↔
              items.length ≤ parts.length := Nat.succ_le_succ_iff
          cases hmeaning : p.meaning item with
          | none => simp
          | some a =>
              simp only [Option.map_some, Option.bind_some, ih hrest (hset a), hnew, hlength,
                Option.some.injEq, exists_eq_left', true_and]

/-! ### Reading rows and tables -/

/-- The record of a draft that is filled is the row of the documents that fill it. -/
theorem bind_finish_eq {filled : Option Draft} {values : Part → List Document}
    {allowed : Prop} [Decidable allowed]
    (h : ∀ final, filled = some final ↔ Filled record.blank final values ∧ allowed) :
    (filled.bind fun draft => (record.finish draft).toOption) =
      if allowed then
        ofFields? (values .id) (values .measure) (values .returns) (values .mode)
      else none := by
  apply Option.ext
  intro d
  have hfinish (final : Draft) :
      (record.finish final).toOption = some d ↔ record.finish final = .ok d := by
    cases record.finish final <;> simp [Except.toOption]
  simp only [Option.bind_eq_some_iff, h, hfinish]
  by_cases hallowed : allowed
  · simp only [hallowed, and_true, if_true, ofFields?_eq_some]
  · simp [hallowed]

theorem meaning_eq_ofDocument? (doc : Document) : record.meaning put doc = ofDocument? doc := by
  cases doc with
  | object members => exact bind_finish_eq fun final => fillMembers_eq_some
  | array items =>
      have hblank : ∀ p ∈ Part.all, Part.get record.blank p = none := by
        intro p _
        cases p <;> rfl
      have hfilled (final : Draft) :
          Record.fillItems put record.fields record.blank items = some final ↔
            Filled record.blank final (fun p => itemOf p Part.all items) ∧ items.length ≤ 4 :=
        fillItems_eq_some (by decide) hblank
      have hrow := bind_finish_eq hfilled
      simp only [itemOf_all] at hrow
      exact hrow
  | _ => rfl

theorem interprets_record : Interprets record.read ofDocument? :=
  (Record.interprets_read interprets_fields).congr meaning_eq_ofDocument?

theorem interprets_table :
    Interprets (Json.Reader.arrayOf record.read) tableOf? :=
  Json.Reader.interprets_arrayOf interprets_record

end Descriptor

/-- A stored text is read as what its document means, or found malformed. -/
theorem Stored.parse_of_interprets {α : Type} [Stored α] {r : Json.Reader α}
    {meaning : Document → Option α} (hreader : (Stored.reader : Json.Reader _) = .ok <$> r)
    (hr : Interprets r meaning) {text : String} {doc : Document} (hwrites : Writes text doc) :
    (∀ a, meaning doc = some a → Stored.parse text = .ok a) ∧
      (meaning doc = none →
        ∃ why, (Stored.parse text : Except Fault α) = .error (.malformed why)) := by
  obtain ⟨hread, hrefuse⟩ := hr.document hwrites
  rw [Stored.parse, hreader]
  constructor
  · intro a ha
    rw [hread a ha]
  · intro hnone
    obtain ⟨why, hwhy⟩ := hrefuse hnone
    exact ⟨why, by rw [hwhy]⟩

/-- A text is read as the table that its document is, or found malformed. -/
theorem Stored.parse_of_writes {text : String} {doc : Document} (h : Writes text doc) :
    (∀ rows, Descriptor.tableOf? doc = some rows → Stored.parse text = .ok rows) ∧
      (Descriptor.tableOf? doc = none →
        ∃ why, (Stored.parse text : Except Fault (List Descriptor)) = .error (.malformed why)) :=
  Stored.parse_of_interprets rfl Descriptor.interprets_table h

end MeasureInference
