import Mathlib.Data.List.Perm.Subperm
import MeasureInference.Proofs.StoredForms
import MeasureInference.Proofs.Summary

/-!
Single values read back from their stored forms: identities, levels and descriptors.

A descriptor is read from an object by the names of its members. They may stand in any order, and
those with a default may be left out where that is their value. Members taken from the stored form
repeat no name, so each name is there once, or it is missing and the default says the same.
-/

namespace MeasureInference

open Json (Document Record Spells Style Value escapeGlyphs)
open Json.Reader (Interprets)

section Styles

variable {style : Style}

/-! ### Identities -/

theorem FunctionId.parse_render (f : FunctionId) :
    Stored.parse (f.toValue.render style) = .ok f :=
  Stored.parse_render_of_spells rfl (Json.Reader.interprets_text.map FunctionId.mk)
    (Json.spells_text f.name) f.ofDocument?_written

/-! ### Levels -/

namespace Level

/-- What a field of a level makes of a document. -/
def put (field : Json.Field Draft) (draft : Draft) (doc : Document) : Option Draft :=
  match field.name with
  | "value" => (doc.whole? codeRange).map fun n => { draft with value? := some (Int32.ofInt n) }
  | "label" => doc.text?.map fun s => { draft with label? := some s }
  | _ => none

theorem interprets_fields :
    ∀ field ∈ record.fields, ∀ draft, Interprets (field.read draft) (put field draft) := by
  intro field hfield draft
  simp only [record, List.mem_cons, List.not_mem_nil, or_false] at hfield
  rcases hfield with rfl | rfl
  · exact (Json.Reader.interprets_whole codeRange).bind_pure _
  · exact Json.Reader.interprets_text.bind_pure _

/-- The document of a written level. -/
def document (l : Level) : Document :=
  .object [
    (escapeGlyphs "value", .number (.ofInt l.value.toInt)),
    (escapeGlyphs "label", .text (escapeGlyphs l.label))]

theorem spells_document (hstyle : style.Loose) (l : Level) :
    Spells l.document (l.toValue.write style 0) :=
  @Json.spells_object style 0 hstyle
    [("value", .number (.whole l.value.toInt), .number (.ofInt l.value.toInt)),
      ("label", .text l.label, .text (escapeGlyphs l.label))]
    (by simpa using ⟨Json.spells_whole _, Json.spells_text _⟩)

theorem whole?_written (code : Int32) :
    Document.whole? codeRange (.number (.ofInt code.toInt)) = some code.toInt := by
  have hrange : codeRange.least ≤ code.toInt ∧ code.toInt ≤ codeRange.greatest :=
    ⟨code.minValue_le_toInt, code.toInt_le⟩
  have hword : -Nat.pow 2 63 ≤ code.toInt ∧ code.toInt < UInt64.size := by
    have hleast := code.le_toInt
    have hgreatest := code.toInt_lt
    show -9223372036854775808 ≤ code.toInt ∧ code.toInt < 18446744073709551616
    omega
  rw [Document.whole?, Json.Numeral.whole?_ofInt hword.1 hword.2, Option.filter_some,
    decide_eq_true hrange, if_pos rfl]

theorem meaning_document (l : Level) : record.meaning put l.document = some l := by
  simp [Record.meaning, document, Record.fillMembers, Record.fillMember,
    Json.textOf?_escapeGlyphs, record, put, whole?_written, Document.text?, Except.toOption]

theorem parse_render (hstyle : style.Loose) (l : Level) :
    Stored.parse (l.toValue.render style) = .ok l :=
  Stored.parse_render_of_spells rfl (Record.interprets_read interprets_fields)
    (l.spells_document hstyle) l.meaning_document

end Level

/-! ### Descriptors -/

namespace Descriptor

/-- The members that say no more than their absence. -/
def omissible : List (String × Value) := [
  ("measure_type", (default : Measure).toValue),
  ("returns", .array []),
  ("mode", (default : EvalMode).toValue)]

variable {d : Descriptor} {members : List (String × Value)}

theorem nodup_names (hamong : members.Subperm d.allMembers) : (members.map (·.1)).Nodup := by
  have hnodup : (d.allMembers.map (·.1)).Nodup := by
    show ["id", "measure_type", "returns", "mode"].Nodup
    decide
  obtain ⟨kept, hperm, hkept⟩ := hamong
  exact (hperm.map _).nodup_iff.mp (hnodup.sublist (hkept.map _))

/-- The members stand for the descriptor, because a default is meant where one is missing. -/
theorem ofDocument?_members (hamong : members.Subperm d.allMembers)
    (homitted : ∀ m ∈ d.allMembers, m ∉ members → m ∈ omissible) :
    ofDocument? (d.objectDocument (members.map (·.1))) = some d := by
  have hmissing {name : String} {value : Value} (hm : (name, value) ∈ d.allMembers)
      (hname : name ∉ members.map (·.1)) : (name, value) ∈ omissible :=
    homitted _ hm fun hthere => hname (List.mem_map_of_mem hthere)
  -- The identity has no default, so its member cannot have been left out.
  have hid : "id" ∈ members.map (·.1) := by
    by_contra hname
    have hdefault : ("id", d.id.toValue) ∈ omissible := hmissing (by simp [allMembers]) hname
    simp [omissible] at hdefault
  have hmeasure (hname : "measure_type" ∉ members.map (·.1)) : d.measure = default := by
    have hdefault : ("measure_type", d.measure.toValue) ∈ omissible :=
      hmissing (by simp [allMembers]) hname
    exact Measure.name_injective (by simpa [omissible, Measure.toValue] using hdefault)
  have hreturns (hname : "returns" ∉ members.map (·.1)) : d.returns = [] := by
    have hdefault : ("returns", Value.array (d.returns.map slotValue)) ∈ omissible :=
      hmissing (by simp [allMembers]) hname
    simpa [omissible] using hdefault
  have hmode (hname : "mode" ∉ members.map (·.1)) : d.mode = default := by
    have hdefault : ("mode", d.mode.toValue) ∈ omissible :=
      hmissing (by simp [allMembers]) hname
    exact EvalMode.name_injective (by simpa [omissible, EvalMode.toValue] using hdefault)
  exact ofDocument?_objectDocument (nodup_names hamong) hid hmeasure hreturns hmode

theorem parse_render_members (hstyle : style.Loose) (hamong : members.Subperm d.allMembers)
    (homitted : ∀ m ∈ d.allMembers, m ∉ members → m ∈ omissible) :
    Stored.parse ((Value.object members).render style) = .ok d := by
  have hspells := spells_objectDocument hstyle (fun _ hm => hamong.subset hm) 0
  exact Stored.parse_render_of_spells rfl interprets_record hspells
    (ofDocument?_members hamong homitted)

theorem parse_render (hstyle : style.Loose) (d : Descriptor) :
    Stored.parse (d.toValue.render style) = .ok d :=
  parse_render_members hstyle (List.Subperm.refl d.allMembers) fun _ hm hmissing =>
    absurd hm hmissing

end Descriptor

end Styles

/-! ### All of them -/

/-- Every value is read back from both of its stored forms. -/
def Stored.ReadsBack (α : Type) [Stored α] : Prop :=
  ∀ a : α, Stored.parse (Stored.compact a) = .ok a ∧ Stored.parse (Stored.pretty a) = .ok a

/-- Descriptors, levels and identities are read back from their stored forms. A descriptor is also
read back when the members of its object stand in another order and when some of them are left out
whose value is the default. -/
theorem Stored.records_read_back :
    Stored.ReadsBack Descriptor ∧ Stored.ReadsBack Level ∧ Stored.ReadsBack FunctionId ∧
      ∀ (d : Descriptor) (all members : List (String × Value)), Stored.toValue d = .object all →
        members.Subperm all → (∀ m ∈ all, m ∉ members → m ∈ Descriptor.omissible) →
          Stored.parse ((Value.object members).render .compact) = .ok d := by
  refine ⟨fun d => ?_, fun l => ?_, fun f => ?_, fun d all members hall hamong homitted => ?_⟩
  · exact ⟨d.parse_render Style.loose_compact, d.parse_render Style.loose_pretty⟩
  · exact ⟨l.parse_render Style.loose_compact, l.parse_render Style.loose_pretty⟩
  · exact ⟨f.parse_render, f.parse_render⟩
  · obtain rfl : d.allMembers = all := Value.object.inj hall
    exact Descriptor.parse_render_members Style.loose_compact hamong homitted

namespace Descriptor

/-- A function whose name needs escapes and whose last slot is as far out as a slot can be. -/
def farReaching : Descriptor :=
  ⟨⟨"say \"é\"\n"⟩, .continuous, [0, 18446744073709551615], .rowWise⟩

/-- Its members in the opposite order, without its measure. -/
def turnedMembers : List (String × Value) := [
  ("mode", .text "row_wise"),
  ("returns", .array [.number (.whole 0), .number (.whole 18446744073709551615)]),
  ("id", .text "say \"é\"\n")]

theorem parse_turnedMembers :
    Stored.toValue farReaching = .object farReaching.allMembers ∧
      turnedMembers.Subperm farReaching.allMembers ∧
      (∀ m ∈ farReaching.allMembers, m ∉ turnedMembers → m ∈ omissible) ∧
      Stored.parse ((Value.object turnedMembers).render .compact) = .ok farReaching := by
  have hamong : turnedMembers.Subperm farReaching.allMembers :=
    ⟨turnedMembers.reverse, List.reverse_perm _,
      .cons_cons _ (.cons _ (.cons_cons _ (.cons_cons _ .slnil)))⟩
  have homitted : ∀ m ∈ farReaching.allMembers, m ∉ turnedMembers → m ∈ omissible := by
    intro m hm hmissing
    simp only [allMembers, List.mem_cons, List.not_mem_nil, or_false] at hm
    rcases hm with rfl | rfl | rfl | rfl
    · exact absurd (.tail _ (.tail _ (.head _))) hmissing
    · exact .head _
    · exact absurd (.tail _ (.head _)) hmissing
    · exact absurd (.head _) hmissing
  exact ⟨rfl, hamong, homitted, Stored.records_read_back.2.2.2 _ _ _ rfl hamong homitted⟩

end Descriptor

end MeasureInference
