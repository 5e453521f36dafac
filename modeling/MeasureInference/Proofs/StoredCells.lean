import MeasureInference.Proofs.Json.Content
import MeasureInference.Proofs.Json.Decimals
import MeasureInference.Stored

/-!
Which cell a document stands for, and what becomes of a cell that is written.

The kind of a cell is the kind of the token. A number is an integer exactly if it is written as a
plain one, without point and exponent, and sixty-four signed bits hold it; the zero with a minus
sign is none, because as a decimal it is another number than zero. Every other number is a decimal
or out of range. Cells are written as tokens that are read back by this rule: integers plainly,
decimals never so.
-/

namespace MeasureInference

open Json (Blank Document Glyph Numeral Spells Style Value delimited_of_blank greatestDepth textOf?)
open Json.Reader (Fails Writes content content_numeral document_map_of_cause
  document_map_of_error document_map_of_ok map_of_error map_of_ok)

namespace Json.Numeral

/-- The value of the digits in front of the point, under the sign. -/
def signed (n : Numeral) : Int := if n.negative then -(n.whole.value : Int) else n.whole.value

/-- The numeral is a plain one, and its value is an integer of sixty-four bits. Zero has no sign. -/
structure Denotes (n : Numeral) (k : Int64) : Prop where
  plain : n.isDecimal = false
  value : n.signed = k.toInt
  unsignedZero : n.negative = true → n.whole.value ≠ 0

theorem Denotes.whole?_eq {n : Numeral} {k : Int64} (h : n.Denotes k) :
    n.whole? = some k.toInt := by
  have hplain : ¬(n.fraction?.isSome || n.exponent?.isSome) = true := Bool.eq_false_iff.mp h.plain
  have hvalue := h.value
  have hleast := k.le_toInt
  have hgreatest := k.toInt_lt
  rw [signed] at hvalue
  rw [whole?, if_neg hplain]
  cases hsign : n.negative with
  | false =>
      rw [hsign, if_neg Bool.false_ne_true] at hvalue
      have hword : n.whole.value < UInt64.size := by
        rw [UInt64.size]
        omega
      rw [if_pos rfl, if_pos hword, hvalue]
  | true =>
      rw [hsign, if_pos rfl] at hvalue
      have hpos := h.unsignedZero hsign
      have hpow : Nat.pow 2 63 = 2 ^ 63 := rfl
      have hrange : 1 ≤ n.whole.value ∧ n.whole.value ≤ Nat.pow 2 63 := by omega
      rw [if_neg (by decide), if_pos hrange, hvalue]

/-- A whole number that is read is plain, and has the value of its digits. -/
theorem denotes_of_whole? {n : Numeral} {i : Int} (h : n.whole? = some i) {k : Int64}
    (hk : k.toInt = i) : n.Denotes k := by
  rw [whole?] at h
  split at h
  · cases h
  · next hplain =>
    split at h
    · next hsign =>
      split at h
      · cases h
        exact ⟨Bool.eq_false_iff.mpr hplain, by rw [signed, hsign, hk]; rfl, fun hneg => by
          rw [hsign] at hneg
          cases hneg⟩
      · cases h
    · next hsign =>
      have hneg : n.negative = true := Bool.not_eq_false _ ▸ hsign
      split at h
      · next hrange =>
        cases h
        exact ⟨Bool.eq_false_iff.mpr hplain, by rw [signed, hneg, hk]; rfl, fun _ => by omega⟩
      · cases h

theorem denotes_ofInt (k : Int64) : (ofInt k.toInt).Denotes k := by
  have hgreatest := k.toInt_lt
  have hword : k.toInt < UInt64.size := by
    rw [UInt64.size]
    omega
  exact denotes_of_whole? (whole?_ofInt k.le_toInt hword) rfl

end Json.Numeral

namespace Cell

/-! ### Verdicts -/

/-- Refused for the way the text is written. -/
def Refused (outcome : Except Fault Cell) : Prop := ∃ why, outcome = .error (.malformed why)

/-- A decimal, or refused for being out of range. -/
def DecimalOrOutOfRange (outcome : Except Fault Cell) : Prop :=
  (∃ x, outcome = .ok (.decimal x)) ∨
    ∃ place, outcome = .error (.malformed ⟨.numberOutOfRange, some place⟩)

/-- The outcome of reading a document as a cell. -/
def ReadFrom (outcome : Except Fault Cell) : Document → Prop
  | .null => outcome = .ok .missing
  | .text glyphs =>
    match textOf? glyphs with
    | some s => outcome = .ok (.text s)
    | none => Refused outcome
  | .number n =>
    (∀ k, n.Denotes k → outcome = .ok (.integer k)) ∧
      ((∀ k, ¬n.Denotes k) → DecimalOrOutOfRange outcome)
  | .flag _ | .array _ | .object _ => Refused outcome

/-- The outcome of reading what a cell is written as. A decimal need not come back as the same one;
one that is not finite has no text. -/
def ReadBack (outcome : Except Fault Cell) : Cell → Prop
  | .decimal x => if x.isFinite then DecimalOrOutOfRange outcome else outcome = .ok .missing
  | cell => outcome = .ok cell

/-! ### Reading -/

section Parse

variable {s rest : List Char} {v : Value}

theorem parse_eq (text : String) :
    (Stored.parse text : Except Fault Cell) =
      (Json.Reader.document (ofValue <$> content greatestDepth) text).mapError
        Fault.malformed := by
  have hreader : (Stored.reader : Json.Reader (Except Json.Cause Cell)) =
      ofValue <$> content greatestDepth := rfl
  rw [Stored.parse, hreader]
  cases Json.Reader.document (ofValue <$> content greatestDepth) text <;> rfl

theorem parse_of_ok {c : Cell} (h : content greatestDepth s = .ok (v, rest))
    (hc : ofValue v = .ok c) (hrest : Blank rest) :
    Stored.parse (String.ofList s) = .ok c := by
  rw [parse_eq, document_map_of_ok h hc hrest]
  rfl

theorem parse_of_error {failure : Json.Failure}
    (h : content greatestDepth s = .error failure) :
    (Stored.parse (String.ofList s) : Except Fault Cell) =
      .error (.malformed (failure.within s)) := by
  rw [parse_eq, document_map_of_error h]
  rfl

theorem refused_of_fails (h : Fails (content greatestDepth) s) :
    Refused (Stored.parse (String.ofList s)) := by
  obtain ⟨failure, hfailure⟩ := h
  exact ⟨_, parse_of_error hfailure⟩

theorem refused_of_cause {cause : Json.Cause}
    (h : content greatestDepth s = .ok (v, rest)) (hc : ofValue v = .error cause) :
    Refused (Stored.parse (String.ofList s)) := by
  refine ⟨⟨cause, none⟩, ?_⟩
  rw [parse_eq, document_map_of_cause h hc]
  rfl

end Parse

section Token

variable {before after : List Char}

theorem readFrom_text (glyphs : List Glyph) (hbefore : Blank before) (hafter : Blank after) :
    ReadFrom (Stored.parse (String.ofList (before ++ (Glyph.quoted glyphs ++ after))))
      (.text glyphs) := by
  have hcontent := Json.Reader.content_quoted glyphs greatestDepth hbefore after
  rw [ReadFrom]
  split
  · next s hs =>
    have hread := map_of_ok (f := Value.text) (Json.Reader.quotedText_of_textOf? hs after)
    exact parse_of_ok (hcontent.trans hread) rfl hafter
  · next hnone =>
    obtain ⟨failure, hfails⟩ := (Json.Reader.fails_quotedText hnone after).map Value.text
    exact refused_of_fails ⟨failure, hcontent.trans hfails⟩

/-- A whole number that sixty-four signed bits do not hold becomes a decimal. -/
theorem ofValue_whole {i : Int} (h : ∀ k : Int64, k.toInt ≠ i) :
    ∃ x, ofValue (.number (.whole i)) = .ok (.decimal x) := by
  have hrange : ¬(Int64.minValue.toInt ≤ i ∧ i ≤ Int64.maxValue.toInt) := by
    rintro ⟨hleast, hgreatest⟩
    have hmin : Int64.minValue.toInt = -2 ^ 63 := rfl
    have hmax : Int64.maxValue.toInt = 2 ^ 63 - 1 := rfl
    exact h (.ofInt i) (Int64.toInt_ofInt_of_le (by omega) (by omega))
  rw [ofValue, if_neg hrange]
  exact ⟨_, rfl⟩

theorem ofValue_integer (k : Int64) : ofValue (.number (.whole k.toInt)) = .ok (.integer k) := by
  rw [ofValue, if_pos ⟨k.minValue_le_toInt, k.toInt_le⟩, Int64.ofInt_toInt]

theorem readFrom_number (n : Numeral) (hbefore : Blank before) (hafter : Blank after) :
    ReadFrom (Stored.parse (String.ofList (before ++ (n.chars ++ after)))) (.number n) := by
  have hcontent := content_numeral n greatestDepth hbefore after
  have hdelimited := delimited_of_blank hafter
  have hwhole {i : Int} (hi : n.whole? = some i) :
      content greatestDepth (before ++ (n.chars ++ after)) =
        .ok (.number (.whole i), after) :=
    hcontent.trans (map_of_ok (Json.Reader.number_of_whole? hi hdelimited))
  constructor
  · intro k hk
    exact parse_of_ok (hwhole hk.whole?_eq) (ofValue_integer k) hafter
  · intro hnone
    cases hread : n.whole? with
    | some i =>
        obtain ⟨x, hx⟩ :=
          ofValue_whole fun k hk => hnone k (Json.Numeral.denotes_of_whole? hread hk)
        exact .inl ⟨x, parse_of_ok (hwhole hread) hx hafter⟩
    | none =>
        rcases Json.Reader.takesDecimal_number hread hdelimited with
          ⟨x, hx⟩ | ⟨failure, hfailure, hcause⟩
        · exact .inl ⟨x, parse_of_ok (hcontent.trans (map_of_ok hx)) rfl hafter⟩
        · refine .inr ⟨failure.position (before ++ (n.chars ++ after)), ?_⟩
          have hfails := hcontent.trans (map_of_error hfailure _)
          rw [parse_of_error hfails, Json.Failure.within, hcause]

/-- The token decides the kind of the cell. -/
theorem readFrom_parse {text : String} {doc : Document} (h : Writes text doc) :
    ReadFrom (Stored.parse text) doc := by
  obtain ⟨before, body, after, rfl, hbefore, hspells, hafter⟩ := h
  cases doc with
  | null =>
      cases hspells
      have hread := (Json.Reader.reads_content_null greatestDepth).eq_ok before after hbefore
        (delimited_of_blank hafter)
      exact parse_of_ok hread rfl hafter
  | flag value =>
      exact refused_of_cause (Json.Reader.content_flag hspells _ hbefore after) rfl
  | number n =>
      cases hspells
      exact readFrom_number n hbefore hafter
  | text glyphs =>
      cases hspells
      exact readFrom_text glyphs hbefore hafter
  | array items =>
      cases hspells with
      | array _ =>
          rcases Json.Reader.content_square greatestDepth hbefore _ with
            hfails | ⟨values, rest, hread⟩
          · exact refused_of_fails hfails
          · exact refused_of_cause hread rfl
  | object members =>
      cases hspells with
      | object _ =>
          rcases Json.Reader.content_curly greatestDepth hbefore _ with
            hfails | ⟨values, rest, hread⟩
          · exact refused_of_fails hfails
          · exact refused_of_cause hread rfl

end Token

/-! ### Reading back -/

theorem readBack_parse (c : Cell) (style : Style) :
    ReadBack (Stored.parse ((Stored.toValue c).render style)) c := by
  have hreads {doc : Document} (h : Spells doc ((Stored.toValue c).write style 0)) :
      ReadFrom (Stored.parse ((Stored.toValue c).render style)) doc :=
    readFrom_parse (.of_spells h rfl)
  cases c with
  | missing => exact hreads .null
  | integer k => exact (hreads (Json.spells_whole k.toInt)).1 k (Json.Numeral.denotes_ofInt k)
  | text s =>
      have htext := hreads (Json.spells_text s)
      rwa [ReadFrom, Json.textOf?_escapeGlyphs] at htext
  | decimal x =>
      rw [ReadBack]
      split
      · next hfinite =>
        obtain ⟨n, hdecimal, hspells⟩ := Json.exists_spells_decimal style 0 hfinite
        refine (hreads hspells).2 fun k hk => ?_
        rw [hk.plain] at hdecimal
        cases hdecimal
      · next hfinite => exact hreads (Json.spells_notFinite style 0 hfinite)

/-- Which cell a document stands for is decided by its token alone. In either style a cell without
a value, an integer and a text are read back as they were; a finite decimal stays a decimal, if it
stays in range, and one that is not finite is read back as no value. -/
theorem kind_decided :
    (∀ text doc, Writes text doc → ReadFrom (Stored.parse text) doc) ∧
    (∀ c : Cell, ReadBack (Stored.parse (Stored.compact c)) c ∧
      ReadBack (Stored.parse (Stored.pretty c)) c) :=
  ⟨fun _ _ h => readFrom_parse h, fun c => ⟨readBack_parse c .compact, readBack_parse c .pretty⟩⟩

/-- The least integer, and the one below it. -/
theorem kind_decided_least :
    Writes " -9223372036854775808\n" (.number (.ofInt (-9223372036854775808))) ∧
    Stored.parse " -9223372036854775808\n" = .ok (Cell.integer Int64.minValue) ∧
    DecimalOrOutOfRange (Stored.parse "-9223372036854775809") := by
  have hleast : Writes " -9223372036854775808\n" (.number (.ofInt (-9223372036854775808))) :=
    ⟨[' '], _, ['\n'], rfl, by decide, .number _, by decide⟩
  have hbelow : Writes "-9223372036854775809" (.number (.ofInt (-9223372036854775809))) :=
    .of_spells (.number _) rfl
  refine ⟨hleast, (kind_decided.1 _ _ hleast).1 _ (Json.Numeral.denotes_ofInt Int64.minValue),
    (kind_decided.1 _ _ hbelow).2 fun k hk => ?_⟩
  have hvalue := hk.value
  have hk' := k.le_toInt
  have hsigned : (Numeral.ofInt (-9223372036854775809)).signed = -9223372036854775809 := rfl
  omega

/-- One half of a pair of surrogates is a text as it is written, but denotes none. -/
theorem half_refused :
    Writes "\"\\ud800\"" (.text [.unit ⟨'d', 13, rfl⟩ ⟨'8', 8, rfl⟩ .zero .zero]) ∧
    ∀ s, Stored.parse "\"\\ud800\"" ≠ .ok (Cell.text s) := by
  have hwrites : Writes "\"\\ud800\"" (.text [.unit ⟨'d', 13, rfl⟩ ⟨'8', 8, rfl⟩ .zero .zero]) :=
    .of_spells (.text _) rfl
  refine ⟨hwrites, fun s hs => ?_⟩
  obtain ⟨why, hwhy⟩ : Refused (Stored.parse "\"\\ud800\"") := readFrom_parse hwrites
  rw [hwhy] at hs
  cases hs

end Cell

end MeasureInference
