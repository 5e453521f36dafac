import MeasureInference.Json.Writer
import MeasureInference.Proofs.Json.Numeral
import MeasureInference.Proofs.Json.Quoted

/-!
The documents of written values.

A written text is one of the rows of glyphs that stand for it: a character with a letter of its own
is written by that letter, another control character by its four hexadecimal digits, and every other
character stands for itself, because it is neither quote nor backslash. A written whole number is a
numeral without point and exponent. Arrays and objects are put together from the documents of their
parts, in every style whose gaps are white space.
-/

namespace MeasureInference.Json

/-! ### Texts -/

theorem hexDigit?_hexDigit {n : Nat} (h : n < 16) : hexDigit? (hexDigit n) = some n := by
  have hall : ∀ n < 16, hexDigit? (hexDigit n) = some n := by decide
  exact hall n h

theorem escapedBy?_of_escapeLetter? {c letter : Char} (h : escapeLetter? c = some letter) :
    escapedBy? letter = some c := by
  unfold escapeLetter? at h
  split at h
  all_goals first
    | cases h; rfl
    | cases h

/-- The glyph of a character below `0x20`. -/
def controlGlyph (c : Char) (h : c.toNat < 0x20) : Glyph :=
  .unit .zero .zero
    ⟨hexDigit (c.toNat / 16), c.toNat / 16, hexDigit?_hexDigit (by omega)⟩
    ⟨hexDigit (c.toNat % 16), c.toNat % 16, hexDigit?_hexDigit (Nat.mod_lt _ (by decide))⟩

theorem charsOf?_controlGlyph (c : Char) (h : c.toNat < 0x20) (glyphs : List Glyph) :
    charsOf? (controlGlyph c h :: glyphs) = (charsOf? glyphs).map (c :: ·) := by
  have hvalue : ((0 * 16 + 0) * 16 + c.toNat / 16) * 16 + c.toNat % 16 = c.toNat := by omega
  have htrailing : ¬isTrailingSurrogate c.toNat = true := by
    simp only [isTrailingSurrogate, Bool.and_eq_true, decide_eq_true_eq]
    omega
  have hleading : ¬isLeadingSurrogate c.toNat = true := by
    simp only [isLeadingSurrogate, Bool.and_eq_true, decide_eq_true_eq]
    omega
  rw [controlGlyph, charsOf?.eq_def]
  dsimp only [unitValue, HexDigit.zero]
  rw [hvalue, if_neg htrailing, if_neg hleading, Char.ofNat_toNat]

theorem plain_of_not_escaped {c : Char} (hletter : escapeLetter? c = none)
    (hcontrol : ¬c.toNat < 0x20) : c ≠ '"' ∧ c ≠ '\\' ∧ isControl c = false := by
  refine ⟨?_, ?_, by simpa [isControl] using hcontrol⟩
  · rintro rfl
    cases hletter
  · rintro rfl
    cases hletter

/-- The glyph by which a character is written. -/
def escapeGlyph (c : Char) : Glyph :=
  match hletter : escapeLetter? c with
  | some letter => .letter letter c (escapedBy?_of_escapeLetter? hletter)
  | none =>
    if hcontrol : c.toNat < 0x20 then controlGlyph c hcontrol
    else .plain c (plain_of_not_escaped hletter hcontrol)

theorem chars_escapeGlyph (c : Char) : (escapeGlyph c).chars = escape c := by
  rw [escapeGlyph, escape]
  split
  · next letter hletter => simp only [hletter]; rfl
  · next hletter =>
    simp only [hletter]
    split <;> rfl

theorem charsOf?_escapeGlyph (c : Char) (glyphs : List Glyph) :
    charsOf? (escapeGlyph c :: glyphs) = (charsOf? glyphs).map (c :: ·) := by
  rw [escapeGlyph]
  split
  · rw [charsOf?]
  · split
    · exact charsOf?_controlGlyph c _ glyphs
    · rw [charsOf?]

/-- The glyphs by which a text is written. -/
def escapeGlyphs (s : String) : List Glyph := s.toList.map escapeGlyph

theorem quoted_escapeGlyphs (s : String) : Glyph.quoted (escapeGlyphs s) = quote s := by
  have hchars : (escapeGlyphs s).flatMap Glyph.chars = s.toList.flatMap escape := by
    rw [escapeGlyphs, List.flatMap_map]
    exact congrArg (s.toList.flatMap ·) (funext chars_escapeGlyph)
  rw [Glyph.quoted, hchars, quote, List.cons_append]

/-- Written glyphs stand for the text that is written. -/
theorem textOf?_escapeGlyphs (s : String) : textOf? (escapeGlyphs s) = some s := by
  have hchars (cs : List Char) : charsOf? (cs.map escapeGlyph) = some cs := by
    induction cs with
    | nil => rfl
    | cons c cs ih =>
        rw [List.map_cons, charsOf?_escapeGlyph, ih]
        rfl
  rw [textOf?, escapeGlyphs, hchars, Option.map_some, String.ofList_toList]

/-! ### Whole numbers -/

/-- The digits of a positive number do not begin with zero. -/
theorem exists_toDigits_eq_cons {n : Nat} (h : 0 < n) :
    ∃ c cs, Nat.toDigits 10 n = c :: cs ∧ c ≠ '0' := by
  induction n using Nat.strongRecOn with
  | ind n ih =>
      by_cases hsmall : n < 10
      · have hall : ∀ n < 10, 0 < n → n.digitChar ≠ '0' := by decide
        exact ⟨n.digitChar, [], Nat.toDigits_of_lt_base hsmall, hall n hsmall h⟩
      · obtain ⟨c, cs, hcs, hzero⟩ := ih (n / 10) (by omega) (by omega)
        refine ⟨c, cs ++ [(n % 10).digitChar], ?_, hzero⟩
        rw [Nat.toDigits_of_base_le (by decide) (Nat.le_of_not_lt hsmall), hcs, List.cons_append]

/-- The digits by which a number is written. -/
def Digits.ofNat (n : Nat) : Digits where
  first := (Nat.toDigits 10 n).head Nat.toDigits_ne_nil
  more := (Nat.toDigits 10 n).tail
  isDigit := by
    rw [List.cons_head_tail]
    exact fun c hc => Nat.isDigit_of_mem_toDigits (by decide) (by decide) hc

namespace Digits

theorem chars_ofNat (n : Nat) : (ofNat n).chars = Nat.toDigits 10 n := List.cons_head_tail _

theorem value_ofNat (n : Nat) : (ofNat n).value = n := by
  rw [value, chars_ofNat, Nat.ofDigitChars_ten_toDigits]

theorem noLeadingZero_ofNat (n : Nat) (h : (ofNat n).first = '0') : (ofNat n).more = [] := by
  rcases Nat.eq_zero_or_pos n with rfl | hpos
  · rfl
  · obtain ⟨c, cs, hcs, hzero⟩ := exists_toDigits_eq_cons hpos
    have hchars := (chars_ofNat n).trans hcs
    exact absurd ((List.cons.inj hchars).1.symm.trans h) hzero

end Digits

/-- The numeral by which a whole number is written. -/
def Numeral.ofInt : Int → Numeral
  | .ofNat n => ⟨false, .ofNat n, none, none, Digits.noLeadingZero_ofNat n⟩
  | .negSucc n => ⟨true, .ofNat (n + 1), none, none, Digits.noLeadingZero_ofNat (n + 1)⟩

theorem Number.write_whole_ofNat (n : Nat) :
    (Number.whole (Int.ofNat n)).write = Nat.toDigits 10 n := by
  show (toString n).toList = _
  rw [Nat.toString_eq_ofList_toDigits, String.toList_ofList]

theorem Number.write_whole_negSucc (n : Nat) :
    (Number.whole (Int.negSucc n)).write = '-' :: Nat.toDigits 10 (n + 1) := by
  have hsign : "-".toList = ['-'] := rfl
  show ("-" ++ toString (n + 1)).toList = _
  rw [String.toList_append, hsign, Nat.toString_eq_ofList_toDigits, String.toList_ofList]
  rfl

theorem Numeral.chars_ofInt (n : Int) : (ofInt n).chars = (Number.whole n).write := by
  cases n with
  | ofNat n =>
      rw [Number.write_whole_ofNat, ← Digits.chars_ofNat]
      exact List.append_nil _
  | negSucc n =>
      rw [Number.write_whole_negSucc, ← Digits.chars_ofNat]
      exact congrArg ('-' :: ·) (List.append_nil _)

/-- A written whole number that fits a word, signed or not, is read as a whole one. -/
theorem Numeral.whole?_ofInt {n : Int} (hleast : -Nat.pow 2 63 ≤ n) (hgreatest : n < UInt64.size) :
    (ofInt n).whole? = some n := by
  cases n with
  | ofNat n =>
      have hvalue := Digits.value_ofNat n
      have hword : (Digits.ofNat n).value < UInt64.size := by
        rw [hvalue]
        exact Int.ofNat_lt.mp hgreatest
      have hwhole : (ofInt (.ofNat n)).whole? = some ((Digits.ofNat n).value : Int) := if_pos hword
      rw [hwhole, hvalue]
      rfl
  | negSucc n =>
      have hvalue := Digits.value_ofNat (n + 1)
      have hword : 1 ≤ (Digits.ofNat (n + 1)).value ∧
          (Digits.ofNat (n + 1)).value ≤ Nat.pow 2 63 := by
        rw [hvalue]
        omega
      have hwhole : (ofInt (.negSucc n)).whole? = some (-((Digits.ofNat (n + 1)).value : Int)) :=
        if_pos hword
      rw [hwhole, hvalue]
      rfl

/-! ### Values -/

/-- A style whose gaps are white space. -/
structure Style.Loose (style : Style) : Prop where
  newLine : ∀ depth, Blank (style.newLine depth)
  space : Blank style.space

theorem Style.loose_compact : Style.compact.Loose where
  newLine _ := blank_nil
  space := blank_nil

theorem Style.loose_pretty : Style.pretty.Loose where
  newLine depth c hc := by
    rcases List.mem_cons.mp hc with rfl | hc
    · rfl
    · rw [List.eq_of_mem_replicate hc]
      rfl
  space c hc := by
    rw [List.mem_singleton.mp hc]
    rfl

section Spells

variable {style : Style} {depth : Nat}

theorem spells_text (s : String) :
    Spells (.text (escapeGlyphs s)) ((Value.text s).write style depth) := by
  rw [Value.write, ← quoted_escapeGlyphs]
  exact .text _

theorem spells_whole (n : Int) :
    Spells (.number (.ofInt n)) ((Value.number (.whole n)).write style depth) := by
  rw [Value.write, ← Numeral.chars_ofInt]
  exact .number _

variable {α : Type}

theorem spellsItems_writeItems (hstyle : style.Loose) {value : α → Value} {doc : α → Document}
    {as : List α} (h : ∀ a ∈ as, Spells (doc a) ((value a).write style (depth + 1))) :
    SpellsItems false (as.map doc) (Value.writeItems style depth (as.map value)) := by
  induction as with
  | nil =>
      rw [List.map_nil, List.map_nil, Value.writeItems]
      exact .close (hstyle.newLine depth)
  | cons a as ih =>
      obtain ⟨ha, has⟩ := List.forall_mem_cons.mp h
      have hitem := SpellsItems.further blank_nil (hstyle.newLine (depth + 1)) ha (ih has)
      rw [List.map_cons, List.map_cons, Value.writeItems]
      simpa using hitem

theorem spells_array (hstyle : style.Loose) {value : α → Value} {doc : α → Document}
    {as : List α} (h : ∀ a ∈ as, Spells (doc a) ((value a).write style (depth + 1))) :
    Spells (.array (as.map doc)) ((Value.array (as.map value)).write style depth) := by
  cases as with
  | nil =>
      rw [List.map_nil, List.map_nil, Value.write]
      exact .array (.close blank_nil)
  | cons a as =>
      obtain ⟨ha, has⟩ := List.forall_mem_cons.mp h
      have hitems := SpellsItems.first (hstyle.newLine (depth + 1)) ha
        (spellsItems_writeItems hstyle has)
      rw [List.map_cons, List.map_cons, Value.write]
      simpa using Spells.array hitems

theorem spellsMember_written (hstyle : style.Loose) (key : String) {value : Value} {doc : Document}
    (h : Spells doc (value.write style depth)) :
    SpellsMember (escapeGlyphs key, doc)
      (quote key ++ ':' :: (style.space ++ value.write style depth)) := by
  rw [← quoted_escapeGlyphs]
  exact .mk (escapeGlyphs key) blank_nil hstyle.space h

/-- The members of an object, each with its key, its value and the document of that. -/
theorem spellsMembers_writeMembers (hstyle : style.Loose)
    {members : List (String × Value × Document)}
    (h : ∀ m ∈ members, Spells m.2.2 (m.2.1.write style (depth + 1))) :
    SpellsMembers false (members.map fun m => (escapeGlyphs m.1, m.2.2))
      (Value.writeMembers style depth (members.map fun m => (m.1, m.2.1))) := by
  induction members with
  | nil =>
      rw [List.map_nil, List.map_nil, Value.writeMembers]
      exact .close (hstyle.newLine depth)
  | cons m members ih =>
      obtain ⟨hm, hmembers⟩ := List.forall_mem_cons.mp h
      have hmember := SpellsMembers.further blank_nil (hstyle.newLine (depth + 1))
        (spellsMember_written hstyle m.1 hm) (ih hmembers)
      rw [List.map_cons, List.map_cons, Value.writeMembers]
      simpa using hmember

theorem spells_object (hstyle : style.Loose) {members : List (String × Value × Document)}
    (h : ∀ m ∈ members, Spells m.2.2 (m.2.1.write style (depth + 1))) :
    Spells (.object (members.map fun m => (escapeGlyphs m.1, m.2.2)))
      ((Value.object (members.map fun m => (m.1, m.2.1))).write style depth) := by
  cases members with
  | nil =>
      rw [List.map_nil, List.map_nil, Value.write]
      exact .object (.close blank_nil)
  | cons m members =>
      obtain ⟨hm, hmembers⟩ := List.forall_mem_cons.mp h
      have hmember := SpellsMembers.first (hstyle.newLine (depth + 1))
        (spellsMember_written hstyle m.1 hm) (spellsMembers_writeMembers hstyle hmembers)
      rw [List.map_cons, List.map_cons, Value.write]
      simpa using Spells.object hmember

end Spells

end MeasureInference.Json
