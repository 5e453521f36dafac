import MeasureInference.Proofs.Json.Reading
import MeasureInference.Json.Numeral
import MeasureInference.Json.Quoted

/-!
Documents: what may be written as JSON, as it is written.

A document is a tree of tokens. Its texts in quotes are rows of glyphs and its numbers are numerals,
so that nothing is decided yet about what they stand for: a numeral may be of any size, and a text
may hold one half of a pair of surrogates, which no text of characters does. Glyphs and numerals
carry the rules of their form, so a tree of them is well formed by construction. `Spells` relates a
document to every text that writes it, with white space wherever it may stand.
-/

namespace MeasureInference.Json

/-! ### Texts in quotes -/

/-- A hexadecimal digit and its value. -/
structure HexDigit where
  char : Char
  value : Nat
  eq_value : hexDigit? char = some value

def HexDigit.zero : HexDigit := ⟨'0', 0, rfl⟩

/-- A character of a text in quotes, as it is written. -/
inductive Glyph where
  /-- A character that stands for itself. -/
  | plain (c : Char) (h : c ≠ '"' ∧ c ≠ '\\' ∧ isControl c = false)
  /-- A letter behind a backslash, and the character that it stands for. -/
  | letter (letter c : Char) (h : escapedBy? letter = some c)
  /-- Four hexadecimal digits behind a backslash and the letter `u`. -/
  | unit (a b c d : HexDigit)

namespace Glyph

def chars : Glyph → List Char
  | plain c _ => [c]
  | letter l _ _ => ['\\', l]
  | unit a b c d => ['\\', 'u', a.char, b.char, c.char, d.char]

/-- A row of glyphs in quotes. -/
def quoted (glyphs : List Glyph) : List Char := '"' :: (glyphs.flatMap chars ++ ['"'])

end Glyph

/-- The value of four hexadecimal digits. -/
def unitValue (a b c d : HexDigit) : Nat :=
  ((a.value * 16 + b.value) * 16 + c.value) * 16 + d.value

/-- The character of a pair of surrogates. -/
def pairedChar (leading trailing : Nat) : Char :=
  Char.ofNat (0x10000 + (leading - 0xD800) * 0x400 + (trailing - 0xDC00))

/-- The characters that a row of glyphs stands for. A surrogate needs its partner beside it; without
one the row stands for no text. -/
def charsOf? : List Glyph → Option (List Char)
  | [] => some []
  | .plain c _ :: rest => (charsOf? rest).map (c :: ·)
  | .letter _ c _ :: rest => (charsOf? rest).map (c :: ·)
  | .unit a b c d :: rest =>
    let first := unitValue a b c d
    if isTrailingSurrogate first then none
    else if isLeadingSurrogate first then
      match rest with
      | .unit a b c d :: rest =>
        let second := unitValue a b c d
        if isTrailingSurrogate second then (charsOf? rest).map (pairedChar first second :: ·)
        else none
      | _ => none
    else (charsOf? rest).map (Char.ofNat first :: ·)

/-- The text that a row of glyphs stands for. -/
def textOf? (glyphs : List Glyph) : Option String := (charsOf? glyphs).map String.ofList

/-! ### Numbers -/

/-- At least one digit. -/
structure Digits where
  first : Char
  more : List Char
  isDigit : ∀ c ∈ first :: more, c.isDigit = true

def Digits.chars (d : Digits) : List Char := d.first :: d.more

def Digits.value (d : Digits) : Nat := Nat.ofDigitChars 10 d.chars 0

structure Exponent where
  mark : Char
  sign : List Char
  digits : Digits
  isMark : mark = 'e' ∨ mark = 'E'
  isSign : sign = [] ∨ sign = ['+'] ∨ sign = ['-']

def Exponent.chars (e : Exponent) : List Char := e.mark :: (e.sign ++ e.digits.chars)

/-- A number as it is written. Its digits do not begin with zero, unless zero is all there is in
front of the point. -/
structure Numeral where
  negative : Bool
  whole : Digits
  fraction? : Option Digits
  exponent? : Option Exponent
  noLeadingZero : whole.first = '0' → whole.more = []

namespace Numeral

/-- What stands behind the digits in front of the point. -/
def tail (n : Numeral) : List Char :=
  n.fraction?.elim [] (fun d => '.' :: d.chars) ++ n.exponent?.elim [] Exponent.chars

def chars (n : Numeral) : List Char :=
  (if n.negative then ['-'] else []) ++ (n.whole.chars ++ n.tail)

end Numeral

/-! ### Documents -/

inductive Document where
  | null
  | flag (value : Bool)
  | number (numeral : Numeral)
  | text (glyphs : List Glyph)
  | array (items : List Document)
  | object (members : List (List Glyph × Document))

mutual

/-- The texts that write a document. -/
inductive Spells : Document → List Char → Prop
  | null : Spells .null ['n', 'u', 'l', 'l']
  | trueFlag : Spells (.flag true) ['t', 'r', 'u', 'e']
  | falseFlag : Spells (.flag false) ['f', 'a', 'l', 's', 'e']
  | number (n : Numeral) : Spells (.number n) n.chars
  | text (glyphs : List Glyph) : Spells (.text glyphs) (Glyph.quoted glyphs)
  | array {items : List Document} {body : List Char} :
      SpellsItems true items body → Spells (.array items) ('[' :: body)
  | object {members : List (List Glyph × Document)} {body : List Char} :
      SpellsMembers true members body → Spells (.object members) ('\x7b' :: body)

/-- The texts that write items of an array, from the first one on or behind one, and the closing
bracket. -/
inductive SpellsItems : Bool → List Document → List Char → Prop
  | close {first : Bool} {space : List Char} : Blank space → SpellsItems first [] (space ++ [']'])
  | first {space text more : List Char} {item : Document} {items : List Document} :
      Blank space → Spells item text → SpellsItems false items more →
      SpellsItems true (item :: items) (space ++ (text ++ more))
  | further {before behind text more : List Char} {item : Document} {items : List Document} :
      Blank before → Blank behind → Spells item text → SpellsItems false items more →
      SpellsItems false (item :: items) (before ++ ',' :: (behind ++ (text ++ more)))

/-- The texts that write a member of an object. -/
inductive SpellsMember : List Glyph × Document → List Char → Prop
  | mk {before behind text : List Char} {value : Document} (key : List Glyph) :
      Blank before → Blank behind → Spells value text →
      SpellsMember (key, value) (Glyph.quoted key ++ (before ++ ':' :: (behind ++ text)))

/-- The texts that write members of an object, from the first one on or behind one, and the closing
bracket. -/
inductive SpellsMembers : Bool → List (List Glyph × Document) → List Char → Prop
  | close {first : Bool} {space : List Char} :
      Blank space → SpellsMembers first [] (space ++ ['\x7d'])
  | first {space text more : List Char} {member : List Glyph × Document}
      {members : List (List Glyph × Document)} :
      Blank space → SpellsMember member text → SpellsMembers false members more →
      SpellsMembers true (member :: members) (space ++ (text ++ more))
  | further {before behind text more : List Char} {member : List Glyph × Document}
      {members : List (List Glyph × Document)} :
      Blank before → Blank behind → SpellsMember member text → SpellsMembers false members more →
      SpellsMembers false (member :: members) (before ++ ',' :: (behind ++ (text ++ more)))

end

/-! ### First characters -/

/-- The characters that a document may begin with. They tell its kind. -/
def Document.opensWith : Document → Char → Bool
  | .null, c => c = 'n'
  | .flag true, c => c = 't'
  | .flag false, c => c = 'f'
  | .number _, c => opensNumber c
  | .text _, c => c = '"'
  | .array _, c => c = '['
  | .object _, c => c = '\x7b'

theorem Glyph.length_quoted_pos (glyphs : List Glyph) : 0 < (Glyph.quoted glyphs).length :=
  Nat.succ_pos _

theorem Numeral.exists_chars_eq_cons (n : Numeral) :
    ∃ c t, n.chars = c :: t ∧ opensNumber c = true := by
  rw [Numeral.chars]
  cases n.negative with
  | true => exact ⟨'-', _, rfl, rfl⟩
  | false =>
      have hfirst := n.whole.isDigit n.whole.first (List.mem_cons_self ..)
      exact ⟨n.whole.first, _, rfl, by simp [opensNumber, hfirst]⟩

theorem Spells.exists_cons {doc : Document} {text : List Char} (h : Spells doc text) :
    ∃ c t, text = c :: t ∧ doc.opensWith c = true := by
  cases h with
  | number n => exact n.exists_chars_eq_cons
  | _ => exact ⟨_, _, rfl, rfl⟩

theorem isSpace_of_opensNumber {c : Char} (h : opensNumber c = true) :
    Reader.isSpace c = false := by
  rw [← Bool.not_eq_true]
  intro hspace
  simp only [Reader.isSpace, Bool.or_eq_true, decide_eq_true_eq] at hspace
  rcases hspace with ((rfl | rfl) | rfl) | rfl <;> cases h

theorem Document.isSpace_of_opensWith {doc : Document} {c : Char} (h : doc.opensWith c = true) :
    Reader.isSpace c = false := by
  cases doc with
  | number n => exact isSpace_of_opensNumber h
  | flag value => cases value <;> rw [of_decide_eq_true h] <;> rfl
  | _ => rw [of_decide_eq_true h]; rfl

theorem Spells.opens {doc : Document} {text : List Char} (h : Spells doc text) :
    Reader.Opens text := by
  obtain ⟨c, t, rfl, hc⟩ := h.exists_cons
  refine Reader.opens_cons (Document.isSpace_of_opensWith hc) ?_ ?_
  · rintro rfl
    cases doc with
    | flag value => cases value <;> cases hc
    | _ => cases hc
  · rintro rfl
    cases doc with
    | flag value => cases value <;> cases hc
    | _ => cases hc

theorem Spells.length_pos {doc : Document} {text : List Char} (h : Spells doc text) :
    0 < text.length := by
  obtain ⟨c, t, rfl, -⟩ := h.exists_cons
  exact Nat.succ_pos t.length

theorem SpellsMember.exists_cons {member : List Glyph × Document} {text : List Char}
    (h : SpellsMember member text) : ∃ t, text = '"' :: t := by
  cases h
  exact ⟨_, rfl⟩

/-! ### Ends -/

/-- What follows an item does not go on a number. -/
theorem SpellsItems.delimited {items : List Document} {body : List Char}
    (h : SpellsItems false items body) (rest : List Char) : Delimited (body ++ rest) := by
  cases h with
  | close hspace =>
      rw [List.append_assoc]
      exact delimited_blank_cons hspace (by decide)
  | further hbefore =>
      rw [List.append_assoc]
      exact delimited_blank_cons hbefore (by decide)

theorem SpellsMembers.delimited {members : List (List Glyph × Document)} {body : List Char}
    (h : SpellsMembers false members body) (rest : List Char) : Delimited (body ++ rest) := by
  cases h with
  | close hspace =>
      rw [List.append_assoc]
      exact delimited_blank_cons hspace (by decide)
  | further hbefore =>
      rw [List.append_assoc]
      exact delimited_blank_cons hbefore (by decide)

end MeasureInference.Json
