import MeasureInference.Json.Reader

/-!
Texts in quotes: how a character is written inside them, and how they are read back. A character
beyond the first plane may be escaped as a pair of surrogates; one of a pair alone is refused.
-/

namespace MeasureInference.Json

/-- The letter that stands behind a backslash for a character. -/
def escapeLetter? (c : Char) : Option Char :=
  match c with
  | '"' => some '"'
  | '\\' => some '\\'
  | '\x08' => some 'b'
  | '\t' => some 't'
  | '\n' => some 'n'
  | '\x0c' => some 'f'
  | '\r' => some 'r'
  | _ => none

/-- The character that a letter behind a backslash stands for. The stroke may be escaped too. -/
def escapedBy? (letter : Char) : Option Char :=
  match letter with
  | '"' => some '"'
  | '\\' => some '\\'
  | '/' => some '/'
  | 'b' => some '\x08'
  | 'f' => some '\x0c'
  | 'n' => some '\n'
  | 'r' => some '\r'
  | 't' => some '\t'
  | _ => none

def hexDigit? (c : Char) : Option Nat :=
  if '0' ≤ c ∧ c ≤ '9' then some (c.toNat - '0'.toNat)
  else if 'a' ≤ c ∧ c ≤ 'f' then some (c.toNat - 'a'.toNat + 10)
  else if 'A' ≤ c ∧ c ≤ 'F' then some (c.toNat - 'A'.toNat + 10)
  else none

/-- A hexadecimal digit in small letters. -/
def hexDigit (n : Nat) : Char := Nat.digitChar n

/-- A character as it is written in quotes. Only quote, backslash and control characters are
escaped. -/
def escape (c : Char) : List Char :=
  match escapeLetter? c with
  | some letter => ['\\', letter]
  | none =>
    if c.toNat < 0x20 then
      ['\\', 'u', '0', '0', hexDigit (c.toNat / 16), hexDigit (c.toNat % 16)]
    else [c]

/-- A text in quotes. -/
def quote (s : String) : List Char := '"' :: s.toList.flatMap escape ++ ['"']

def isControl (c : Char) : Bool := c.toNat < 0x20

def isLeadingSurrogate (n : Nat) : Bool := 0xD800 ≤ n && n ≤ 0xDBFF

def isTrailingSurrogate (n : Nat) : Bool := 0xDC00 ≤ n && n ≤ 0xDFFF

namespace Reader

/-- Four hexadecimal digits. Fewer than four bytes up to the end of the text are an open text, four
bytes that are no digits a wrong escape. -/
def hexQuad : Reader Nat := fun s =>
  if byteSize (s.take 4) < 4 then .error ⟨.endInText, [], 0⟩
  else
    match s with
    | a :: b :: c :: d :: rest =>
      match hexDigit? a, hexDigit? b, hexDigit? c, hexDigit? d with
      | some a, some b, some c, some d => .ok (((a * 16 + b) * 16 + c) * 16 + d, rest)
      | _, _, _, _ => .error ⟨.invalidEscape, s, 4⟩
    | _ => .error ⟨.invalidEscape, s, 4⟩

/-- Takes the characters between the two halves of a pair of surrogates. -/
def pairLink : List Char → Reader Unit
  | [] => pure ()
  | c :: rest => do
    match ← peek with
    | none => failNext .endInText
    | some d => if d = c then do skip; pairLink rest else failNext .brokenSurrogatePair

/-- The character behind `\u`. -/
def codePoint : Reader Char := do
  let first ← hexQuad
  if isTrailingSurrogate first then failHere .loneSurrogate
  else if isLeadingSurrogate first then
    pairLink ['\\', 'u']
    let second ← hexQuad
    if isTrailingSurrogate second then
      pure (Char.ofNat (0x10000 + (first - 0xD800) * 0x400 + (second - 0xDC00)))
    else failHere .loneSurrogate
  else pure (Char.ofNat first)

/-- The character behind a backslash. -/
def escaped : Reader Char := do
  match ← peek with
  | none => failNext .endInText
  | some 'u' => skip; codePoint
  | some letter =>
    match escapedBy? letter with
    | some c => skip; pure c
    | none => failNext .invalidEscape

/-- The next character of a text in quotes, or nothing at the closing quote. -/
def quotedChar : Reader (Option Char) := do
  match ← peek with
  | none => failNext .endInText
  | some '"' => skip; pure none
  | some '\\' => skip; some <$> escaped
  | some c => if isControl c then failNext .controlCharacter else do skip; pure (some c)

/-- A text, its opening quote already taken. -/
def textBody : Reader String := String.ofList <$> many quotedChar

/-- A text, its opening quote being next. -/
def quotedText : Reader String := do
  skip
  textBody

end Reader

end MeasureInference.Json
