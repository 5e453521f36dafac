import MeasureInference.Binary64.Text

/-!
Why a text cannot be read, and where. A failure found while reading keeps the text that was left;
the position is counted from that at the end, in lines and in bytes of the last line.
-/

namespace MeasureInference.Json

/-- What stands in the text where something else was expected. -/
inductive Found where
  | null
  | flag (value : Bool)
  | whole (value : Int)
  | decimal (value : Binary64)
  | text (value : String)
  | array
  | object
  deriving DecidableEq, Repr

inductive Expected where
  | text
  | array
  | null
  /-- A whole number of the named range. -/
  | whole (range : String)
  | record (name : String)
  deriving DecidableEq, Repr

inductive Cause where
  | endInArray
  | endInObject
  | endInText
  | endInValue
  | noColon
  | noCommaOrBracket
  | noCommaOrBrace
  | noKeyword
  | noValue
  | invalidEscape
  | invalidNumber
  | numberOutOfRange
  | loneSurrogate
  | brokenSurrogatePair
  | controlCharacter
  | keyNotText
  | trailingComma
  | trailingCharacters
  | tooDeep
  | wrongKind (found : Found) (expected : Expected)
  | wrongWhole (value : Int) (range : String)
  | unknownName (name : String) (known : List String)
  | missingField (name : String)
  | duplicateField (name : String)
  | wrongLength (length : Nat) (record : String) (fields : Nat)
  | noVariant (type : String)
  deriving DecidableEq, Repr

/-- The places of a hexadecimal numeral, without leading zeros. -/
def hexText (n : Nat) : List Char := Nat.toDigits 16 n

/-- A character as it is shown inside a quoted text of a message. -/
def shownChar (c : Char) : List Char :=
  match c with
  | '"' => ['\\', '"']
  | '\\' => ['\\', '\\']
  | '\n' => ['\\', 'n']
  | '\r' => ['\\', 'r']
  | '\t' => ['\\', 't']
  | '\x00' => ['\\', '0']
  | c =>
    if c.toNat < 0x20 ∨ c.toNat = 0x7F then
      '\\' :: 'u' :: '{' :: hexText c.toNat ++ ['}']
    else [c]

/-- A text in quotes as it is shown in a message. -/
def shown (s : String) : String :=
  String.ofList ('"' :: s.toList.flatMap shownChar ++ ['"'])

def Found.message : Found → String
  | null => "null"
  | flag true => "boolean `true`"
  | flag false => "boolean `false`"
  | whole n => "integer `" ++ toString n ++ "`"
  | decimal x => "floating point `" ++ String.ofList x.text ++ "`"
  | text s => "string " ++ shown s
  | array => "sequence"
  | object => "map"

def Expected.message : Expected → String
  | text => "a string"
  | array => "a sequence"
  | null => "unit"
  | whole range => range
  | record name => "struct " ++ name

def Cause.message : Cause → String
  | endInArray => "EOF while parsing a list"
  | endInObject => "EOF while parsing an object"
  | endInText => "EOF while parsing a string"
  | endInValue => "EOF while parsing a value"
  | noColon => "expected `:`"
  | noCommaOrBracket => "expected `,` or `]`"
  | noCommaOrBrace => "expected `,` or `\x7d`"
  | noKeyword => "expected ident"
  | noValue => "expected value"
  | invalidEscape => "invalid escape"
  | invalidNumber => "invalid number"
  | numberOutOfRange => "number out of range"
  | loneSurrogate => "lone leading surrogate in hex escape"
  | brokenSurrogatePair => "unexpected end of hex escape"
  | controlCharacter => "control character (\\u0000-\\u001F) found while parsing a string"
  | keyNotText => "key must be a string"
  | trailingComma => "trailing comma"
  | trailingCharacters => "trailing characters"
  | tooDeep => "recursion limit exceeded"
  | wrongKind found expected =>
    "invalid type: " ++ found.message ++ ", expected " ++ expected.message
  | wrongWhole value range =>
    "invalid value: " ++ (Found.whole value).message ++ ", expected " ++ range
  | unknownName name known =>
    "unknown variant `" ++ name ++ "`, expected one of " ++
      ", ".intercalate (known.map fun k => "`" ++ k ++ "`")
  | missingField name => "missing field `" ++ name ++ "`"
  | duplicateField name => "duplicate field `" ++ name ++ "`"
  | wrongLength length record fields =>
    "invalid length " ++ toString length ++ ", expected struct " ++ record ++ " with " ++
      toString fields ++ " elements"
  | noVariant type => "data did not match any variant of untagged enum " ++ type

/-- A failure while reading: its cause, the text that was left, and how many bytes into that text
the cause lies. -/
structure Failure where
  cause : Cause
  rest : List Char
  ahead : Nat
  deriving DecidableEq, Repr

/-- A failure at the next character, which counts as taken. At the end there is none to count. -/
def Failure.next (cause : Cause) (rest : List Char) : Failure :=
  ⟨cause, rest, if rest.isEmpty then 0 else 1⟩

/-- A place in a text: lines are counted from one, columns by the bytes of the line in front. -/
structure Position where
  line : Nat
  column : Nat
  deriving DecidableEq, Repr

def byteSize (s : List Char) : Nat := s.foldr (fun c size => c.utf8Size + size) 0

namespace Position

def start : Position := ⟨1, 0⟩

/-- The place reached from `place` after so many bytes of a text. -/
def advance (place : Position) : Nat → List Char → Position
  | _, [] => place
  | 0, _ => place
  | bytes + 1, c :: rest =>
    if c = '\n' then advance ⟨place.line + 1, 0⟩ bytes rest
    else
      advance ⟨place.line, place.column + min (bytes + 1) c.utf8Size⟩ (bytes + 1 - c.utf8Size) rest

end Position

/-- Why a whole text was refused. The position is missing when the text was read to its end and
found to be nothing that was asked for. -/
structure Malformation where
  cause : Cause
  position? : Option Position
  deriving DecidableEq, Repr

def Failure.position (f : Failure) (text : List Char) : Position :=
  Position.start.advance (byteSize text - byteSize f.rest + f.ahead) text

def Failure.within (f : Failure) (text : List Char) : Malformation :=
  ⟨f.cause, some (f.position text)⟩

def Malformation.message (m : Malformation) : String :=
  match m.position? with
  | none => m.cause.message
  | some place =>
    m.cause.message ++ " at line " ++ toString place.line ++ " column " ++ toString place.column

end MeasureInference.Json
