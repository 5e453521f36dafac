import MeasureInference.Json.Quoted
import MeasureInference.Json.Numeral

/-!
Leaving out a value that nobody asked for. The value is scanned and not decoded: it may be nested
to any depth, its numbers may have any size, and its escaped surrogates need no partners. The
brackets that are still open form a stack.
-/

namespace MeasureInference.Json

inductive Bracket where
  | square
  | curly
  deriving DecidableEq, Repr

namespace Bracket

def closing : Bracket → Char
  | square => ']'
  | curly => '}'

/-- The cause when the text ends inside these brackets. -/
def openEnd : Bracket → Cause
  | square => .endInArray
  | curly => .endInObject

/-- The cause when something else follows a value inside these brackets. -/
def noComma : Bracket → Cause
  | square => .noCommaOrBracket
  | curly => .noCommaOrBrace

end Bracket

/-- How far skipping has come: in front of a value or behind one, inside some open brackets. -/
inductive SkipPoint where
  | value (enclosing : List Bracket)
  | behind (enclosing : List Bracket)
  deriving DecidableEq, Repr

namespace Reader

def skipDigits : Reader Unit := discard (takeWhile Char.isDigit)

/-- At least one digit. -/
def skipSomeDigits : Reader Unit := do
  unless ← peekDigit do failNext .invalidNumber
  skipDigits

/-- The digits in front of a point. No digit follows a leading zero. -/
def skipInteger : Reader Unit := do
  match ← accept '0', ← peekDigit with
  | true, true => failNext .invalidNumber
  | true, false => pure ()
  | false, _ => skipSomeDigits

/-- A number of any size, its sign already taken. -/
def skipNumber : Reader Unit := do
  skipInteger
  if ← accept '.' then skipSomeDigits
  if ← acceptExponentMark then
    unless ← accept '-' do discard (accept '+')
    skipSomeDigits

/-- One character of a text in quotes, or nothing at the closing quote. -/
def skipQuotedChar : Reader (Option Unit) := do
  match ← peek with
  | none => failHere .endInText
  | some '"' => skip; pure none
  | some '\\' =>
    skip
    match ← peek with
    | none => failHere .endInText
    | some 'u' => skip; discard hexQuad; pure (some ())
    | some letter =>
      if (escapedBy? letter).isSome then do skip; pure (some ()) else failNext .invalidEscape
  | some c => if isControl c then failHere .controlCharacter else do skip; pure (some ())

/-- A text in quotes, its opening quote being next. -/
def skipText : Reader Unit := do
  skip
  discard (many skipQuotedChar)

/-- A key and its colon. -/
def skipKey : Reader Unit := do
  match ← peekToken with
  | none => failNext .endInObject
  | some '"' => skipText; colon
  | some _ => failNext .keyNotText

/-- What follows an opening bracket, which is already taken. -/
def skipInto (bracket : Bracket) (enclosing : List Bracket) : Reader SkipPoint := do
  match ← peekToken with
  | none => failNext bracket.openEnd
  | some c =>
    if c = bracket.closing then do skip; pure (.behind enclosing)
    else do
      if bracket = .curly then skipKey
      pure (.value (bracket :: enclosing))

/-- One value without parts, or one opening bracket. -/
def skipValue (enclosing : List Bracket) : Reader SkipPoint := do
  match ← peekToken with
  | none => failNext .endInValue
  | some c =>
    match keywordOf? c with
    | some (word, _) => skip; keyword word; pure (.behind enclosing)
    | none =>
      if opensNumber c then do discard (accept '-'); skipNumber; pure (.behind enclosing)
      else if c = '"' then do skipText; pure (.behind enclosing)
      else if c = '[' then do skip; skipInto .square enclosing
      else if c = '{' then do skip; skipInto .curly enclosing
      else failNext .noValue

/-- One comma or one closing bracket. -/
def skipBehind (bracket : Bracket) (outer : List Bracket) : Reader SkipPoint := do
  match ← peekToken with
  | none => failNext bracket.openEnd
  | some c =>
    if c = ',' then do
      skip
      if bracket = .curly then skipKey
      pure (.value (bracket :: outer))
    else if c = bracket.closing then do skip; pure (.behind outer)
    else failNext bracket.noComma

/-- Leaves out one value with all its parts. -/
def skipAny : Reader Unit :=
  loop (fun
    | .value enclosing => .inl <$> skipValue enclosing
    | .behind (bracket :: outer) => .inl <$> skipBehind bracket outer
    | .behind [] => pure (.inr ())) (SkipPoint.value [])

end Reader

end MeasureInference.Json
