import MeasureInference.Json.Failure

/-!
Readers: functions from the text that is left to what they read and the text they leave. Every
loop of a reader runs in `loop`, whose rounds are bounded by the length of the text, since each
round takes at least one character.
-/

namespace MeasureInference.Json

/-- The rest of the keyword that a character opens, and what the keyword stands for. -/
def keywordOf? (c : Char) : Option (List Char × Found) :=
  match c with
  | 'n' => some (['u', 'l', 'l'], .null)
  | 't' => some (['r', 'u', 'e'], .flag true)
  | 'f' => some (['a', 'l', 's', 'e'], .flag false)
  | _ => none

abbrev Reader := StateT (List Char) (Except Failure)

namespace Reader

variable {α β σ : Type}

/-- Fails at the place reached. -/
def failHere (cause : Cause) : Reader α := fun s => .error ⟨cause, s, 0⟩

/-- Fails one byte further, as if the next character had been taken; the end stays the end. -/
def failNext (cause : Cause) : Reader α := fun s => .error (.next cause s)

/-- The next character, which stays in the text. -/
def peek : Reader (Option Char) := fun s => .ok (s.head?, s)

/-- Leaves out the next character. -/
def skip : Reader Unit := fun s => .ok ((), s.tail)

/-- Takes the next character if it is `c`. -/
def accept (c : Char) : Reader Bool
  | [] => .ok (false, [])
  | d :: s => if d = c then .ok (true, s) else .ok (false, d :: s)

/-- Takes the longest row of characters with a property. -/
def takeWhile (p : Char → Bool) : Reader (List Char) :=
  fun s => .ok (s.takeWhile p, s.dropWhile p)

def isSpace (c : Char) : Bool := c = ' ' || c = '\n' || c = '\t' || c = '\r'

/-- Leaves out white space and shows the character that follows. -/
def peekToken : Reader (Option Char) := fun s =>
  let s := s.dropWhile isSpace
  .ok (s.head?, s)

/-- The first character of a value. -/
def startOfValue : Reader Char := do
  match ← peekToken with
  | none => failNext .endInValue
  | some c => pure c

/-- Takes the characters of a keyword, one by one. -/
def keyword : List Char → Reader Unit
  | [] => pure ()
  | c :: rest => do
    match ← peek with
    | none => failNext .endInValue
    | some d => if d = c then do skip; keyword rest else failNext .noKeyword

/-- The colon behind a key. -/
def colon : Reader Unit := do
  match ← peekToken with
  | none => failNext .endInObject
  | some ':' => skip
  | some _ => failNext .noColon

/-- Runs `round` on a state until it answers with a result, at most so many times. -/
def rounds (round : σ → Reader (σ ⊕ β)) : Nat → σ → Reader β
  | 0, _ => failNext .endInValue
  | n + 1, state => do
    match ← round state with
    | .inl next => rounds round n next
    | .inr result => pure result

/-- Runs `round` on a state until it answers with a result. No more rounds are needed than there
are characters, and one to find the end. -/
def loop (round : σ → Reader (σ ⊕ β)) (state : σ) : Reader β :=
  fun s => rounds round (s.length + 1) state s

/-- Collects what `next` reads until it reads nothing. -/
def many (next : Reader (Option α)) : Reader (List α) :=
  loop (fun read : List α => do
    match ← next with
    | some a => pure (.inl (a :: read))
    | none => pure (.inr read.reverse)) []

/-- Only white space is left. -/
def endOfText : Reader Unit := do
  match ← peekToken with
  | none => pure ()
  | some _ => failNext .trailingCharacters

/-- A verdict on a whole text. What may follow a good one is white space. -/
def toEnd (r : Reader (Except Cause α)) : Reader (Except Cause α) := do
  match ← r with
  | .ok a => do
    endOfText
    pure (.ok a)
  | .error cause => pure (.error cause)

/-- Reads a whole text. A cause without a place is one that all of the text is at fault for. -/
def document (r : Reader (Except Cause α)) (text : String) : Except Malformation α :=
  match toEnd r text.toList with
  | .error failure => .error (failure.within text.toList)
  | .ok (.error cause, _) => .error ⟨cause, none⟩
  | .ok (.ok a, _) => .ok a

end Reader

end MeasureInference.Json
