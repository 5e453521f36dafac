/-!
Free text as people type it. A word is compared without the blank characters around it and
without regard to the case of ASCII letters; letters beyond ASCII keep their case.
-/

namespace MeasureInference.Text

/-- Closed ranges of the code points with the Unicode property White_Space, ascending and apart. -/
def blankRanges : List (Nat × Nat) :=
  [(0x09, 0x0D), (0x20, 0x20), (0x85, 0x85), (0xA0, 0xA0), (0x1680, 0x1680), (0x2000, 0x200A),
    (0x2028, 0x2029), (0x202F, 0x202F), (0x205F, 0x205F), (0x3000, 0x3000)]

def isBlank (c : Char) : Bool :=
  blankRanges.any fun range => range.1 ≤ c.toNat && c.toNat ≤ range.2

/-- The text without the blanks at either end. -/
def trim (s : List Char) : List Char :=
  ((s.dropWhile isBlank).reverse.dropWhile isBlank).reverse

/-- The word that a free spelling stands for. -/
def word (s : String) : String :=
  String.ofList ((trim s.toList).map Char.toLower)

end MeasureInference.Text
