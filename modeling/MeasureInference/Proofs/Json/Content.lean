import MeasureInference.Json.Content
import MeasureInference.Proofs.Json.Typed

/-!
Reading any value, one kind of document after the other.

The first character tells the kind, and the reader of that kind is then run on the text from this
character on. Of what is between brackets no more is followed than that the result, if there is
one, is an array or an object again.
-/

namespace MeasureInference.Json.Reader

variable {space : List Char}

theorem keywordOf?_of_opensNumber {c : Char} (h : opensNumber c = true) :
    keywordOf? c = none := by
  unfold keywordOf?
  split
  · cases h
  · cases h
  · cases h
  · rfl

theorem reads_content_null (depth : Nat) : Reads (content depth) ['n', 'u', 'l', 'l'] .null := by
  refine ⟨Spells.null.opens, fun space rest hspace _ => ?_⟩
  rw [content.eq_def, List.cons_append, bind_of_ok (startOfValue_blank_cons hspace (by decide))]
  rfl

theorem content_flag {value : Bool} {text : List Char} (h : Spells (.flag value) text)
    (depth : Nat) (hspace : Blank space) (rest : List Char) :
    content depth (space ++ (text ++ rest)) = .ok (.flag value, rest) := by
  cases h with
  | trueFlag =>
      rw [content.eq_def, List.cons_append, bind_of_ok (startOfValue_blank_cons hspace (by decide))]
      rfl
  | falseFlag =>
      rw [content.eq_def, List.cons_append, bind_of_ok (startOfValue_blank_cons hspace (by decide))]
      rfl

theorem content_quoted (glyphs : List Glyph) (depth : Nat) (hspace : Blank space)
    (rest : List Char) :
    content depth (space ++ (Glyph.quoted glyphs ++ rest)) =
      (Value.text <$> quotedText) (Glyph.quoted glyphs ++ rest) := by
  rw [content.eq_def, bind_of_ok (startOfValue_quoted glyphs hspace rest)]
  rfl

theorem content_numeral (n : Numeral) (depth : Nat) (hspace : Blank space) (rest : List Char) :
    content depth (space ++ (n.chars ++ rest)) =
      (Value.number <$> number) (n.chars ++ rest) := by
  obtain ⟨c, hc, hstart⟩ := startOfValue_spells (Spells.number n) hspace rest
  have hnumber : opensNumber c = true := hc
  rw [content.eq_def, bind_of_ok hstart, keywordOf?_of_opensNumber hnumber]
  exact congrFun (if_pos hnumber) _

theorem fails_or_ok_map {α β : Type} (r : Reader α) (f : α → β) (s : List Char) :
    Fails (f <$> r) s ∨ ∃ a rest, (f <$> r) s = .ok (f a, rest) := by
  cases hread : r s with
  | error failure => exact .inl (Fails.map ⟨failure, hread⟩ f)
  | ok result => exact .inr ⟨result.1, result.2, map_of_ok hread⟩

/-- What is between square brackets is an array, or nothing that can be read. -/
theorem content_square (depth : Nat) (hspace : Blank space) (s : List Char) :
    Fails (content depth) (space ++ '[' :: s) ∨
      ∃ items rest, content depth (space ++ '[' :: s) = .ok (.array items, rest) := by
  rw [Fails, content.eq_def, bind_of_ok (startOfValue_blank_cons hspace (by decide))]
  cases depth with
  | zero => exact .inl (fails_failNext .tooDeep _)
  | succ depth => exact fails_or_ok_map (elements (content depth)) Value.array ('[' :: s)

theorem content_curly (depth : Nat) (hspace : Blank space) (s : List Char) :
    Fails (content depth) (space ++ '\x7b' :: s) ∨
      ∃ fields rest, content depth (space ++ '\x7b' :: s) = .ok (.object fields, rest) := by
  rw [Fails, content.eq_def, bind_of_ok (startOfValue_blank_cons hspace (by decide))]
  cases depth with
  | zero => exact .inl (fails_failNext .tooDeep _)
  | succ depth => exact fails_or_ok_map (members (content depth)) Value.object ('\x7b' :: s)

end MeasureInference.Json.Reader
