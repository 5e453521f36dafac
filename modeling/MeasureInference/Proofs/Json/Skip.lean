import MeasureInference.Proofs.Json.Numeral
import MeasureInference.Proofs.Json.Quoted

/-!
Every document can be left out.

The scan keeps a stack of open brackets and knows nothing of trees, so what it does to the text of
a document is said in the manner of a continuation: whatever run the scan has behind the document,
with the same brackets open, it has a run to the same end from in front of the document. The
statements for a document, for the further items of an array and for the further members of an
object are proved together, by recursion on how the text is made.
-/

namespace MeasureInference.Json.Reader

/-! ### Single rounds -/

/-- One round of leaving out a value. -/
def skipRound : SkipPoint → Reader (SkipPoint ⊕ Unit)
  | .value enclosing => .inl <$> skipValue enclosing
  | .behind (bracket :: outer) => .inl <$> skipBehind bracket outer
  | .behind [] => pure (.inr ())

theorem skipAny_eq : skipAny = loop skipRound (.value []) := rfl

variable {enclosing : List Bracket} {space before behind s rest : List Char}

/-- A keyword and what it stands for play no part. -/
theorem skipValue_keyword {c : Char} {word : List Char} {found : Found} (hspace : Blank space)
    (hc : isSpace c = false) (hkeyword : keywordOf? c = some (word, found))
    (h : keyword word (word ++ rest) = .ok ((), rest)) :
    skipValue enclosing (space ++ (c :: word ++ rest)) = .ok (.behind enclosing, rest) := by
  have hpeek : peekToken (space ++ (c :: word ++ rest)) = .ok (some c, c :: word ++ rest) :=
    peekToken_blank_cons hspace hc
  rw [skipValue, bind_of_ok hpeek]
  dsimp only
  rw [hkeyword]
  dsimp only
  refine (bind_of_ok (skip_cons c (word ++ rest))).trans ?_
  exact bind_of_ok h

theorem skipValue_number (n : Numeral) (hspace : Blank space) (hrest : Delimited rest) :
    skipValue enclosing (space ++ (n.chars ++ rest)) = .ok (.behind enclosing, rest) := by
  obtain ⟨c, t, hchars, hc⟩ := n.exists_chars_eq_cons
  have hpeek : peekToken (space ++ (n.chars ++ rest)) = .ok (some c, n.chars ++ rest) := by
    rw [hchars]
    exact peekToken_blank_cons hspace (isSpace_of_opensNumber hc)
  have hkeyword : keywordOf? c = none := by
    unfold keywordOf?
    split
    any_goals cases hc
    rfl
  rw [skipValue, bind_of_ok hpeek]
  dsimp only
  rw [hkeyword]
  dsimp only
  rw [if_pos hc]
  refine (bind_of_ok (map_of_ok (accept_minus_chars n rest))).trans ?_
  exact bind_of_ok (skipNumber_chars n hrest)

theorem skipValue_text (glyphs : List Glyph) (hspace : Blank space) :
    skipValue enclosing (space ++ (Glyph.quoted glyphs ++ rest)) =
      .ok (.behind enclosing, rest) := by
  have hpeek : peekToken (space ++ (Glyph.quoted glyphs ++ rest)) =
      .ok (some '"', Glyph.quoted glyphs ++ rest) :=
    peekToken_blank_cons hspace (by decide)
  rw [skipValue, bind_of_ok hpeek]
  exact bind_of_ok (skipText_quoted glyphs rest)

theorem skipValue_square (hspace : Blank space) :
    skipValue enclosing (space ++ '[' :: s) = skipInto .square enclosing s := by
  rw [skipValue, bind_of_ok (peekToken_blank_cons hspace (by decide))]
  rfl

theorem skipValue_curly (hspace : Blank space) :
    skipValue enclosing (space ++ '\x7b' :: s) = skipInto .curly enclosing s := by
  rw [skipValue, bind_of_ok (peekToken_blank_cons hspace (by decide))]
  rfl

theorem isSpace_closing (bracket : Bracket) : isSpace bracket.closing = false := by
  cases bracket <;> rfl

/-- Empty brackets. -/
theorem skipInto_close (bracket : Bracket) (hspace : Blank space) :
    skipInto bracket enclosing (space ++ bracket.closing :: rest) =
      .ok (.behind enclosing, rest) := by
  rw [skipInto, bind_of_ok (peekToken_blank_cons hspace (isSpace_closing bracket))]
  dsimp only
  rw [if_pos rfl]
  rfl

theorem skipInto_square {text : List Char} (hspace : Blank space) (h : Opens text) :
    skipInto .square enclosing (space ++ (text ++ rest)) =
      .ok (.value (.square :: enclosing), text ++ rest) := by
  obtain ⟨c, t, rfl, hc, hsquare, -⟩ := h
  have hpeek : peekToken (space ++ (c :: t ++ rest)) = .ok (some c, c :: t ++ rest) :=
    peekToken_blank_cons hspace hc
  have hopening : c ≠ Bracket.square.closing := hsquare
  rw [skipInto, bind_of_ok hpeek]
  dsimp only
  rw [if_neg hopening]
  rfl

/-- A key of any glyphs and its colon. -/
theorem skipKey_quoted (key : List Glyph) (hspace : Blank space) (hbefore : Blank before) :
    skipKey (space ++ (Glyph.quoted key ++ (before ++ ':' :: s))) = .ok ((), s) := by
  have hpeek : peekToken (space ++ (Glyph.quoted key ++ (before ++ ':' :: s))) =
      .ok (some '"', Glyph.quoted key ++ (before ++ ':' :: s)) :=
    peekToken_blank_cons hspace (by decide)
  rw [skipKey, bind_of_ok hpeek]
  exact (bind_of_ok (skipText_quoted key _)).trans (colon_blank hbefore)

theorem skipInto_curly (hspace : Blank space) (h : skipKey ('"' :: s) = .ok ((), rest)) :
    skipInto .curly enclosing (space ++ '"' :: s) = .ok (.value (.curly :: enclosing), rest) := by
  rw [skipInto, bind_of_ok (peekToken_blank_cons hspace (by decide))]
  exact bind_of_ok h

theorem skipBehind_close (bracket : Bracket) (hspace : Blank space) :
    skipBehind bracket enclosing (space ++ bracket.closing :: rest) =
      .ok (.behind enclosing, rest) := by
  rw [skipBehind, bind_of_ok (peekToken_blank_cons hspace (isSpace_closing bracket))]
  cases bracket <;> rfl

theorem skipBehind_square (hspace : Blank space) :
    skipBehind .square enclosing (space ++ ',' :: s) = .ok (.value (.square :: enclosing), s) := by
  rw [skipBehind, bind_of_ok (peekToken_blank_cons hspace (by decide))]
  rfl

theorem skipBehind_curly (hspace : Blank space) (h : skipKey s = .ok ((), rest)) :
    skipBehind .curly enclosing (space ++ ',' :: s) = .ok (.value (.curly :: enclosing), rest) := by
  rw [skipBehind, bind_of_ok (peekToken_blank_cons hspace (by decide))]
  exact (bind_of_ok (skip_cons ',' s)).trans (bind_of_ok h)

/-! ### Whole runs -/

/-- Taking up the parts inside brackets, from the first one on or behind one. -/
def skipPart (first : Bool) (bracket : Bracket) (enclosing : List Bracket) : Reader SkipPoint :=
  if first then skipInto bracket enclosing else skipBehind bracket enclosing

theorem skipPart_close (first : Bool) (bracket : Bracket) (hspace : Blank space) :
    skipPart first bracket enclosing (space ++ bracket.closing :: rest) =
      .ok (.behind enclosing, rest) := by
  cases first with
  | true => exact skipInto_close bracket hspace
  | false => exact skipBehind_close bracket hspace

/-- What is taken up goes on to the end. The first part need not take any character, since its
bracket is taken already. -/
def Continues (first : Bool) (bracket : Bracket) (enclosing : List Bracket) (s left : List Char) :
    Prop :=
  ∃ point mid, skipPart first bracket enclosing s = .ok (point, mid) ∧
    mid.length < s.length + first.toNat ∧ Runs skipRound point mid () left

theorem runs_value {point : SkipPoint} {left : List Char}
    (h : skipValue enclosing s = .ok (point, rest)) (hshorter : rest.length < s.length)
    (hrun : Runs skipRound point rest () left) : Runs skipRound (.value enclosing) s () left :=
  .next (map_of_ok h) hshorter hrun

theorem Continues.runs {bracket : Bracket} {left : List Char}
    (h : Continues false bracket enclosing s left) :
    Runs skipRound (.behind (bracket :: enclosing)) s () left := by
  obtain ⟨point, mid, hpart, hshorter, hrun⟩ := h
  exact .next (map_of_ok hpart) hshorter hrun

theorem Continues.runs_value {opening : Char} {bracket : Bracket} {left : List Char}
    (h : Continues true bracket enclosing s left)
    (hopening : skipValue enclosing (space ++ opening :: s) = skipInto bracket enclosing s) :
    Runs skipRound (.value enclosing) (space ++ opening :: s) () left := by
  obtain ⟨point, mid, hpart, hshorter, hrun⟩ := h
  refine Reader.runs_value (hopening.trans hpart) ?_ hrun
  rw [Bool.toNat_true] at hshorter
  simp only [List.length_append, List.length_cons]
  omega

mutual

/-- From a document the scan goes on to what follows. -/
theorem runs_of_spells {left : List Char} {doc : Document} {text : List Char} :
    Spells doc text → ∀ {enclosing : List Bracket} {space rest : List Char}, Blank space →
      Delimited rest → Runs skipRound (.behind enclosing) rest () left →
      Runs skipRound (.value enclosing) (space ++ (text ++ rest)) () left
  | .null, _, space, rest, hspace, _, hrun =>
    runs_value (skipValue_keyword hspace rfl rfl rfl) (by simp; omega) hrun
  | .trueFlag, _, space, rest, hspace, _, hrun =>
    runs_value (skipValue_keyword hspace rfl rfl rfl) (by simp; omega) hrun
  | .falseFlag, _, space, rest, hspace, _, hrun =>
    runs_value (skipValue_keyword hspace rfl rfl rfl) (by simp; omega) hrun
  | .number n, _, space, rest, hspace, hrest, hrun => by
    have hpos := (Spells.number n).length_pos
    refine runs_value (skipValue_number n hspace hrest) ?_ hrun
    simp only [List.length_append]
    omega
  | .text glyphs, _, space, rest, hspace, _, hrun => by
    have hpos := Glyph.length_quoted_pos glyphs
    refine runs_value (skipValue_text glyphs hspace) ?_ hrun
    simp only [List.length_append]
    omega
  | .array hitems, _, _, _, hspace, hrest, hrun =>
    (continues_of_spellsItems hitems hrest hrun).runs_value (skipValue_square hspace)
  | .object hmembers, _, _, _, hspace, hrest, hrun =>
    (continues_of_spellsMembers hmembers hrest hrun).runs_value (skipValue_curly hspace)

theorem continues_of_spellsItems {left : List Char} {first : Bool} {items : List Document}
    {body : List Char} :
    SpellsItems first items body → ∀ {enclosing : List Bracket} {rest : List Char},
      Delimited rest → Runs skipRound (.behind enclosing) rest () left →
      Continues first .square enclosing (body ++ rest) left
  | @SpellsItems.close first space hspace, _, rest, _, hrun => by
    have hsplit : space ++ [']'] ++ rest = space ++ ']' :: rest := by simp
    rw [hsplit]
    refine ⟨_, _, skipPart_close first .square hspace, ?_, hrun⟩
    simp only [List.length_append, List.length_cons]
    omega
  | @SpellsItems.first space text more _ _ hspace hitem hitems, _, rest, hrest, hrun => by
    have hsplit : space ++ (text ++ more) ++ rest = space ++ (text ++ (more ++ rest)) := by simp
    rw [hsplit]
    refine ⟨_, _, skipInto_square hspace hitem.opens, ?_,
      runs_of_spells hitem blank_nil (hitems.delimited rest)
        (continues_of_spellsItems hitems hrest hrun).runs⟩
    simp only [List.length_append, Bool.toNat_true]
    omega
  | @SpellsItems.further before behind text more _ _ hbefore hbehind hitem hitems, _, rest, hrest,
      hrun => by
    have hsplit : before ++ ',' :: (behind ++ (text ++ more)) ++ rest =
        before ++ ',' :: (behind ++ (text ++ (more ++ rest))) := by simp
    rw [hsplit]
    refine ⟨_, _, skipBehind_square hbefore, ?_,
      runs_of_spells hitem hbehind (hitems.delimited rest)
        (continues_of_spellsItems hitems hrest hrun).runs⟩
    simp only [List.length_append, List.length_cons]
    omega

/-- A key and its colon lead to a value. -/
theorem runs_of_spellsMember {left : List Char} {member : List Glyph × Document}
    {text : List Char} :
    SpellsMember member text → ∀ {enclosing : List Bracket} {rest : List Char}, Delimited rest →
      Runs skipRound (.behind enclosing) rest () left → ∀ {space : List Char}, Blank space →
      ∃ mid, skipKey (space ++ (text ++ rest)) = .ok ((), mid) ∧
        mid.length < (space ++ (text ++ rest)).length ∧
        Runs skipRound (.value enclosing) mid () left
  | @SpellsMember.mk before behind text _ key hbefore hbehind hvalue, _, rest, hrest, hrun, space,
      hspace => by
    have hsplit : space ++ (Glyph.quoted key ++ (before ++ ':' :: (behind ++ text)) ++ rest) =
        space ++ (Glyph.quoted key ++ (before ++ ':' :: (behind ++ (text ++ rest)))) := by simp
    rw [hsplit]
    refine ⟨_, skipKey_quoted key hspace hbefore, ?_, runs_of_spells hvalue hbehind hrest hrun⟩
    simp only [List.length_append, List.length_cons]
    omega

theorem continues_of_spellsMembers {left : List Char} {first : Bool}
    {members : List (List Glyph × Document)} {body : List Char} :
    SpellsMembers first members body → ∀ {enclosing : List Bracket} {rest : List Char},
      Delimited rest → Runs skipRound (.behind enclosing) rest () left →
      Continues first .curly enclosing (body ++ rest) left
  | @SpellsMembers.close first space hspace, _, rest, _, hrun => by
    have hsplit : space ++ ['\x7d'] ++ rest = space ++ '\x7d' :: rest := by simp
    rw [hsplit]
    refine ⟨_, _, skipPart_close first .curly hspace, ?_, hrun⟩
    simp only [List.length_append, List.length_cons]
    omega
  | @SpellsMembers.first space text more _ _ hspace hmember hmembers, _, rest, hrest, hrun => by
    obtain ⟨mid, hkey, hshorter, hvalue⟩ := runs_of_spellsMember hmember (hmembers.delimited rest)
      (continues_of_spellsMembers hmembers hrest hrun).runs blank_nil
    obtain ⟨t, rfl⟩ := hmember.exists_cons
    have hsplit : space ++ ('"' :: t ++ more) ++ rest = space ++ '"' :: (t ++ (more ++ rest)) := by
      simp
    rw [hsplit]
    refine ⟨_, _, skipInto_curly hspace hkey, ?_, hvalue⟩
    simp only [List.length_append, List.length_cons, List.nil_append, Bool.toNat_true]
      at hshorter ⊢
    omega
  | @SpellsMembers.further before behind text more _ _ hbefore hbehind hmember hmembers, _, rest,
      hrest, hrun => by
    obtain ⟨mid, hkey, hshorter, hvalue⟩ := runs_of_spellsMember hmember (hmembers.delimited rest)
      (continues_of_spellsMembers hmembers hrest hrun).runs hbehind
    have hsplit : before ++ ',' :: (behind ++ (text ++ more)) ++ rest =
        before ++ ',' :: (behind ++ (text ++ (more ++ rest))) := by simp
    rw [hsplit]
    refine ⟨_, _, skipBehind_curly hbefore hkey, ?_, hvalue⟩
    simp only [List.length_append, List.length_cons] at hshorter ⊢
    omega

end

/-- Every document is left out, whatever is in it. -/
theorem reads_skipAny {doc : Document} {text : List Char} (h : Spells doc text) :
    Reads skipAny text () where
  opens := h.opens
  eq_ok space rest hspace hrest := by
    rw [skipAny_eq]
    exact (runs_of_spells h hspace hrest (.last rfl)).loop

end MeasureInference.Json.Reader
