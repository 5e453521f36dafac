import MeasureInference.Json.Skip
import MeasureInference.Proofs.Json.Verdict

/-!
Texts in quotes, read and left out, in every way in which they can be written.

What one glyph means may depend on the glyph behind it, since a leading surrogate is read together
with its partner. So reading is followed along the recursion of `charsOf?`, which takes one glyph
or a pair at a time. Leaving a text out looks at each glyph alone and cannot fail.
-/

namespace MeasureInference.Json

theorem Glyph.chars_ne_nil (g : Glyph) : g.chars ≠ [] := by
  cases g <;> exact List.cons_ne_nil _ _

theorem Glyph.length_pos (g : Glyph) : 0 < g.chars.length := List.length_pos_iff.mpr g.chars_ne_nil

theorem length_le_byteSize (s : List Char) : s.length ≤ byteSize s := by
  induction s with
  | nil => exact Nat.le_refl 0
  | cons c s ih =>
      have hc := Char.utf8Size_pos c
      have hcons : byteSize (c :: s) = c.utf8Size + byteSize s := rfl
      rw [hcons, List.length_cons]
      omega

namespace Reader

/-! ### One glyph -/

theorem quotedChar_backslash (s : List Char) :
    quotedChar ('\\' :: s) = (some <$> escaped) s := by
  rw [quotedChar, bind_of_ok (peek_cons '\\' s)]
  rfl

theorem quotedChar_plain {c : Char} (hquote : c ≠ '"') (hbackslash : c ≠ '\\')
    (hcontrol : isControl c = false) (rest : List Char) :
    quotedChar (c :: rest) = .ok (some c, rest) := by
  rw [quotedChar, bind_of_ok (peek_cons c rest)]
  -- The two characters with a branch of their own are excluded by `hquote` and `hbackslash`.
  simp only [hcontrol]
  rfl

theorem quotedChar_letter {letter c : Char} (h : escapedBy? letter = some c) (rest : List Char) :
    quotedChar ('\\' :: letter :: rest) = .ok (some c, rest) := by
  unfold escapedBy? at h
  split at h
  all_goals first
    | cases h; rfl
    | cases h

theorem hexQuad_of_digits {a b c d : Char} {m n p q : Nat} {rest : List Char}
    (ha : hexDigit? a = some m) (hb : hexDigit? b = some n) (hc : hexDigit? c = some p)
    (hd : hexDigit? d = some q) :
    hexQuad (a :: b :: c :: d :: rest) = .ok (((m * 16 + n) * 16 + p) * 16 + q, rest) := by
  have hlong : ¬byteSize ((a :: b :: c :: d :: rest).take 4) < 4 :=
    Nat.not_lt_of_le (length_le_byteSize [a, b, c, d])
  rw [hexQuad, if_neg hlong]
  simp only [ha, hb, hc, hd]

theorem hexQuad_unit (a b c d : HexDigit) (rest : List Char) :
    hexQuad (a.char :: b.char :: c.char :: d.char :: rest) = .ok (unitValue a b c d, rest) :=
  hexQuad_of_digits a.eq_value b.eq_value c.eq_value d.eq_value

theorem quotedChar_unit (a b c d : HexDigit) (rest : List Char) :
    quotedChar ((Glyph.unit a b c d).chars ++ rest) =
      (some <$> codePoint) (a.char :: b.char :: c.char :: d.char :: rest) := by
  show quotedChar ('\\' :: 'u' :: a.char :: b.char :: c.char :: d.char :: rest) = _
  rw [quotedChar_backslash]
  rfl

section Surrogates

variable {a b c d : HexDigit} {rest : List Char}

theorem fails_quotedChar_trailing (h : isTrailingSurrogate (unitValue a b c d) = true) :
    Fails quotedChar ((Glyph.unit a b c d).chars ++ rest) := by
  have hcode : Fails codePoint (a.char :: b.char :: c.char :: d.char :: rest) := by
    refine fails_bind_of_ok (hexQuad_unit a b c d rest) ?_
    rw [if_pos h]
    exact fails_failHere _ _
  rw [Fails, quotedChar_unit]
  exact hcode.map some

theorem quotedChar_unit_alone (htrailing : isTrailingSurrogate (unitValue a b c d) = false)
    (hleading : isLeadingSurrogate (unitValue a b c d) = false) :
    quotedChar ((Glyph.unit a b c d).chars ++ rest) =
      .ok (some (Char.ofNat (unitValue a b c d)), rest) := by
  rw [quotedChar_unit]
  apply map_of_ok
  rw [codePoint, bind_of_ok (hexQuad_unit a b c d rest), htrailing, if_neg Bool.false_ne_true,
    hleading, if_neg Bool.false_ne_true]
  rfl

theorem codePoint_leading (htrailing : isTrailingSurrogate (unitValue a b c d) = false)
    (hleading : isLeadingSurrogate (unitValue a b c d) = true) :
    codePoint (a.char :: b.char :: c.char :: d.char :: rest) =
      (do
        pairLink ['\\', 'u']
        let second ← hexQuad
        if isTrailingSurrogate second then pure (pairedChar (unitValue a b c d) second)
        else failHere .loneSurrogate : Reader Char) rest := by
  rw [codePoint, bind_of_ok (hexQuad_unit a b c d rest), htrailing, if_neg Bool.false_ne_true,
    if_pos hleading]
  rfl

theorem pairLink_unit (s : List Char) : pairLink ['\\', 'u'] ('\\' :: 'u' :: s) = .ok ((), s) := rfl

/-- A leading surrogate is read with its partner. -/
theorem quotedChar_pair {p q r s : HexDigit}
    (htrailing : isTrailingSurrogate (unitValue a b c d) = false)
    (hleading : isLeadingSurrogate (unitValue a b c d) = true)
    (hsecond : isTrailingSurrogate (unitValue p q r s) = true) :
    quotedChar ((Glyph.unit a b c d).chars ++ ((Glyph.unit p q r s).chars ++ rest)) =
      .ok (some (pairedChar (unitValue a b c d) (unitValue p q r s)), rest) := by
  rw [quotedChar_unit]
  apply map_of_ok
  rw [codePoint_leading htrailing hleading]
  refine (bind_of_ok (pairLink_unit (p.char :: q.char :: r.char :: s.char :: rest))).trans ?_
  rw [bind_of_ok (hexQuad_unit p q r s rest), if_pos hsecond]
  rfl

/-- Another unit than a trailing surrogate is no partner. -/
theorem fails_quotedChar_pair {p q r s : HexDigit}
    (htrailing : isTrailingSurrogate (unitValue a b c d) = false)
    (hleading : isLeadingSurrogate (unitValue a b c d) = true)
    (hsecond : isTrailingSurrogate (unitValue p q r s) = false) :
    Fails quotedChar ((Glyph.unit a b c d).chars ++ ((Glyph.unit p q r s).chars ++ rest)) := by
  rw [Fails, quotedChar_unit]
  refine Fails.map ?_ some
  rw [Fails, codePoint_leading htrailing hleading]
  refine fails_bind_of_ok (pairLink_unit (p.char :: q.char :: r.char :: s.char :: rest)) ?_
  refine fails_bind_of_ok (hexQuad_unit p q r s rest) ?_
  rw [hsecond, if_neg Bool.false_ne_true]
  exact fails_failHere _ _

/-- A leading surrogate without another unit behind it is refused. -/
theorem fails_quotedChar_leading (htrailing : isTrailingSurrogate (unitValue a b c d) = false)
    (hleading : isLeadingSurrogate (unitValue a b c d) = true)
    (hlink : Fails (pairLink ['\\', 'u']) rest) :
    Fails quotedChar ((Glyph.unit a b c d).chars ++ rest) := by
  rw [Fails, quotedChar_unit]
  refine Fails.map ?_ some
  rw [Fails, codePoint_leading htrailing hleading]
  exact hlink.bind _

end Surrogates

theorem fails_pairLink_cons {c : Char} (h : c ≠ '\\') (s : List Char) :
    Fails (pairLink ['\\', 'u']) (c :: s) := by
  refine fails_bind_of_ok (peek_cons c s) ?_
  dsimp only
  rw [if_neg h]
  exact fails_failNext _ _

theorem fails_pairLink_letter {letter c : Char} (h : escapedBy? letter = some c)
    (s : List Char) : Fails (pairLink ['\\', 'u']) ('\\' :: letter :: s) := by
  have hletter : letter ≠ 'u' := by
    rintro rfl
    cases h
  refine fails_bind_of_ok (peek_cons '\\' _) ?_
  dsimp only
  rw [if_pos rfl]
  refine fails_bind_of_ok (skip_cons '\\' _) (fails_bind_of_ok (peek_cons letter s) ?_)
  dsimp only
  rw [if_neg hletter]
  exact fails_failNext _ _

/-! ### Reading -/

theorem manyRound_some {α : Type} {next : Reader (Option α)} {s rest : List Char} {a : α}
    (h : next s = .ok (some a, rest)) (read : List α) :
    manyRound next read s = .ok (.inl (a :: read), rest) := by
  rw [manyRound, bind_of_ok h]
  rfl

theorem Fails.manyRound {α : Type} {next : Reader (Option α)} {s : List Char} (h : Fails next s)
    (read : List α) : Fails (Reader.manyRound next read) s :=
  h.bind _

/-- The characters in front of a rest, or a failure. -/
def CharsRun (read s rest : List Char) : Option (List Char) → Prop
  | some cs => Runs (manyRound quotedChar) read s (read.reverse ++ cs) rest
  | none => Stops (manyRound quotedChar) read s

theorem CharsRun.cons {read s mid rest : List Char} {c : Char} {verdict : Option (List Char)}
    (h : quotedChar s = .ok (some c, mid)) (hshorter : mid.length < s.length)
    (hrun : CharsRun (c :: read) mid rest verdict) :
    CharsRun read s rest (verdict.map (c :: ·)) := by
  have hround := manyRound_some h read
  cases verdict with
  | none => exact Stops.next hround hshorter hrun
  | some cs =>
      have hread : read.reverse ++ c :: cs = (c :: read).reverse ++ cs := by simp
      show Runs _ _ _ (read.reverse ++ c :: cs) _
      rw [hread]
      exact .next hround hshorter hrun

theorem flatMap_chars_cons (g : Glyph) (glyphs : List Glyph) (rest : List Char) :
    (g :: glyphs).flatMap Glyph.chars ++ rest =
      g.chars ++ (glyphs.flatMap Glyph.chars ++ rest) := by
  simp

/-- What may stand behind a leading surrogate and is not another unit keeps it alone. -/
theorem fails_pairLink_of_not_unit {glyphs : List Glyph}
    (h : ∀ a b c d more, glyphs = .unit a b c d :: more → False) (rest : List Char) :
    Fails (pairLink ['\\', 'u']) (glyphs.flatMap Glyph.chars ++ '"' :: rest) := by
  cases glyphs with
  | nil => exact fails_pairLink_cons (by decide) rest
  | cons g glyphs =>
      rw [flatMap_chars_cons]
      cases g with
      | plain c hc => exact fails_pairLink_cons hc.2.1 _
      | letter letter c hletter => exact fails_pairLink_letter hletter _
      | unit a b c d => exact (h a b c d glyphs rfl).elim

/-- The run over the glyphs of a text reaches its end if they stand for characters. -/
theorem charsRun (glyphs : List Glyph) (rest read : List Char) :
    CharsRun read (glyphs.flatMap Glyph.chars ++ '"' :: rest) rest (charsOf? glyphs) := by
  have hshorter (g : Glyph) (s : List Char) : s.length < (g.chars ++ s).length := by
    have hpos := g.length_pos
    rw [List.length_append]
    omega
  induction glyphs using charsOf?.induct generalizing read with
  | case1 =>
      have hclose : manyRound quotedChar read ('"' :: rest) = .ok (.inr read.reverse, rest) := rfl
      show Runs _ _ _ (read.reverse ++ []) _
      rw [List.append_nil]
      exact .last hclose
  | case2 c h glyphs ih =>
      rw [charsOf?, flatMap_chars_cons]
      exact CharsRun.cons (quotedChar_plain h.1 h.2.1 h.2.2 _) (hshorter _ _) (ih (c :: read))
  | case3 letter c h glyphs ih =>
      rw [charsOf?, flatMap_chars_cons]
      exact CharsRun.cons (quotedChar_letter h _) (hshorter _ _) (ih (c :: read))
  | case4 a b c d glyphs first htrailing =>
      rw [charsOf?.eq_def, flatMap_chars_cons]
      dsimp only
      rw [if_pos htrailing]
      exact Stops.here ((fails_quotedChar_trailing htrailing).manyRound read)
  | case5 a b c d first htrailing hleading p q r s glyphs second hsecond ih =>
      rw [charsOf?.eq_def, flatMap_chars_cons, flatMap_chars_cons]
      dsimp only
      rw [if_neg htrailing, if_pos hleading, if_pos hsecond]
      exact CharsRun.cons (quotedChar_pair (Bool.eq_false_iff.mpr htrailing) hleading hsecond)
        (Nat.lt_trans (hshorter _ _) (hshorter _ _)) (ih _)
  | case6 a b c d first htrailing hleading p q r s glyphs second hsecond =>
      rw [charsOf?.eq_def, flatMap_chars_cons, flatMap_chars_cons]
      dsimp only
      rw [if_neg htrailing, if_pos hleading, if_neg hsecond]
      exact Stops.here ((fails_quotedChar_pair (Bool.eq_false_iff.mpr htrailing) hleading
        (Bool.eq_false_iff.mpr hsecond)).manyRound read)
  | case7 a b c d glyphs first htrailing hleading hunit =>
      rw [charsOf?, flatMap_chars_cons, if_neg htrailing, if_pos hleading]
      · exact Stops.here ((fails_quotedChar_leading (Bool.eq_false_iff.mpr htrailing) hleading
          (fails_pairLink_of_not_unit hunit rest)).manyRound read)
      · exact hunit
  | case8 a b c d glyphs first htrailing hleading ih =>
      rw [charsOf?.eq_def, flatMap_chars_cons]
      dsimp only
      rw [if_neg htrailing, if_neg hleading]
      exact CharsRun.cons (quotedChar_unit_alone (Bool.eq_false_iff.mpr htrailing)
        (Bool.eq_false_iff.mpr hleading)) (hshorter _ _) (ih _)

theorem quoted_append (glyphs : List Glyph) (rest : List Char) :
    Glyph.quoted glyphs ++ rest = '"' :: (glyphs.flatMap Glyph.chars ++ '"' :: rest) := by
  simp [Glyph.quoted]

/-- Glyphs in quotes are read as the text they stand for. -/
theorem quotedText_of_textOf? {glyphs : List Glyph} {s : String} (h : textOf? glyphs = some s)
    (rest : List Char) : quotedText (Glyph.quoted glyphs ++ rest) = .ok (s, rest) := by
  obtain ⟨cs, hcs, rfl⟩ := Option.map_eq_some_iff.mp h
  have hrun := charsRun glyphs rest []
  rw [hcs] at hrun
  rw [quoted_append, quotedText, bind_of_ok (skip_cons _ _), textBody, many_eq]
  exact map_of_ok (Runs.loop hrun)

/-- Glyphs in quotes that stand for no text are refused. -/
theorem fails_quotedText {glyphs : List Glyph} (h : textOf? glyphs = none) (rest : List Char) :
    Fails quotedText (Glyph.quoted glyphs ++ rest) := by
  have hrun := charsRun glyphs rest []
  rw [Option.map_eq_none_iff.mp h] at hrun
  rw [quoted_append]
  refine fails_bind_of_ok (skip_cons _ _) (Fails.map ?_ String.ofList)
  rw [many_eq]
  exact Stops.loop hrun

/-! ### Leaving out -/

theorem skipQuotedChar_glyph (g : Glyph) (s : List Char) :
    skipQuotedChar (g.chars ++ s) = .ok (some (), s) := by
  cases g with
  | plain c h =>
      obtain ⟨hquote, hbackslash, hcontrol⟩ := h
      show skipQuotedChar (c :: s) = _
      rw [skipQuotedChar, bind_of_ok (peek_cons c s)]
      -- Again `hquote` and `hbackslash` exclude the branches for two characters.
      simp only [hcontrol]
      rfl
  | letter letter c h =>
      unfold escapedBy? at h
      split at h
      all_goals first
        | cases h; rfl
        | cases h
  | unit a b c d =>
      show (discard hexQuad >>= fun _ => pure (some ())) _ = _
      exact bind_of_ok (map_of_ok (hexQuad_unit a b c d s))

/-- A text in quotes is left out whatever it stands for. -/
theorem skipText_quoted (glyphs : List Glyph) (rest : List Char) :
    skipText (Glyph.quoted glyphs ++ rest) = .ok ((), rest) := by
  have hmany : many skipQuotedChar (glyphs.flatMap Glyph.chars ++ (['"'] ++ rest)) =
      .ok (glyphs.map fun _ => (), rest) :=
    many_flatMap skipQuotedChar_glyph Glyph.chars_ne_nil rfl glyphs
  rw [quoted_append, skipText, bind_of_ok (skip_cons _ _)]
  exact map_of_ok hmany

end Reader

end MeasureInference.Json
