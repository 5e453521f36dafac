import Mathlib.Data.List.Forall2
import Mathlib.Data.List.TakeWhile
import MeasureInference.Fault

/-!
Free spellings: which texts are read as a measure or as a mode.

A spelling is an accepted word between blanks, its ASCII letters in either case. Reading takes the
blanks off first and lowers the letters then. Neither step disturbs the other, because a letter does
not become a blank, nor a blank a letter, when its case changes. So what a text is reduced to depends
only on the letters between its blanks, and it is an accepted word exactly when they spell that word.
-/

namespace MeasureInference

namespace Text

/-- The code points with the Unicode property White_Space. -/
def whiteSpace : List Nat :=
  [0x09, 0x0A, 0x0B, 0x0C, 0x0D, 0x20, 0x85, 0xA0, 0x1680, 0x2000, 0x2001, 0x2002, 0x2003, 0x2004,
    0x2005, 0x2006, 0x2007, 0x2008, 0x2009, 0x200A, 0x2028, 0x2029, 0x202F, 0x205F, 0x3000]

/-- A text of white space only. -/
def White (s : String) : Prop := ∀ c ∈ s.toList, c.toNat ∈ whiteSpace

/-- The same character, or the two cases of an ASCII letter. -/
def SameLetter (a b : Char) : Prop :=
  a = b ∨
    ∃ k < 26, a.toNat = 0x41 + k ∧ b.toNat = 0x61 + k ∨ a.toNat = 0x61 + k ∧ b.toNat = 0x41 + k

/-- Texts that agree letter by letter, up to the case of ASCII letters. -/
def SameLetters (s t : String) : Prop := List.Forall₂ SameLetter s.toList t.toList

/-- A spelling of a word: its letters in any case, with white space around them. -/
def Spelled (s word : String) : Prop :=
  ∃ before letters after, s = before ++ letters ++ after ∧ White before ∧ White after ∧
    SameLetters letters word

/-! ### Blanks -/

theorem isBlank_iff {c : Char} : isBlank c = true ↔ c.toNat ∈ whiteSpace := by
  simp only [isBlank, blankRanges, whiteSpace, List.any_cons, List.any_nil, List.mem_cons,
    List.not_mem_nil, Bool.or_eq_true, Bool.and_eq_true, decide_eq_true_eq, Bool.false_eq_true,
    or_false]
  omega

theorem white_iff {s : String} : White s ↔ ∀ c ∈ s.toList, isBlank c = true := by
  simp only [White, isBlank_iff]

/-- Blanks at either end do not count. -/
theorem trim_append {before after : List Char} (hbefore : ∀ c ∈ before, isBlank c = true)
    (s : List Char) (hafter : ∀ c ∈ after, isBlank c = true) :
    trim (before ++ s ++ after) = trim s := by
  have hnone : after.dropWhile isBlank = [] := List.dropWhile_eq_nil_iff.mpr hafter
  have hreverse : ∀ c ∈ after.reverse, isBlank c = true := fun c hc =>
    hafter c (List.mem_reverse.mp hc)
  rw [trim, trim, List.append_assoc, List.dropWhile_append_of_pos hbefore, List.dropWhile_append,
    hnone]
  split
  · next hempty => rw [List.isEmpty_iff.mp hempty]
  · rw [List.reverse_append, List.dropWhile_append_of_pos hreverse]

/-- A text is what trimming leaves of it, between blanks. -/
theorem exists_append_trim (s : List Char) :
    ∃ before after, s = before ++ trim s ++ after ∧ (∀ c ∈ before, isBlank c = true) ∧
      ∀ c ∈ after, isBlank c = true := by
  have hfront : s.takeWhile isBlank ++ s.dropWhile isBlank = s := List.takeWhile_append_dropWhile
  have hback : (s.dropWhile isBlank).reverse.takeWhile isBlank ++
      (s.dropWhile isBlank).reverse.dropWhile isBlank = (s.dropWhile isBlank).reverse :=
    List.takeWhile_append_dropWhile
  refine ⟨s.takeWhile isBlank, ((s.dropWhile isBlank).reverse.takeWhile isBlank).reverse, ?_,
    fun c hc => List.mem_takeWhile_imp hc,
    fun c hc => List.mem_takeWhile_imp (List.mem_reverse.mp hc)⟩
  rw [trim, List.append_assoc, ← List.reverse_append, hback, List.reverse_reverse, hfront]

theorem trim_of_not_blank {s : List Char} (h : ∀ c ∈ s, isBlank c = false) : trim s = s := by
  have hkeep {l : List Char} (hl : ∀ c ∈ l, isBlank c = false) : l.dropWhile isBlank = l := by
    apply List.dropWhile_eq_self_iff.mpr
    intro hpos
    rw [hl _ (List.getElem_mem hpos)]
    exact Bool.false_ne_true
  have hreverse : ∀ c ∈ s.reverse, isBlank c = false := fun c hc => h c (List.mem_reverse.mp hc)
  rw [trim, hkeep h, hkeep hreverse, List.reverse_reverse]

/-! ### Letters -/

theorem toNat_toLower (c : Char) :
    c.toLower.toNat = if 0x41 ≤ c.toNat ∧ c.toNat ≤ 0x5A then c.toNat + 0x20 else c.toNat := by
  have hrange : (c.val ≥ 'A'.val ∧ c.val ≤ 'Z'.val) ↔ (0x41 ≤ c.toNat ∧ c.toNat ≤ 0x5A) := by
    simp only [ge_iff_le, UInt32.le_iff_toNat_le]
    rfl
  by_cases h : c.val ≥ 'A'.val ∧ c.val ≤ 'Z'.val
  · have hlower : c.toLower.val = c.val + ('a'.val - 'A'.val) := congrArg Char.val (dif_pos h)
    have hbound := hrange.mp h
    have hval : c.val.toNat = c.toNat := rfl
    have hshift : ('a'.val - 'A'.val).toNat = 0x20 := rfl
    rw [if_pos hbound]
    show c.toLower.val.toNat = _
    rw [hlower, UInt32.toNat_add, hval, hshift]
    omega
  · have hlower : c.toLower = c := dif_neg h
    rw [hlower, if_neg fun hc => h (hrange.mpr hc)]

theorem sameLetter_iff {a b : Char} : SameLetter a b ↔ a.toLower = b.toLower := by
  rw [← Char.toNat_inj, toNat_toLower, toNat_toLower, SameLetter, ← Char.toNat_inj]
  constructor
  · rintro (h | ⟨k, hk, h⟩)
    · rw [h]
    · split_ifs <;> omega
  · intro h
    by_cases heq : a.toNat = b.toNat
    · exact .inl heq
    · refine .inr ⟨min a.toNat b.toNat - 0x41, ?_⟩
      split_ifs at h <;> omega

theorem sameLetters_iff {s t : String} :
    SameLetters s t ↔ s.toList.map Char.toLower = t.toList.map Char.toLower := by
  have hsame : SameLetter = fun a b => a.toLower = b.toLower := by
    funext a b
    exact propext sameLetter_iff
  rw [SameLetters, hsame, ← List.forall₂_eq_eq_eq, List.forall₂_map_left_iff,
    List.forall₂_map_right_iff]

theorem toLower_toLower (c : Char) : c.toLower.toLower = c.toLower := by
  rw [← Char.toNat_inj, toNat_toLower, toNat_toLower]
  split_ifs <;> omega

/-- Lowering a character makes no blank of it and takes none away. -/
theorem isBlank_toLower (c : Char) : isBlank c.toLower = isBlank c := by
  rw [Bool.eq_iff_iff, isBlank_iff, isBlank_iff, toNat_toLower]
  split
  · simp only [whiteSpace, List.mem_cons, List.not_mem_nil, or_false]
    omega
  · rfl

theorem trim_map_toLower (s : List Char) : trim (s.map Char.toLower) = (trim s).map Char.toLower := by
  have hdrop (l : List Char) :
      (l.map Char.toLower).dropWhile isBlank = (l.dropWhile isBlank).map Char.toLower := by
    rw [List.dropWhile_map]
    exact congrArg (fun p => (l.dropWhile p).map Char.toLower) (funext isBlank_toLower)
  rw [trim, trim, hdrop, ← List.map_reverse, hdrop, ← List.map_reverse]

/-! ### Words -/

/-- Words in small letters and without blanks. -/
def Plain (word : String) : Prop := ∀ c ∈ word.toList, isBlank c = false ∧ c.toLower = c

instance (word : String) : Decidable (Plain word) :=
  List.decidableBAll (fun c => isBlank c = false ∧ c.toLower = c) word.toList

/-- White space around a text and the case of its letters do not change its word. -/
theorem word_append_eq {before after s t : String} (hbefore : White before) (hafter : White after)
    (h : SameLetters t s) : word (before ++ t ++ after) = word s := by
  rw [word, word, String.toList_append, String.toList_append,
    trim_append (white_iff.mp hbefore) _ (white_iff.mp hafter), ← trim_map_toLower,
    ← trim_map_toLower, sameLetters_iff.mp h]

theorem word_of_plain {w : String} (h : Plain w) : word w = w := by
  have hlower : w.toList.map Char.toLower = w.toList :=
    (List.map_congr_left fun c hc => (h c hc).2).trans (List.map_id' _)
  rw [word, trim_of_not_blank fun c hc => (h c hc).1, hlower, String.ofList_toList]

theorem spelled_word (s : String) : Spelled s (word s) := by
  obtain ⟨before, after, hs, hbefore, hafter⟩ := exists_append_trim s.toList
  refine ⟨String.ofList before, String.ofList (trim s.toList), String.ofList after, ?_, ?_, ?_, ?_⟩
  · rw [← String.ofList_append, ← String.ofList_append, ← hs, String.ofList_toList]
  · rw [white_iff, String.toList_ofList]
    exact hbefore
  · rw [white_iff, String.toList_ofList]
    exact hafter
  · rw [sameLetters_iff, word, String.toList_ofList, String.toList_ofList, List.map_map]
    exact List.map_congr_left fun c _ => (toLower_toLower c).symm

/-- A text is reduced to a word in small letters if and only if it spells the word. -/
theorem word_eq_iff_spelled {s w : String} (h : Plain w) : word s = w ↔ Spelled s w := by
  constructor
  · rintro rfl
    exact spelled_word s
  · rintro ⟨before, letters, after, rfl, hbefore, hafter, hletters⟩
    rw [word_append_eq hbefore hafter hletters, word_of_plain h]

end Text

/-! ### Reading spellings -/

namespace Text

/-- How values are read from free spellings of their words: exactly from these, and what is not one
of them is quoted as it came. -/
structure ReadsSpellings {α : Type} (parse : String → Except Fault α) (words : α → List String)
    (unknown : String → Fault) : Prop where
  /-- Every spelling of a word is read as its value, and nothing else is. -/
  accepted : ∀ s a, parse s = .ok a ↔ ∃ w ∈ words a, Spelled s w
  /-- A text that spells no word is refused, as it is. -/
  refused : ∀ s fault, parse s = .error fault ↔
    fault = unknown s ∧ ∀ a, ∀ w ∈ words a, ¬Spelled s w
  /-- No text spells words of two values. -/
  unambiguous : ∀ s a b, ∀ w ∈ words a, ∀ v ∈ words b, Spelled s w → Spelled s v → a = b
  /-- White space around a text and the case of its ASCII letters do not change the value. -/
  unchanged : ∀ before after s t, White before → White after → SameLetters t s →
    ∀ a, parse (before ++ t ++ after) = .ok a ↔ parse s = .ok a

section ReadsSpellings

variable {α : Type} {parse : String → Except Fault α} {ofWord? : String → Option α}
  {words : α → List String} {unknown : String → Fault}

theorem readsSpellings_of_ofWord?
    (hparse : ∀ s, parse s = (ofWord? (word s)).elim (.error (unknown s)) .ok)
    (hwords : ∀ w a, ofWord? w = some a ↔ w ∈ words a)
    (hplain : ∀ a, ∀ w ∈ words a, Plain w) : ReadsSpellings parse words unknown := by
  have hword (s : String) (a : α) : ofWord? (word s) = some a ↔ ∃ w ∈ words a, Spelled s w := by
    rw [hwords]
    constructor
    · exact fun h => ⟨word s, h, spelled_word s⟩
    · rintro ⟨w, hw, hspelled⟩
      rw [(word_eq_iff_spelled (hplain a w hw)).mpr hspelled]
      exact hw
  have hok (s : String) (a : α) : parse s = .ok a ↔ ofWord? (word s) = some a := by
    rw [hparse]
    cases ofWord? (word s) <;> simp
  refine ⟨?accepted, ?refused, ?unambiguous, ?unchanged⟩
  case accepted => exact fun s a => (hok s a).trans (hword s a)
  case refused =>
    intro s fault
    rw [hparse]
    cases hfound : ofWord? (word s) with
    | some a =>
        obtain ⟨w, hw, hspelled⟩ := (hword s a).mp hfound
        exact ⟨nofun, fun h => absurd hspelled (h.2 a w hw)⟩
    | none =>
        have hnone : ∀ a, ∀ w ∈ words a, ¬Spelled s w := fun a w hw hspelled => by
          have hsome := (hword s a).mpr ⟨w, hw, hspelled⟩
          rw [hfound] at hsome
          cases hsome
        constructor
        · rintro ⟨rfl⟩
          exact ⟨rfl, hnone⟩
        · rintro ⟨rfl, -⟩
          rfl
  case unambiguous =>
    intro s a b w hw v hv hspelled hspelled'
    have ha := (hword s a).mpr ⟨w, hw, hspelled⟩
    have hb := (hword s b).mpr ⟨v, hv, hspelled'⟩
    exact Option.some.inj (ha.symm.trans hb)
  case unchanged =>
    intro before after s t hbefore hafter hletters a
    rw [hok, hok, word_append_eq hbefore hafter hletters]

end ReadsSpellings

end Text

/-- The words that stand for a measure. -/
def Measure.words : Measure → List String
  | nominalText => [nominalText.name, "nominaltext"]
  | m => [m.name]

/-- The words that stand for a mode. -/
def EvalMode.words : EvalMode → List String
  | unspecified => [unspecified.name, ""]
  | rowWise => [rowWise.name, "row"]
  | columnWise => [columnWise.name, "column"]

theorem Measure.ofWord?_eq_some (w : String) (m : Measure) :
    ofWord? w = some m ↔ w ∈ m.words := by
  constructor
  · intro h
    rw [ofWord?.eq_def] at h
    split at h <;> cases h <;> decide
  · have hwords : ∀ w ∈ m.words, ofWord? w = some m := by cases m <;> decide
    exact hwords w

theorem EvalMode.ofWord?_eq_some (w : String) (m : EvalMode) :
    ofWord? w = some m ↔ w ∈ m.words := by
  constructor
  · intro h
    rw [ofWord?.eq_def] at h
    split at h <;> cases h <;> decide
  · have hwords : ∀ w ∈ m.words, ofWord? w = some m := by cases m <;> decide
    exact hwords w

theorem Measure.plain_of_mem_words (m : Measure) : ∀ w ∈ m.words, Text.Plain w := by
  cases m <;> simp only [words, name] <;> decide

theorem EvalMode.plain_of_mem_words (m : EvalMode) : ∀ w ∈ m.words, Text.Plain w := by
  cases m <;> simp only [words, name] <;> decide

theorem Measure.parse_eq_elim (s : String) :
    parse s = (ofWord? (Text.word s)).elim (.error (.unknownMeasure s)) .ok := by
  rw [parse, ofText?]
  cases ofWord? (Text.word s) <;> rfl

theorem EvalMode.parse_eq_elim (s : String) :
    parse s = (ofWord? (Text.word s)).elim (.error (.unknownMode s)) .ok := by
  rw [parse, ofText?]
  cases ofWord? (Text.word s) <;> rfl

/-- Measures and modes are read from the free spellings of their words and from nothing else. A text
that is none of these is quoted as it came. -/
theorem Text.spellings_decided :
    ReadsSpellings Measure.parse Measure.words Fault.unknownMeasure ∧
      ReadsSpellings EvalMode.parse EvalMode.words Fault.unknownMode :=
  ⟨readsSpellings_of_ofWord? Measure.parse_eq_elim Measure.ofWord?_eq_some Measure.plain_of_mem_words,
    readsSpellings_of_ofWord? EvalMode.parse_eq_elim EvalMode.ofWord?_eq_some EvalMode.plain_of_mem_words⟩

/-- The case of letters beyond ASCII is kept, and blanks inside a word count. -/
example : Measure.parse "ORD\u0130NAL" = .error (.unknownMeasure "ORD\u0130NAL") ∧
    EvalMode.parse " Row\u3000" = .ok .rowWise ∧
    EvalMode.parse "row wise" = .error (.unknownMode "row wise") := ⟨rfl, rfl, rfl⟩

end MeasureInference
