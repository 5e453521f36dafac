import MeasureInference.Json.Skip
import MeasureInference.Proofs.Json.Verdict

/-!
Numbers, read and left out, in every way in which they can be written.

Digits are gathered while the significand fits a word, and those behind are only counted, so a row
of digits falls into a gathered part and a lost one. A number is whole only when none is lost and
nothing stands behind its digits. Every other one is taken to its end as a decimal, or found to be
out of range: which of the two depends on what it is worth, which nothing here asks.
-/

namespace MeasureInference.Json

/-! ### Rows of digits -/

theorem le_ofDigitChars (cs : List Char) (value : Nat) : value ≤ Nat.ofDigitChars 10 cs value := by
  induction cs generalizing value with
  | nil => exact Nat.le_of_eq Nat.ofDigitChars_nil.symm
  | cons c cs ih =>
      rw [Nat.ofDigitChars_cons]
      have hstep := ih (10 * value + (c.toNat - '0'.toNat))
      omega

theorem startsWithDigit_of_delimited {rest : List Char} (h : Delimited rest) :
    startsWithDigit rest = false := by
  cases rest with
  | nil => rfl
  | cons c rest =>
      have hc := h c rfl
      simp only [goesOnNumber, Bool.or_eq_false_iff] at hc
      exact hc.1.1.1

theorem Digits.startsWithDigit_chars (d : Digits) (rest : List Char) :
    startsWithDigit (d.chars ++ rest) = true :=
  d.isDigit d.first (List.mem_cons_self ..)

/-- The gathered part of a row of digits and the lost one. Nothing is lost if and only if the whole
row stays below the limit. -/
theorem gatherDigits_append (limit value : Nat) {cs rest : List Char}
    (hdigits : ∀ c ∈ cs, c.isDigit = true) (hrest : startsWithDigit rest = false) :
    ∃ gathered lost, cs = gathered ++ lost ∧
      gatherDigits limit value (cs ++ rest) =
        (Nat.ofDigitChars 10 gathered value, gathered.length, lost ++ rest) ∧
      (value < limit → (lost = [] ↔ Nat.ofDigitChars 10 cs value < limit)) := by
  induction cs generalizing value with
  | nil =>
      refine ⟨[], [], rfl, ?_, fun hvalue => iff_of_true rfl (by simpa using hvalue)⟩
      cases rest with
      | nil => rfl
      | cons c rest =>
          have hc : c.isDigit = false := hrest
          simp [gatherDigits, hc]
  | cons c cs ih =>
      obtain ⟨hc, hcs⟩ := List.forall_mem_cons.mp hdigits
      have hnext : value * 10 + digitValue c = 10 * value + (c.toNat - '0'.toNat) := by
        rw [digitValue, Nat.mul_comm]
      rw [List.cons_append, gatherDigits, hnext, Nat.ofDigitChars_cons]
      by_cases hlimit : 10 * value + (c.toNat - '0'.toNat) < limit
      · obtain ⟨gathered, lost, rfl, hgather, hlost⟩ := ih (10 * value + (c.toNat - '0'.toNat)) hcs
        refine ⟨c :: gathered, lost, rfl, ?_, fun _ => hlost hlimit⟩
        simp only [hc, hlimit, decide_true, Bool.and_self, if_true, hgather, Nat.ofDigitChars_cons,
          List.length_cons]
      · refine ⟨[], c :: cs, rfl, ?_,
          fun _ => iff_of_false (List.cons_ne_nil c cs) fun h => hlimit ?_⟩
        · simp only [hlimit, decide_false, Bool.and_false, Bool.false_eq_true, if_false,
            Nat.ofDigitChars_nil, List.length_nil, List.cons_append]
        · exact Nat.lt_of_le_of_lt (le_ofDigitChars cs _) h

/-- What an exponent begins with, or what follows in place of one, is no digit. -/
theorem startsWithDigit_exponent (exponent? : Option Exponent) {rest : List Char}
    (h : Delimited rest) : startsWithDigit (exponent?.elim [] Exponent.chars ++ rest) = false := by
  cases exponent? with
  | none => exact startsWithDigit_of_delimited h
  | some e =>
      show e.mark.isDigit = false
      rcases e.isMark with hmark | hmark <;> rw [hmark] <;> rfl

theorem Numeral.startsWithDigit_tail (n : Numeral) {rest : List Char} (h : Delimited rest) :
    startsWithDigit (n.tail ++ rest) = false := by
  rw [Numeral.tail]
  cases n.fraction? with
  | some d => rfl
  | none => exact startsWithDigit_exponent n.exponent? h

theorem Numeral.tail_eq_nil {n : Numeral}
    (h : (n.fraction?.isSome || n.exponent?.isSome) = false) : n.tail = [] := by
  obtain ⟨hfraction, hexponent⟩ := Bool.or_eq_false_iff.mp h
  rw [Numeral.tail, Option.isNone_iff_eq_none.mp (Option.isSome_eq_false_iff.mp hfraction),
    Option.isNone_iff_eq_none.mp (Option.isSome_eq_false_iff.mp hexponent)]
  rfl

def Exponent.isNegative (e : Exponent) : Bool := e.sign == ['-']

/-- The whole number that a numeral is read as: it has neither point nor exponent and fits a word,
signed or not. -/
def Numeral.whole? (n : Numeral) : Option Int :=
  if n.fraction?.isSome || n.exponent?.isSome then none
  else if n.negative = false then
    if n.whole.value < UInt64.size then some n.whole.value else none
  else if 1 ≤ n.whole.value ∧ n.whole.value ≤ Nat.pow 2 63 then some (-n.whole.value)
  else none

namespace Reader

theorem takeWhile_isDigit {cs rest : List Char} (hdigits : ∀ c ∈ cs, c.isDigit = true)
    (hrest : startsWithDigit rest = false) :
    takeWhile Char.isDigit (cs ++ rest) = .ok (cs, rest) := by
  cases rest with
  | nil =>
      have htake : (cs ++ []).takeWhile Char.isDigit = cs ++ [] :=
        List.takeWhile_append_of_pos hdigits
      have hdrop : (cs ++ []).dropWhile Char.isDigit = [] :=
        List.dropWhile_append_of_pos hdigits
      rw [takeWhile, htake, hdrop, List.append_nil]
  | cons c rest =>
      have hc : ¬c.isDigit = true := Bool.eq_false_iff.mp hrest
      rw [takeWhile, List.takeWhile_append_of_pos hdigits, List.dropWhile_append_of_pos hdigits,
        List.takeWhile_cons_of_neg hc, List.dropWhile_cons_of_neg hc, List.append_nil]

theorem head?_ne_of_delimited {rest : List Char} (h : Delimited rest) {c : Char}
    (hc : goesOnNumber c = true) : ∀ d ∈ rest.head?, d ≠ c := by
  rintro d hd rfl
  rw [h d hd] at hc
  cases hc

theorem peekDigit_eq (s : List Char) : peekDigit s = .ok (startsWithDigit s, s) := rfl

/-- Gathering leaves the lost digits in the text. -/
theorem gather_chars (limit value : Nat) (d : Digits) {rest : List Char}
    (hrest : startsWithDigit rest = false) :
    ∃ gathered lost, d.chars = gathered ++ lost ∧ (∀ c ∈ lost, c.isDigit = true) ∧
      gather limit value (d.chars ++ rest) =
        .ok ((Nat.ofDigitChars 10 gathered value, gathered.length), lost ++ rest) ∧
      (value < limit → (lost = [] ↔ Nat.ofDigitChars 10 d.chars value < limit)) := by
  obtain ⟨gathered, lost, hsplit, hgather, hlost⟩ :=
    gatherDigits_append limit value d.isDigit hrest
  refine ⟨gathered, lost, hsplit, fun c hc => d.isDigit c ?_, ?_, hlost⟩
  · rw [hsplit]
    exact List.mem_append_right gathered hc
  · rw [gather, Digits.chars, hgather]

/-! ### Reading -/

/-- The digits in front of the point, and what is made of them behind their end. -/
theorem unsigned_chars {d : Digits} (hzero : d.first = '0' → d.more = []) (negative : Bool)
    {rest : List Char} (hrest : startsWithDigit rest = false) :
    ∃ significand lost,
      unsigned negative (d.chars ++ rest) = afterInteger negative significand lost rest ∧
      (lost = 0 ↔ d.value < UInt64.size) ∧ (lost = 0 → significand = d.value) := by
  have hfirst := d.isDigit d.first (List.mem_cons_self ..)
  by_cases hc : d.first = '0'
  -- A leading zero is taken by a branch of its own, which allows no digit behind it.
  · have hchars : d.chars = ['0'] := by rw [Digits.chars, hc, hzero hc]
    have hvalue : d.value = 0 := by
      rw [Digits.value, hchars]
      rfl
    refine ⟨0, 0, ?_, iff_of_true rfl (by rw [hvalue]; decide), fun _ => hvalue.symm⟩
    rw [hchars, List.singleton_append, unsigned, bind_of_ok (peek_cons _ _)]
    dsimp only
    rw [if_pos rfl, bind_of_ok (skip_cons _ _), bind_of_ok (peekDigit_eq rest), hrest,
      if_neg Bool.false_ne_true]
  · obtain ⟨gathered, lost, hsplit, hdigits, hread, hlost⟩ := gather_chars UInt64.size 0 d hrest
    refine ⟨Nat.ofDigitChars 10 gathered 0, lost.length, ?_,
      List.length_eq_zero_iff.trans (hlost (by decide)), fun hnil => ?_⟩
    · rw [unsigned, Digits.chars, List.cons_append, bind_of_ok (peek_cons _ _)]
      dsimp only
      rw [if_neg hc, if_pos hfirst, ← List.cons_append, ← Digits.chars, bind_of_ok hread]
      dsimp only
      rw [bind_of_ok (takeWhile_isDigit hdigits hrest)]
    · rw [List.length_eq_zero_iff.mp hnil, List.append_nil] at hsplit
      rw [Digits.value, hsplit]

theorem accept_chars {c : Char} (hc : c.isDigit = false) (d : Digits) (s : List Char) :
    accept c (d.chars ++ s) = .ok (false, d.chars ++ s) := by
  apply accept_of_head?_ne
  rintro first hfirst rfl
  rw [← Option.some.inj hfirst, d.isDigit d.first (List.mem_cons_self ..)] at hc
  cases hc

/-- The sign is taken before the digits. -/
theorem accept_minus_chars (n : Numeral) (s : List Char) :
    accept '-' (n.chars ++ s) = .ok (n.negative, n.whole.chars ++ (n.tail ++ s)) := by
  rw [Numeral.chars, List.append_assoc, List.append_assoc]
  cases n.negative with
  | true => rfl
  | false => exact accept_chars rfl n.whole _

/-- The reader takes a decimal from the front of a text, or finds it out of range. -/
def TakesDecimal (r : Reader Number) (s rest : List Char) : Prop :=
  (∃ x, r s = .ok (.decimal x, rest)) ∨
    ∃ failure, r s = .error failure ∧ failure.cause = .numberOutOfRange

theorem TakesDecimal.of_bind {α : Type} {r : Reader α} {f : α → Reader Number}
    {s s' rest : List Char} {a : α} (h : r s = .ok (a, s')) (hf : TakesDecimal (f a) s' rest) :
    TakesDecimal (r >>= f) s rest := by
  rw [TakesDecimal, bind_of_ok h]
  exact hf

theorem takesDecimal_pure (x : Binary64) (s : List Char) :
    TakesDecimal (pure (.decimal x)) s s :=
  .inl ⟨x, rfl⟩

theorem takesDecimal_decimal (negative : Bool) (significand : Nat) (exponent : Int)
    (s : List Char) : TakesDecimal (decimal negative significand exponent) s s := by
  rw [decimal]
  split
  · exact takesDecimal_pure _ s
  · exact .inr ⟨_, rfl, rfl⟩

/-- An exponent, behind its sign. -/
def exponentDigits (negative : Bool) (significand : Nat) (start : Int)
    (negativeExponent : Bool) : Reader Number := do
  unless ← peekDigit do
    failNext (if (← peek).isNone then .endInValue else .invalidNumber)
  let (value, _) ← gather (Nat.pow 2 31) 0
  if ← peekDigit then
    if significand ≠ 0 ∧ negativeExponent = false then failNext .numberOutOfRange
    else do
      discard (takeWhile Char.isDigit)
      pure (.decimal (Binary64.zero negative))
  else
    decimal negative significand (if negativeExponent then start - value else start + value)

theorem exponent_sign (negative : Bool) (significand : Nat) (start : Int) (e : Exponent)
    (s : List Char) :
    exponent negative significand start (e.sign ++ (e.digits.chars ++ s)) =
      exponentDigits negative significand start e.isNegative (e.digits.chars ++ s) := by
  have hminus := accept_chars (c := '-') rfl e.digits s
  have hplus := accept_chars (c := '+') rfl e.digits s
  rw [Exponent.isNegative]
  rcases e.isSign with hsign | hsign | hsign <;> rw [hsign]
  · exact (bind_of_ok hminus).trans (bind_of_ok (map_of_ok hplus))
  · rfl
  · rfl

theorem takesDecimal_exponentDigits (negative : Bool) (significand : Nat) (start : Int)
    (negativeExponent : Bool) (d : Digits) {rest : List Char}
    (hrest : startsWithDigit rest = false) :
    TakesDecimal (exponentDigits negative significand start negativeExponent) (d.chars ++ rest)
      rest := by
  obtain ⟨gathered, lost, -, hdigits, hread, -⟩ := gather_chars (Nat.pow 2 31) 0 d hrest
  have hfirst : peekDigit (d.chars ++ rest) = .ok (true, d.chars ++ rest) := by
    rw [peekDigit_eq, d.startsWithDigit_chars]
  refine .of_bind hfirst (.of_bind hread (.of_bind (peekDigit_eq _) ?_))
  cases lost with
  | nil =>
      rw [List.nil_append, hrest]
      exact takesDecimal_decimal ..
  -- An exponent that is too long is not worth its digits, so they are left out.
  | cons c lost =>
      have hlost : startsWithDigit (c :: lost ++ rest) = true := hdigits c (List.mem_cons_self ..)
      rw [hlost, if_pos rfl]
      split
      · exact .inr ⟨_, rfl, rfl⟩
      · exact .of_bind (map_of_ok (takeWhile_isDigit hdigits hrest)) (takesDecimal_pure _ rest)

theorem takesDecimal_exponent (negative : Bool) (significand : Nat) (start : Int) (e : Exponent)
    {rest : List Char} (hrest : startsWithDigit rest = false) :
    TakesDecimal (exponent negative significand start) (e.sign ++ (e.digits.chars ++ rest))
      rest := by
  rw [TakesDecimal, exponent_sign]
  exact takesDecimal_exponentDigits _ _ _ _ _ hrest

theorem accept_point_exponent (e : Exponent) (s : List Char) :
    accept '.' (e.chars ++ s) = .ok (false, e.chars ++ s) := by
  rw [Exponent.chars]
  rcases e.isMark with hmark | hmark <;> rw [hmark] <;> rfl

theorem acceptExponentMark_chars (e : Exponent) (s : List Char) :
    acceptExponentMark (e.chars ++ s) = .ok (true, e.sign ++ (e.digits.chars ++ s)) := by
  rw [Exponent.chars, List.cons_append, List.append_assoc]
  rcases e.isMark with hmark | hmark <;> rw [hmark] <;> rfl

theorem acceptExponentMark_of_delimited {rest : List Char} (h : Delimited rest) :
    acceptExponentMark rest = .ok (false, rest) := by
  have hsmall := accept_of_head?_ne (head?_ne_of_delimited h (c := 'e') rfl)
  rw [acceptExponentMark, bind_of_ok hsmall]
  exact accept_of_head?_ne (head?_ne_of_delimited h (c := 'E') rfl)

theorem takesDecimal_exponentOrEnd (negative : Bool) (significand : Nat) (start : Int)
    (exponent? : Option Exponent) {rest : List Char} (h : Delimited rest) :
    TakesDecimal (exponentOrEnd negative significand start)
      (exponent?.elim [] Exponent.chars ++ rest) rest := by
  cases exponent? with
  | some e =>
      exact .of_bind (acceptExponentMark_chars e rest)
        (takesDecimal_exponent _ _ _ e (startsWithDigit_of_delimited h))
  | none =>
      exact .of_bind (acceptExponentMark_of_delimited h) (takesDecimal_decimal ..)

theorem takesDecimal_fraction (negative : Bool) (significand lost : Nat) (d : Digits)
    (exponent? : Option Exponent) {rest : List Char} (h : Delimited rest) :
    TakesDecimal (fraction negative significand lost)
      (d.chars ++ (exponent?.elim [] Exponent.chars ++ rest)) rest := by
  have hbehind := startsWithDigit_exponent exponent? h
  obtain ⟨gathered, dropped, hsplit, hdigits, hread, -⟩ :=
    gather_chars UInt64.size significand d hbehind
  refine .of_bind hread (.of_bind (peekDigit_eq _) ?_)
  cases dropped with
  | nil =>
      -- Then all digits are gathered, and there is at least one.
      have hplaces : gathered.length ≠ 0 := by
        rw [← List.append_nil gathered, ← hsplit]
        exact Nat.succ_ne_zero _
      rw [List.nil_append, hbehind, if_neg Bool.false_ne_true, if_neg hplaces]
      exact takesDecimal_exponentOrEnd _ _ _ _ h
  | cons c dropped =>
      have hdropped : startsWithDigit (c :: dropped ++ (exponent?.elim [] Exponent.chars ++ rest)) =
          true := hdigits c (List.mem_cons_self ..)
      rw [hdropped, if_pos rfl]
      exact .of_bind (map_of_ok (takeWhile_isDigit hdigits hbehind))
        (takesDecimal_exponentOrEnd _ _ _ _ h)

/-- What a point or an exponent mark leads to is a decimal. -/
theorem takesDecimal_tail {n : Numeral} (h : (n.fraction?.isSome || n.exponent?.isSome) = true)
    (negative : Bool) (significand lost : Nat) {rest : List Char} (hrest : Delimited rest) :
    TakesDecimal (afterInteger negative significand lost) (n.tail ++ rest) rest := by
  rw [Numeral.tail]
  cases hfraction : n.fraction? with
  | some d =>
      have hpoint : accept '.' ('.' :: d.chars ++ n.exponent?.elim [] Exponent.chars ++ rest) =
          .ok (true, d.chars ++ (n.exponent?.elim [] Exponent.chars ++ rest)) := by
        rw [List.append_assoc]
        rfl
      exact .of_bind hpoint (takesDecimal_fraction _ _ _ d _ hrest)
  | none =>
      cases hexponent : n.exponent? with
      | none => simp [hfraction, hexponent] at h
      | some e =>
          refine .of_bind (accept_point_exponent e rest) ?_
          exact .of_bind (acceptExponentMark_chars e rest)
            (takesDecimal_exponent _ _ _ e (startsWithDigit_of_delimited hrest))

/-- A row of digits that does not fit is read as a decimal. -/
theorem takesDecimal_lost (negative : Bool) (significand : Nat) {lost : Nat} (hlost : lost ≠ 0)
    {rest : List Char} (h : Delimited rest) :
    TakesDecimal (afterInteger negative significand lost) rest rest := by
  refine .of_bind (accept_of_head?_ne (head?_ne_of_delimited h (c := '.') rfl)) ?_
  refine .of_bind (acceptExponentMark_of_delimited h) ?_
  rw [if_neg Bool.false_ne_true, if_neg hlost]
  exact takesDecimal_decimal ..

/-- A number whose digits all fit is whole where nothing goes on it. -/
theorem afterInteger_of_delimited {rest : List Char} (h : Delimited rest) (negative : Bool)
    (significand : Nat) :
    afterInteger negative significand 0 rest = .ok (integer negative significand, rest) := by
  have hpoint := accept_of_head?_ne (head?_ne_of_delimited h (c := '.') rfl)
  rw [afterInteger, bind_of_ok hpoint, if_neg Bool.false_ne_true,
    bind_of_ok (acceptExponentMark_of_delimited h)]
  rfl

/-- A numeral without point and exponent that fits a word is read as its whole number. -/
theorem number_of_whole? {n : Numeral} {k : Int} (h : n.whole? = some k) {rest : List Char}
    (hrest : Delimited rest) : number (n.chars ++ rest) = .ok (.whole k, rest) := by
  obtain ⟨significand, lost, hread, hlost, hvalue⟩ :=
    unsigned_chars n.noLeadingZero n.negative (n.startsWithDigit_tail hrest)
  have hinteger (hword : n.whole.value < UInt64.size) :
      afterInteger n.negative significand lost rest =
        .ok (integer n.negative n.whole.value, rest) := by
    rw [hvalue (hlost.mpr hword), hlost.mpr hword]
    exact afterInteger_of_delimited hrest _ _
  rw [Numeral.whole?] at h
  split at h
  · cases h
  · next hplain =>
    rw [number, bind_of_ok (accept_minus_chars n rest), hread,
      n.tail_eq_nil (Bool.eq_false_iff.mpr hplain), List.nil_append]
    split at h
    · next hsign =>
      split at h
      · next hword =>
        cases h
        rw [hinteger hword, integer, if_pos hsign]
      · cases h
    · next hsign =>
      split at h
      · next hrange =>
        cases h
        rw [hinteger (Nat.lt_of_le_of_lt hrange.2 (by decide)), integer, if_neg hsign,
          if_pos hrange]
      · cases h

/-- Every other numeral is read as a decimal, unless it is out of range. -/
theorem takesDecimal_number {n : Numeral} (h : n.whole? = none) {rest : List Char}
    (hrest : Delimited rest) : TakesDecimal number (n.chars ++ rest) rest := by
  obtain ⟨significand, lost, hread, hlost, hvalue⟩ :=
    unsigned_chars n.noLeadingZero n.negative (n.startsWithDigit_tail hrest)
  refine .of_bind (accept_minus_chars n rest) ?_
  rw [TakesDecimal, hread]
  by_cases htail : (n.fraction?.isSome || n.exponent?.isSome) = true
  · exact takesDecimal_tail htail _ _ _ hrest
  · rw [n.tail_eq_nil (Bool.eq_false_iff.mpr htail), List.nil_append]
    by_cases hword : n.whole.value < UInt64.size
    · rw [Numeral.whole?, if_neg htail] at h
      rw [hvalue (hlost.mpr hword), hlost.mpr hword, afterInteger_of_delimited hrest, integer]
      by_cases hsign : n.negative = false
      · rw [if_pos hsign, if_pos hword] at h
        cases h
      · rw [if_neg hsign] at h ⊢
        split at h
        · cases h
        · next hrange =>
          rw [if_neg hrange]
          exact .inl ⟨_, rfl⟩
    · exact takesDecimal_lost _ _ (mt hlost.mp hword) hrest

/-! ### Leaving out -/

theorem skipSomeDigits_chars (d : Digits) {rest : List Char}
    (hrest : startsWithDigit rest = false) :
    skipSomeDigits (d.chars ++ rest) = .ok ((), rest) := by
  rw [skipSomeDigits, bind_of_ok (peekDigit_eq _), d.startsWithDigit_chars]
  exact map_of_ok (takeWhile_isDigit d.isDigit hrest)

theorem skipInteger_chars {d : Digits} (hzero : d.first = '0' → d.more = []) {rest : List Char}
    (hrest : startsWithDigit rest = false) : skipInteger (d.chars ++ rest) = .ok ((), rest) := by
  by_cases hc : d.first = '0'
  · have haccept : accept '0' ('0' :: rest) = .ok (true, rest) := rfl
    rw [Digits.chars, hzero hc, hc, List.singleton_append, skipInteger, bind_of_ok haccept,
      bind_of_ok (peekDigit_eq rest), hrest]
    rfl
  · have haccept : accept '0' (d.chars ++ rest) = .ok (false, d.chars ++ rest) :=
      accept_of_head?_ne fun c hmem => by
        rintro rfl
        exact hc (Option.some.inj hmem)
    rw [skipInteger, bind_of_ok haccept, bind_of_ok (peekDigit_eq _)]
    exact skipSomeDigits_chars d hrest

/-- The exponent of a number, or nothing. -/
def skipExponent : Reader Unit := do
  if ← acceptExponentMark then
    unless ← accept '-' do discard (accept '+')
    skipSomeDigits

theorem skipNumber_eq : skipNumber = (do
    skipInteger
    if ← accept '.' then skipSomeDigits
    skipExponent) := rfl

theorem skipExponent_chars (e : Exponent) {rest : List Char}
    (hrest : startsWithDigit rest = false) :
    skipExponent (e.chars ++ rest) = .ok ((), rest) := by
  have hdigits := skipSomeDigits_chars e.digits hrest
  have hminus := accept_chars (c := '-') rfl e.digits rest
  have hplus := accept_chars (c := '+') rfl e.digits rest
  rw [skipExponent, bind_of_ok (acceptExponentMark_chars e rest), if_pos rfl]
  rcases e.isSign with hsign | hsign | hsign <;> rw [hsign]
  · refine (bind_of_ok hminus).trans ?_
    exact (bind_of_ok (map_of_ok hplus)).trans hdigits
  · exact hdigits
  · exact hdigits

theorem skipExponent_elim (exponent? : Option Exponent) {rest : List Char} (h : Delimited rest) :
    skipExponent (exponent?.elim [] Exponent.chars ++ rest) = .ok ((), rest) := by
  cases exponent? with
  | some e => exact skipExponent_chars e (startsWithDigit_of_delimited h)
  | none =>
      rw [Option.elim_none, List.nil_append, skipExponent,
        bind_of_ok (acceptExponentMark_of_delimited h)]
      rfl

/-- Whatever a number is worth, it is left out to its end. -/
theorem skipNumber_chars (n : Numeral) {rest : List Char} (hrest : Delimited rest) :
    skipNumber (n.whole.chars ++ (n.tail ++ rest)) = .ok ((), rest) := by
  have hinteger := skipInteger_chars n.noLeadingZero (n.startsWithDigit_tail hrest)
  have hexponent := skipExponent_elim n.exponent? hrest
  rw [skipNumber_eq, bind_of_ok hinteger, Numeral.tail]
  cases n.fraction? with
  | some d =>
      have hdigits := skipSomeDigits_chars d (startsWithDigit_exponent n.exponent? hrest)
      have hpoint : accept '.' ('.' :: d.chars ++ n.exponent?.elim [] Exponent.chars ++ rest) =
          .ok (true, d.chars ++ n.exponent?.elim [] Exponent.chars ++ rest) := rfl
      rw [Option.elim_some, bind_of_ok hpoint, List.append_assoc]
      exact (bind_of_ok hdigits).trans hexponent
  | none =>
      have hpoint : accept '.' (n.exponent?.elim [] Exponent.chars ++ rest) =
          .ok (false, n.exponent?.elim [] Exponent.chars ++ rest) := by
        cases n.exponent? with
        | some e => exact accept_point_exponent e rest
        | none => exact accept_of_head?_ne (head?_ne_of_delimited hrest (c := '.') rfl)
      rw [Option.elim_none, List.nil_append, bind_of_ok hpoint]
      exact hexponent

end Reader

end MeasureInference.Json
