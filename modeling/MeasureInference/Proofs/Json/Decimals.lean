import MeasureInference.Binary64.Text
import MeasureInference.Proofs.Json.Fitting
import MeasureInference.Proofs.Json.Written
import MeasureInference.Proofs.Shortest

/-!
The numerals of written decimals.

A decimal is written with a point or an exponent, whichever layout its size calls for, and this
keeps its text from being one of a whole number. The digits are those of a positive number, so they
do not begin with zero; in front of the point there is a row of them, or the single zero that every
smaller number begins with. The digits of the text make the number that was laid out, except that
those of a whole number in place are filled up with zeros, to the point and one place beyond.
-/

namespace MeasureInference

namespace Decimal

/-- The exponent of the leading digit. -/
def lead (d : Decimal) : Int := d.exponent + (Nat.toDigits 10 d.digits).length - 1

/-- The same number with a digit behind the point. -/
def filled (d : Decimal) : Decimal :=
  if 0 ≤ d.exponent then ⟨d.digits * Nat.pow 10 (d.exponent.toNat + 1), -1⟩ else d

/-- The decimal as its text has it: the number that all digits make, and the power of ten of the
last one. -/
def written (d : Decimal) : Decimal := if -5 ≤ d.lead ∧ d.lead ≤ 15 then d.filled else d

end Decimal

namespace Binary64

/-- The decimal that the text of a number has. -/
def written (x : Binary64) : Decimal := if x.isZero then ⟨0, -1⟩ else x.shortest.written

/-- The exponent of its leading digit. -/
def lead (x : Binary64) : Int := if x.isZero then 0 else x.shortest.lead

end Binary64

namespace Json

open Binary64 (inPlace exponentMark pointed layout)

namespace Digits

def ofChars (cs : List Char) (hne : cs ≠ []) (h : ∀ c ∈ cs, c.isDigit = true) : Digits where
  first := cs.head hne
  more := cs.tail
  isDigit := by
    rw [List.cons_head_tail]
    exact h

theorem chars_ofChars {cs : List Char} (hne : cs ≠ []) (h : ∀ c ∈ cs, c.isDigit = true) :
    (ofChars cs hne h).chars = cs := List.cons_head_tail hne

def zero : Digits := ⟨'0', [], List.forall_mem_singleton.mpr rfl⟩

end Digits

/-- A text of a numeral without a sign, but with a point or an exponent. Its digits make the
decimal, and an exponent that it has is that of the leading digit. -/
def SpellsDecimal (text : List Char) (d : Decimal) (lead : Int) : Prop :=
  ∃ n : Numeral, n.negative = false ∧ n.isDecimal = true ∧ n.chars = text ∧
    n.significand = d.digits ∧ n.power = d.exponent ∧
    ∀ e ∈ n.exponent?, e.digits.value = lead.natAbs

theorem spellsDecimal_pointed (whole fraction : Digits) (h : whole.first = '0' → whole.more = [])
    {d : Decimal} (lead : Int)
    (hdigits : Nat.ofDigitChars 10 (whole.chars ++ fraction.chars) 0 = d.digits)
    (hexponent : -(fraction.chars.length : Int) = d.exponent) :
    SpellsDecimal (whole.chars ++ '.' :: fraction.chars) d lead := by
  refine ⟨⟨false, whole, some fraction, none, h⟩, rfl, rfl, by simp [Numeral.chars, Numeral.tail],
    ?_, (Int.zero_sub _).trans hexponent, by rintro e ⟨⟩⟩
  rw [Nat.ofDigitChars_append] at hdigits
  exact hdigits

section Layout

variable {c : Char} {cs : List Char}

theorem isDigit_of_mem_replicate_zero {k : Nat} {d : Char} (h : d ∈ List.replicate k '0') :
    d.isDigit = true := by
  rw [List.eq_of_mem_replicate h]
  rfl

theorem spellsDecimal_inPlace (hdigits : ∀ d ∈ c :: cs, d.isDigit = true) (hc : c ≠ '0')
    (lead : Int) :
    SpellsDecimal (inPlace (c :: cs) lead)
      (Decimal.filled ⟨Nat.ofDigitChars 10 (c :: cs) 0, lead + 1 - (c :: cs).length⟩) lead := by
  have hzero (more : List Char) : c = '0' → more = [] := fun h => absurd h hc
  have hlength : (c :: cs).length = cs.length + 1 := rfl
  rw [inPlace, Decimal.filled]
  split
  -- Zeros fill the places between the point and the first digit.
  · have hfraction : ∀ d ∈ List.replicate (-lead - 1).toNat '0' ++ c :: cs, d.isDigit = true :=
      List.forall_mem_append.mpr ⟨fun d => isDigit_of_mem_replicate_zero, hdigits⟩
    rw [if_neg (by dsimp only; omega)]
    have hspells := spellsDecimal_pointed .zero (.ofChars _ (by simp) hfraction) (fun _ => rfl)
      (d := ⟨Nat.ofDigitChars 10 (c :: cs) 0, lead + 1 - (c :: cs).length⟩) lead
    rw [Digits.chars_ofChars] at hspells
    refine hspells ?_ ?_
    · rw [Nat.ofDigitChars_append, Nat.ofDigitChars_append, Nat.ofDigitChars_replicate_zero]
      rfl
    · rw [List.length_append, List.length_replicate]
      dsimp only
      omega
  · dsimp only
    split
    -- Zeros fill the places between the last digit and the point.
    · have hwhole : ∀ d ∈ c :: (cs ++ List.replicate (lead.toNat + 1 - (c :: cs).length) '0'),
          d.isDigit = true :=
        List.forall_mem_append.mpr ⟨hdigits, fun d => isDigit_of_mem_replicate_zero⟩
      rw [if_pos (by omega)]
      refine spellsDecimal_pointed ⟨c, _, hwhole⟩ .zero (hzero _) lead ?_ rfl
      have hpower : (lead + 1 - ((c :: cs).length : Int)).toNat =
        lead.toNat + 1 - (c :: cs).length := by omega
      have hlast (value : Nat) : Nat.ofDigitChars 10 Digits.zero.chars value = 10 * value := rfl
      have hpow (k : Nat) : Nat.pow 10 (k + 1) = 10 ^ k * 10 := rfl
      rw [hpower, Digits.chars, ← List.cons_append, Nat.ofDigitChars_append,
        Nat.ofDigitChars_append, Nat.ofDigitChars_replicate_zero, hlast]
      dsimp only
      rw [hpow]
      ac_rfl
    · next hshort =>
      have hwhole : ∀ d ∈ c :: cs.take lead.toNat, d.isDigit = true := fun d hd =>
        hdigits d (List.mem_of_mem_take (i := lead.toNat + 1) hd)
      have hfraction : ∀ d ∈ cs.drop lead.toNat, d.isDigit = true := fun d hd =>
        hdigits d (List.mem_cons_of_mem c (List.mem_of_mem_drop hd))
      have hrest : cs.drop lead.toNat ≠ [] := by
        rw [ne_eq, List.drop_eq_nil_iff]
        omega
      rw [if_neg (by omega)]
      have hspells := spellsDecimal_pointed ⟨c, _, hwhole⟩ (.ofChars _ hrest hfraction) (hzero _)
        (d := ⟨Nat.ofDigitChars 10 (c :: cs) 0, lead + 1 - (c :: cs).length⟩) lead
      rw [Digits.chars_ofChars] at hspells
      refine hspells ?_ ?_
      · rw [Digits.chars, List.cons_append, List.take_append_drop]
      · rw [List.length_drop]
        dsimp only
        omega

/-- The exponent of a written decimal. -/
def writtenExponent (lead : Int) : Exponent where
  mark := 'e'
  sign := [if lead < 0 then '-' else '+']
  digits := .ofNat lead.natAbs
  isMark := .inl rfl
  isSign := by split <;> simp

theorem chars_writtenExponent (lead : Int) : (writtenExponent lead).chars = exponentMark lead := by
  rw [Exponent.chars, writtenExponent, Digits.chars_ofNat]
  rfl

theorem value_writtenExponent (lead : Int) : (writtenExponent lead).value = lead := by
  have hnegative : (writtenExponent lead).isNegative = decide (lead < 0) := by
    rw [Exponent.isNegative, writtenExponent]
    split
    · next h => exact (decide_eq_true h).symm
    · next h => exact (decide_eq_false h).symm
  have hdigits : (writtenExponent lead).digits.value = lead.natAbs := Digits.value_ofNat _
  rw [Exponent.value, hnegative, hdigits]
  split
  · next h =>
    have := of_decide_eq_true h
    omega
  · next h =>
    have := of_decide_eq_false (Bool.eq_false_iff.mpr h)
    omega

theorem spellsDecimal_exponent (whole : Digits) (fraction? : Option Digits)
    (h : whole.first = '0' → whole.more = []) {d : Decimal} (lead : Int)
    (hdigits : Nat.ofDigitChars 10 (whole.chars ++ fraction?.elim [] Digits.chars) 0 = d.digits)
    (hexponent : lead - (fraction?.elim [] Digits.chars).length = d.exponent) :
    SpellsDecimal
      (whole.chars ++ (fraction?.elim [] (fun d => '.' :: d.chars) ++ exponentMark lead)) d
      lead := by
  refine ⟨⟨false, whole, fraction?, some (writtenExponent lead), h⟩, rfl, Bool.or_true _, ?_, ?_,
    ?_, ?_⟩
  · rw [← chars_writtenExponent]
    rfl
  · rw [← hdigits, Nat.ofDigitChars_append]
    cases fraction? <;> rfl
  · rw [← hexponent, Numeral.power, Option.elim_some, value_writtenExponent]
    cases fraction? <;> rfl
  · rintro e ⟨⟩
    exact Digits.value_ofNat _

theorem spellsDecimal_pointed_exponentMark (hdigits : ∀ d ∈ c :: cs, d.isDigit = true)
    (lead : Int) :
    SpellsDecimal (pointed (c :: cs) ++ exponentMark lead)
      ⟨Nat.ofDigitChars 10 (c :: cs) 0, lead + 1 - (c :: cs).length⟩ lead := by
  have hfirst : ∀ d ∈ [c], d.isDigit = true :=
    List.forall_mem_singleton.mpr (hdigits c (List.mem_cons_self ..))
  cases cs with
  | nil =>
      refine spellsDecimal_exponent ⟨c, [], hfirst⟩ none (fun _ => rfl) lead rfl ?_
      show lead - (0 : Nat) = lead + 1 - (1 : Nat)
      omega
  | cons second rest =>
      have hfraction : ∀ d ∈ second :: rest, d.isDigit = true := fun d hd =>
        hdigits d (List.mem_cons_of_mem c hd)
      refine spellsDecimal_exponent ⟨c, [], hfirst⟩ (some ⟨second, rest, hfraction⟩) (fun _ => rfl)
        lead rfl ?_
      show lead - (rest.length + 1 : Nat) = lead + 1 - (rest.length + 1 + 1 : Nat)
      omega

end Layout

theorem spellsDecimal_layout {d : Decimal} (h : 0 < d.digits) :
    SpellsDecimal (layout d) d.written d.lead := by
  obtain ⟨c, cs, hcs, hc⟩ := exists_toDigits_eq_cons h
  have hdigits : ∀ x ∈ c :: cs, x.isDigit = true := by
    rw [← hcs]
    exact fun x hx => Nat.isDigit_of_mem_toDigits (by decide) (by decide) hx
  have hdecimal : d = ⟨Nat.ofDigitChars 10 (c :: cs) 0, d.lead + 1 - (c :: cs).length⟩ := by
    rw [Decimal.lead, ← hcs, Nat.ofDigitChars_ten_toDigits]
    obtain ⟨digits, exponent⟩ := d
    congr 1
    dsimp only
    omega
  have hlayout : layout d = if -5 ≤ d.lead ∧ d.lead ≤ 15 then inPlace (c :: cs) d.lead
      else pointed (c :: cs) ++ exponentMark d.lead := by
    rw [← hcs]
    rfl
  have hplace := spellsDecimal_inPlace hdigits hc d.lead
  have hexponent := spellsDecimal_pointed_exponentMark hdigits d.lead
  rw [← hdecimal] at hplace hexponent
  rw [hlayout, Decimal.written]
  split
  · exact hplace
  · exact hexponent

/-- The text of a decimal is a numeral with a point or an exponent, and its digits are those of the
decimal as it is written. -/
theorem exists_numeral_text (x : Binary64) :
    ∃ n : Numeral, n.isDecimal = true ∧ n.chars = x.text ∧ n.negative = x.isNegative ∧
      n.significand = x.written.digits ∧ n.power = x.written.exponent ∧
      ∀ e ∈ n.exponent?, e.digits.value = x.lead.natAbs := by
  have hmagnitude : SpellsDecimal (if x.isZero then ['0', '.', '0'] else layout x.shortest)
      x.written x.lead := by
    rw [Binary64.written, Binary64.lead]
    split
    · exact spellsDecimal_pointed .zero .zero (fun _ => rfl) _ rfl rfl
    · next hzero =>
      exact spellsDecimal_layout (Binary64.digits_shortest_pos (Bool.eq_false_iff.mpr hzero))
  obtain ⟨n, hsign, hdecimal, hchars, hworth⟩ := hmagnitude
  refine ⟨{ n with negative := x.isNegative }, hdecimal, ?_, rfl, hworth⟩
  rw [Numeral.chars, hsign] at hchars
  rw [Binary64.text, ← hchars, Numeral.chars]
  cases x.isNegative <;> rfl

section Spells

variable {x : Binary64} (style : Style) (depth : Nat)

theorem spells_decimal (h : x.isFinite = true) {n : Numeral} (hn : n.chars = x.text) :
    Spells (.number n) ((Value.number (.decimal x)).write style depth) := by
  rw [Value.write, Number.write, if_pos h, ← hn]
  exact .number n

theorem exists_spells_decimal (h : x.isFinite = true) :
    ∃ n : Numeral, n.isDecimal = true ∧
      Spells (.number n) ((Value.number (.decimal x)).write style depth) := by
  obtain ⟨n, hdecimal, hchars, -⟩ := exists_numeral_text x
  exact ⟨n, hdecimal, spells_decimal style depth h hchars⟩

/-- A number that is not finite has no text. -/
theorem spells_notFinite (h : ¬x.isFinite = true) :
    Spells .null ((Value.number (.decimal x)).write style depth) := by
  rw [Value.write, Number.write, if_neg h]
  exact .null

end Spells

end Json

end MeasureInference
