import MeasureInference.Proofs.Json.Numeral

/-!
Numerals whose digits fit.

A significand of sixty-four bits takes all digits of such a numeral, in front of the point and
behind it, so none of them is lost. What is scaled then is the one number that the digits make, by
the power of ten of the last of them.
-/

namespace MeasureInference.Json

def Exponent.value (e : Exponent) : Int :=
  if e.isNegative then -(e.digits.value : Int) else e.digits.value

namespace Numeral

variable (n : Numeral)

/-- A numeral with a point or an exponent. -/
def isDecimal : Bool := n.fraction?.isSome || n.exponent?.isSome

/-- The digits as one number. -/
def significand : Nat :=
  n.fraction?.elim n.whole.value fun d => Nat.ofDigitChars 10 d.chars n.whole.value

/-- The power of ten of the last digit. -/
def power : Int :=
  n.exponent?.elim 0 Exponent.value - n.fraction?.elim 0 fun d => (d.chars.length : Int)

/-- The significand has at most sixty-four bits, and the exponent at most thirty-one. -/
structure Fits : Prop where
  significand : n.significand < UInt64.size
  exponent : ∀ e ∈ n.exponent?, e.digits.value < Nat.pow 2 31

variable {n}

theorem Fits.whole (h : n.Fits) : n.whole.value < UInt64.size := by
  refine Nat.lt_of_le_of_lt ?_ h.significand
  rw [Numeral.significand]
  cases n.fraction? with
  | some d => exact le_ofDigitChars d.chars _
  | none => exact Nat.le_refl _

end Numeral

namespace Reader

variable {negative : Bool} {significand : Nat} {start : Int} {rest : List Char}

/-- Nothing is lost of a row of digits that stays below the limit. -/
theorem gather_of_lt {limit value : Nat} {d : Digits}
    (h : Nat.ofDigitChars 10 d.chars value < limit) (hrest : startsWithDigit rest = false) :
    gather limit value (d.chars ++ rest) =
      .ok ((Nat.ofDigitChars 10 d.chars value, d.chars.length), rest) := by
  obtain ⟨gathered, lost, hsplit, -, hread, hlost⟩ := gather_chars limit value d hrest
  have hvalue : value < limit := Nat.lt_of_le_of_lt (le_ofDigitChars d.chars value) h
  rw [(hlost hvalue).mpr h, List.append_nil] at hsplit
  rw [hread, (hlost hvalue).mpr h, hsplit, List.nil_append]

theorem exponent_of_lt {e : Exponent} (h : e.digits.value < Nat.pow 2 31)
    (hrest : startsWithDigit rest = false) :
    exponent negative significand start (e.sign ++ (e.digits.chars ++ rest)) =
      decimal negative significand (start + e.value) rest := by
  have hfirst : peekDigit (e.digits.chars ++ rest) = .ok (true, e.digits.chars ++ rest) := by
    rw [peekDigit_eq, e.digits.startsWithDigit_chars]
  have hvalue : (if e.isNegative then start - e.digits.value else start + e.digits.value) =
      start + e.value := by
    rw [Exponent.value]
    split <;> omega
  rw [exponent_sign, exponentDigits, bind_of_ok hfirst]
  refine (bind_of_ok (gather_of_lt h hrest)).trans ?_
  refine (bind_of_ok (peekDigit_eq rest)).trans ?_
  rw [hrest, if_neg Bool.false_ne_true]
  exact congrFun (congrArg _ hvalue) rest

theorem exponentOrEnd_of_lt {exponent? : Option Exponent}
    (h : ∀ e ∈ exponent?, e.digits.value < Nat.pow 2 31) (hrest : Delimited rest) :
    exponentOrEnd negative significand start (exponent?.elim [] Exponent.chars ++ rest) =
      decimal negative significand (start + exponent?.elim 0 Exponent.value) rest := by
  cases exponent? with
  | some e =>
      exact (bind_of_ok (acceptExponentMark_chars e rest)).trans
        (exponent_of_lt (h e rfl) (startsWithDigit_of_delimited hrest))
  | none =>
      rw [Option.elim_none, Option.elim_none, List.nil_append, Int.add_zero]
      exact bind_of_ok (acceptExponentMark_of_delimited hrest)

theorem fraction_of_lt {d : Digits} {exponent? : Option Exponent}
    (hd : Nat.ofDigitChars 10 d.chars significand < UInt64.size)
    (h : ∀ e ∈ exponent?, e.digits.value < Nat.pow 2 31) (hrest : Delimited rest) :
    fraction negative significand 0 (d.chars ++ (exponent?.elim [] Exponent.chars ++ rest)) =
      decimal negative (Nat.ofDigitChars 10 d.chars significand)
        (exponent?.elim 0 Exponent.value - d.chars.length) rest := by
  have hbehind := startsWithDigit_exponent exponent? hrest
  have hplaces : d.chars.length ≠ 0 := Nat.succ_ne_zero _
  rw [fraction, bind_of_ok (gather_of_lt hd hbehind)]
  refine (bind_of_ok (peekDigit_eq _)).trans ?_
  rw [hbehind, if_neg Bool.false_ne_true, if_neg hplaces, exponentOrEnd_of_lt h hrest]
  congr 1
  omega

theorem afterInteger_tail {n : Numeral} (hdecimal : n.isDecimal = true) (h : n.Fits)
    (hrest : Delimited rest) :
    afterInteger negative n.whole.value 0 (n.tail ++ rest) =
      decimal negative n.significand n.power rest := by
  have hsignificand := h.significand
  rw [Numeral.tail, Numeral.significand, Numeral.power]
  rw [Numeral.significand] at hsignificand
  cases hfraction : n.fraction? with
  | some d =>
      rw [hfraction, Option.elim_some] at hsignificand
      rw [Option.elim_some, Option.elim_some, Option.elim_some, List.append_assoc]
      exact fraction_of_lt hsignificand h.exponent hrest
  | none =>
      cases hexponent : n.exponent? with
      | none => simp [Numeral.isDecimal, hfraction, hexponent] at hdecimal
      | some e =>
          have hread : exponent negative n.whole.value 0 (e.sign ++ (e.digits.chars ++ rest)) =
              decimal negative n.whole.value (0 + e.value) rest :=
            exponent_of_lt (h.exponent e hexponent) (startsWithDigit_of_delimited hrest)
          rw [Int.zero_add] at hread
          refine (bind_of_ok (accept_point_exponent e rest)).trans ?_
          refine (bind_of_ok (acceptExponentMark_chars e rest)).trans (hread.trans ?_)
          rw [Option.elim_some, Option.elim_none, Option.elim_none, Int.sub_zero]

/-- A numeral with a point or an exponent is read by scaling its digits. -/
theorem number_of_fits {n : Numeral} (hdecimal : n.isDecimal = true) (h : n.Fits)
    (hrest : Delimited rest) :
    number (n.chars ++ rest) = decimal n.negative n.significand n.power rest := by
  obtain ⟨significand, lost, hread, hlost, hvalue⟩ :=
    unsigned_chars n.noLeadingZero n.negative (n.startsWithDigit_tail hrest)
  rw [number, bind_of_ok (accept_minus_chars n rest), hread, hvalue (hlost.mpr h.whole),
    hlost.mpr h.whole]
  exact afterInteger_tail hdecimal h hrest

end Reader

end MeasureInference.Json
