import ClientGen.Proofs.Document.Literal
import ClientGen.Proofs.Source.Spelling
import ClientGen.Source.Lexer
import Mathlib.Data.Nat.Digits.Defs
import Mathlib.Tactic.IntervalCases

/-! # What digits stand for

The number that digits stand for in a base, told from their places, and what reading a
number of any base makes of them: hexadecimal digits behind their marker are read in
base sixteen (`magnitude?_hex`), and decimal digits in base ten, but in base eight
behind a leading zero, where an eight or a nine is no digit (`magnitude?_decimal`,
`magnitude?_zero_iff`).
-/

namespace ClientGen
namespace Number

open Source (forall_of_all)
open Source.Lexer (isHexDigit)

def digit (c : Char) : Nat := "0123456789abcdef".toList.idxOf c.toLower

/-- The number that digits stand for in a base, the last one at the place of ones. -/
def positional (base : Nat) (cs : List Char) : Nat := Nat.ofDigits base (cs.reverse.map digit)

theorem positional_nil (base : Nat) : positional base [] = 0 := rfl

theorem positional_cons (base : Nat) (c : Char) (cs : List Char) :
    positional base (c :: cs) = digit c * base ^ cs.length + positional base cs := by
  simp only [positional, List.reverse_cons, List.map_append, Nat.ofDigits_append,
    List.length_map, List.length_reverse, List.map_cons, List.map_nil, Nat.ofDigits_singleton]
  rw [Nat.mul_comm (base ^ cs.length), Nat.add_comm]

theorem positional_zero (base : Nat) (cs : List Char) :
    positional base ('0' :: cs) = positional base cs := by
  rw [positional_cons]
  simp [digit]

/-! ## Digits -/

theorem mem_of_isHexDigit {c : Char} (h : isHexDigit c = true) :
    c ∈ "0123456789abcdefABCDEF".toList := by
  have hrange : (48 ≤ c.toNat ∧ c.toNat ≤ 57) ∨ (97 ≤ c.toNat ∧ c.toNat ≤ 102) ∨
      (65 ≤ c.toNat ∧ c.toNat ≤ 70) := by
    unfold isHexDigit Text.hexDigit? at h
    split at h
    · rename_i harabic
      simp only [Bool.and_eq_true, decide_eq_true_eq] at harabic
      exact .inl harabic
    · split at h
      · rename_i hlower
        simp only [Bool.and_eq_true, decide_eq_true_eq] at hlower
        exact .inr (.inl hlower)
      · split at h
        · rename_i hupper
          simp only [Bool.and_eq_true, decide_eq_true_eq] at hupper
          exact .inr (.inr hupper)
        · cases h
  rw [← Char.ofNat_toNat c]
  rcases hrange with ⟨hlow, high⟩ | ⟨hlow, high⟩ | ⟨hlow, high⟩ <;>
    interval_cases c.toNat <;> decide

theorem isHexDigit_of_isDigit {c : Char} (h : c.isDigit = true) :
    isHexDigit c = true ∧ digit c < 10 := by
  simp only [Char.isDigit, Bool.and_eq_true, decide_eq_true_eq] at h
  have hrange : 48 ≤ c.toNat ∧ c.toNat ≤ 57 := h
  rw [← Char.ofNat_toNat c]
  obtain ⟨hlow, high⟩ := hrange
  interval_cases c.toNat <;> decide

theorem digitValue?_eq {c : Char} (h : isHexDigit c = true) :
    digitValue? c = some (digit c) ∧ c ∉ ['_', '-', '+'] := by
  have hall : ∀ c ∈ "0123456789abcdefABCDEF".toList,
      digitValue? c = some (digit c) ∧ c ∉ ['_', '-', '+'] := forall_of_all (by decide)
  exact hall c (mem_of_isHexDigit h)

theorem digit_lt {c : Char} (h : isHexDigit c = true) : digit c < 16 := by
  have hall : ∀ c ∈ "0123456789abcdefABCDEF".toList, digit c < 16 :=
    forall_of_all (by decide)
  exact hall c (mem_of_isHexDigit h)

/-- Digits of a base are read as the number that they stand for. -/
theorem digitsValue?_positional (base : Nat) {cs : List Char}
    (hlegal : ∀ c ∈ cs, isHexDigit c = true ∧ digit c < base) (acc : Nat) :
    digitsValue? base acc cs = some (acc * base ^ cs.length + positional base cs) := by
  induction cs generalizing acc with
  | nil => simp [digitsValue?, positional_nil]
  | cons c cs ih =>
    obtain ⟨hhex, hsmall⟩ := hlegal c List.mem_cons_self
    obtain ⟨hvalue, hnoMark⟩ := digitValue?_eq hhex
    have hnoUnderscore : c ≠ '_' := fun hsame => hnoMark (by simp [hsame])
    rw [digitsValue?, if_neg hnoUnderscore, hvalue]
    simp only [Option.bind_eq_bind, Option.bind_some, if_pos hsmall]
    rw [ih (fun d h => hlegal d (List.mem_cons_of_mem c h)), positional_cons, List.length_cons,
      pow_succ]
    congr 1
    ring

/-- A digit that the base does not have. -/
theorem digitsValue?_none {base : Nat} {cs : List Char}
    (hlegal : ∀ c ∈ cs, isHexDigit c = true) (hbig : ∃ c ∈ cs, base ≤ digit c) (acc : Nat) :
    digitsValue? base acc cs = none := by
  induction cs generalizing acc with
  | nil => simp at hbig
  | cons c cs ih =>
    obtain ⟨hvalue, hnoMark⟩ := digitValue?_eq (hlegal c List.mem_cons_self)
    have hnoUnderscore : c ≠ '_' := fun hsame => hnoMark (by simp [hsame])
    rw [digitsValue?, if_neg hnoUnderscore, hvalue]
    simp only [Option.bind_eq_bind, Option.bind_some]
    by_cases hsmall : digit c < base
    · rw [if_pos hsmall]
      refine ih (fun d h => hlegal d (List.mem_cons_of_mem c h)) ?_ _
      obtain ⟨d, hmember, hbigger⟩ := hbig
      rcases List.mem_cons.mp hmember with rfl | hmember
      · omega
      · exact ⟨d, hmember, hbigger⟩
    · rw [if_neg hsmall]

/-! ## Magnitudes -/

theorem contains_underscore {cs : List Char} (hlegal : ∀ c ∈ cs, isHexDigit c = true) :
    cs.contains '_' = false := by
  refine Bool.eq_false_iff.mpr fun h => ?_
  exact (digitValue?_eq (hlegal _ (List.contains_iff_mem.mp h))).2 List.mem_cons_self

/-- A number whose digits are known, and hold no underscore. -/
theorem magnitude?_eq {cs : List Char} (hne : cs ≠ []) (hplain : cs.contains '_' = false) :
    magnitude? cs = digitsValue? (splitBase cs).1 0 (splitBase cs).2 := by
  have hnonempty : cs.isEmpty = false := by simpa using hne
  simp only [magnitude?, hnonempty, hplain, Bool.false_and, Bool.false_eq_true, if_false,
    Option.bind_eq_bind]
  exact Option.bind_fun_some _

/-- Hexadecimal digits behind their marker. -/
theorem magnitude?_hex {marker : Char} {cs : List Char} (hmark : marker ∈ ['x', 'X'])
    (hne : cs ≠ []) (hlegal : ∀ c ∈ cs, isHexDigit c = true) :
    magnitude? ('0' :: marker :: cs) = some (positional 16 cs) := by
  have hplain : ('0' :: marker :: cs).contains '_' = false := by
    have hunmarked : ∀ m ∈ ['x', 'X'], (m == '_') = false := forall_of_all (by decide)
    rw [List.contains_cons, List.contains_cons, contains_underscore hlegal]
    simpa [Bool.beq_comm] using hunmarked marker hmark
  have hbase : splitBase ('0' :: marker :: cs) = (16, cs) := by
    obtain ⟨d, rest, rfl⟩ := List.exists_cons_of_ne_nil hne
    have hmarked : marker = 'x' ∨ marker = 'X' := by simpa using hmark
    rw [splitBase, if_pos hmarked]
  rw [magnitude?_eq (List.cons_ne_nil _ _) hplain, hbase,
    digitsValue?_positional 16 fun c h => ⟨hlegal c h, digit_lt (hlegal c h)⟩]
  simp

/-- Decimal digits without a leading zero. -/
theorem magnitude?_decimal {cs : List Char} (hne : cs ≠ []) (hnoZero : cs.head? ≠ some '0')
    (hlegal : ∀ c ∈ cs, c.isDigit = true) : magnitude? cs = some (positional 10 cs) := by
  have hplain := contains_underscore fun c h => (isHexDigit_of_isDigit (hlegal c h)).1
  rw [magnitude?_eq hne hplain, splitBase_of_head_ne hnoZero,
    digitsValue?_positional 10 fun c h => isHexDigit_of_isDigit (hlegal c h)]
  simp

theorem splitBase_zero {cs : List Char} (hlegal : ∀ c ∈ cs, c.isDigit = true) :
    splitBase ('0' :: cs) = (8, cs) := by
  match cs with
  | [] => rfl
  | [_] => rfl
  | m :: d :: rest =>
    have hnoMarker : ∀ marker ∈ ['x', 'X', 'o', 'O', 'b', 'B'], m ≠ marker := by
      rintro marker hlisted rfl
      have hletters : ∀ c ∈ ['x', 'X', 'o', 'O', 'b', 'B'], c.isDigit = false :=
        forall_of_all (by decide)
      exact absurd (hlegal m List.mem_cons_self) (by simp [hletters m hlisted])
    simp only [List.mem_cons, List.not_mem_nil, or_false, forall_eq_or_imp, forall_eq] at hnoMarker
    simp [splitBase, hnoMarker]

/-- Decimal digits behind a leading zero are read in base eight. -/
theorem magnitude?_zero {cs : List Char} (hlegal : ∀ c ∈ cs, c.isDigit = true) :
    magnitude? ('0' :: cs) = digitsValue? 8 0 cs := by
  have hplain : ('0' :: cs).contains '_' = false := by
    rw [List.contains_cons, contains_underscore fun c h => (isHexDigit_of_isDigit (hlegal c h)).1]
    rfl
  rw [magnitude?_eq (List.cons_ne_nil _ _) hplain, splitBase_zero hlegal]

/-! ## Signed numbers -/

theorem splitSign_digit {c : Char} (hlegal : isHexDigit c = true) (cs : List Char) :
    splitSign (c :: cs) = (false, c :: cs) := by
  have hnoSign := (digitValue?_eq hlegal).2
  unfold splitSign
  split
  · rename_i hminus
    exact absurd (List.cons.inj hminus).1 fun hsame => hnoSign (by simp [hsame])
  · rename_i hplus
    exact absurd (List.cons.inj hplus).1 fun hsame => hnoSign (by simp [hsame])
  · rfl

/-- A number without a sign is read if it is below the upper end of the range. -/
theorem int64?_unsigned {c : Char} (hlegal : isHexDigit c = true) (cs : List Char) :
    int64? (String.ofList (c :: cs)) =
      (magnitude? (c :: cs)).bind fun n => if n < 2 ^ 63 then some (n : Int) else none := by
  have hbound : (1 : Nat) <<< 63 = 2 ^ 63 := rfl
  simp only [int64?, String.toList_ofList, splitSign_digit hlegal, Option.bind_eq_bind, hbound]
  rfl

/-- A number behind a minus sign may be one larger. -/
theorem int64?_minus (cs : List Char) :
    int64? (String.ofList ('-' :: cs)) =
      (magnitude? cs).bind fun n => if n ≤ 2 ^ 63 then some (-(n : Int)) else none := by
  have hbound : (1 : Nat) <<< 63 = 2 ^ 63 := rfl
  simp only [int64?, String.toList_ofList, splitSign, Option.bind_eq_bind, hbound]
  rfl

def signed (negative : Bool) (digits : List Char) : List Char :=
  if negative then '-' :: digits else digits

def signedValue (negative : Bool) (n : Nat) : Int := if negative then -n else n

/-- Digits behind a sign are read as the number that they are read as alone, if it has 64 bits
behind the sign. -/
theorem int64?_signed_iff (negative : Bool) {c : Char} (hlegal : isHexDigit c = true)
    (cs : List Char) (n : Nat) :
    int64? (String.ofList (signed negative (c :: cs))) = some (signedValue negative n) ↔
      magnitude? (c :: cs) = some n ∧
        -2 ^ 63 ≤ signedValue negative n ∧ signedValue negative n < 2 ^ 63 := by
  cases negative with
  | true =>
    simp only [signed, signedValue, if_true, int64?_minus, Option.bind_eq_some_iff,
      Option.ite_none_right_eq_some, Option.some.injEq]
    constructor
    · rintro ⟨m, hread, hsmall, hsame⟩
      obtain rfl : m = n := by omega
      exact ⟨hread, by omega⟩
    · rintro ⟨hread, hlow, -⟩
      exact ⟨n, hread, by omega, rfl⟩
  | false =>
    simp only [signed, signedValue, Bool.false_eq_true, if_false, int64?_unsigned hlegal,
      Option.bind_eq_some_iff, Option.ite_none_right_eq_some, Option.some.injEq]
    constructor
    · rintro ⟨m, hread, hsmall, hsame⟩
      obtain rfl : m = n := by omega
      exact ⟨hread, by omega⟩
    · rintro ⟨hread, -, high⟩
      exact ⟨n, hread, by omega, rfl⟩

/-! ## Eight and ten -/

theorem digit_le_positional {base : Nat} (hpos : 0 < base) {c : Char} {cs : List Char}
    (hmember : c ∈ cs) : digit c ≤ positional base cs := by
  induction cs with
  | nil => cases hmember
  | cons d ds ih =>
    rw [positional_cons]
    rcases List.mem_cons.mp hmember with rfl | hmember
    · have hplace := Nat.le_mul_of_pos_right (digit c) (Nat.pow_pos (n := ds.length) hpos)
      omega
    · have hrest := ih hmember
      omega

theorem positional_mono {low high : Nat} (hle : low ≤ high) (cs : List Char) :
    positional low cs ≤ positional high cs := Nat.ofDigits_monotone _ hle

/-- Digits below eight stand for the same number in both bases only if they stand for a
digit. -/
theorem positional_eight_eq_ten_iff {cs : List Char} (hoctal : ∀ c ∈ cs, digit c < 8) :
    positional 8 cs = positional 10 cs ↔ positional 10 cs < 8 := by
  induction cs with
  | nil => simp [positional_nil]
  | cons c cs ih =>
    obtain ⟨hsmall, hothers⟩ := List.forall_mem_cons.mp hoctal
    rw [positional_cons, positional_cons]
    by_cases hzero : digit c = 0
    · simpa [hzero] using ih hothers
    cases cs with
    | nil => simpa [positional_nil] using hsmall
    | cons d ds =>
      have hbelow := positional_mono (by decide : 8 ≤ 10) (d :: ds)
      have hapart : 8 ^ (d :: ds).length < 10 ^ (d :: ds).length :=
        Nat.pow_lt_pow_left (by decide) (by simp)
      have hsmaller := Nat.mul_lt_mul_of_pos_left hapart (Nat.pos_of_ne_zero hzero)
      have hlarge : 10 ≤ 10 ^ (d :: ds).length := Nat.le_self_pow (by simp) 10
      have hlarger := Nat.mul_le_mul (Nat.pos_of_ne_zero hzero) hlarge
      omega

/-- Decimal digits behind a leading zero are read as the number that is written in base ten
only if they stand for a digit that base eight has too. -/
theorem magnitude?_zero_iff {cs : List Char} (hlegal : ∀ c ∈ cs, c.isDigit = true) :
    magnitude? ('0' :: cs) = some (positional 10 ('0' :: cs)) ↔ positional 10 ('0' :: cs) < 8 := by
  have hhex : ∀ c ∈ cs, isHexDigit c = true := fun c h => (isHexDigit_of_isDigit (hlegal c h)).1
  rw [magnitude?_zero hlegal, positional_zero]
  by_cases hoctal : ∀ c ∈ cs, digit c < 8
  · rw [digitsValue?_positional 8 (fun c h => ⟨hhex c h, hoctal c h⟩), Option.some.injEq]
    simpa using positional_eight_eq_ten_iff hoctal
  · rw [digitsValue?_none hhex (by simpa using hoctal)]
    refine iff_of_false (Option.some_ne_none _).symm fun hsmall => hoctal fun c h => ?_
    exact Nat.lt_of_le_of_lt (digit_le_positional (by decide) h) hsmall

/-! ## Whole numbers in decimal -/

theorem positional_toDigits (n : Nat) : positional 10 (Nat.toDigits 10 n) = n := by
  by_cases hzero : n = 0
  · subst hzero
    decide
  · have hread := magnitude?_decimal Nat.toDigits_ne_nil
      (head_toDigits_ne (Nat.pos_of_ne_zero hzero)) fun c h => isDigit_of_mem_toDigits h
    exact Option.some.inj (hread.symm.trans (magnitude?_toDigits n))

end Number
end ClientGen
