import ClientGen.Document.Literal
import ClientGen.Proofs.Source.Reading
import Mathlib.Algebra.Ring.Int.Defs
import Mathlib.Algebra.Ring.Nat

/-! # Spelling names and numbers

How dotted names and whole numbers are spelled with tokens, and that the shared
productions read them back. A name is cut at its dots whatever stands between
them; a number is spelled with its decimal digits behind a minus sign.
-/

namespace ClientGen

open Source

/-! ## Decimal digits -/

namespace Number

theorem digitValue?_of_isDigit {c : Char} (h : c.isDigit = true) :
    digitValue? c = some (c.toNat - '0'.toNat) ∧ c.toNat - '0'.toNat < 10 := by
  simp only [Char.isDigit, Bool.and_eq_true, decide_eq_true_eq] at h
  have hlo : '0' ≤ c := h.1
  have hhi : c ≤ '9' := h.2
  have hn : c.toNat ≤ 57 := h.2
  refine ⟨by simp [digitValue?, hlo, hhi], ?_⟩
  have h0 : '0'.toNat = 48 := rfl
  omega

theorem digitsValue?_of_isDigit {cs : List Char} (h : ∀ c ∈ cs, c.isDigit = true) (acc : Nat) :
    digitsValue? 10 acc cs = some (Nat.ofDigitChars 10 cs acc) := by
  induction cs generalizing acc with
  | nil => simp [digitsValue?]
  | cons c cs ih =>
      obtain ⟨hv, hlt⟩ := digitValue?_of_isDigit (h c (by simp))
      have hc : c ≠ '_' := by
        rintro rfl
        exact absurd (h '_' (by simp)) (by decide)
      rw [digitsValue?, if_neg hc, hv, Nat.ofDigitChars_cons]
      simp only [Option.bind_eq_bind, Option.bind_some, if_pos hlt]
      rw [ih (fun d hd => h d (by simp [hd])), Nat.mul_comm]

theorem isDigit_of_mem_toDigits {n : Nat} {c : Char} (h : c ∈ Nat.toDigits 10 n) :
    c.isDigit = true :=
  Nat.isDigit_of_mem_toDigits (by decide) (by decide) h

/-- The digits of a positive number do not start with zero. -/
theorem head_toDigits_ne {n : Nat} (hn : 0 < n) : (Nat.toDigits 10 n).head? ≠ some '0' := by
  induction n using Nat.strongRecOn with
  | ind n ih =>
      by_cases hlt : n < 10
      · rw [Nat.toDigits_of_lt_base hlt]
        have hall : ∀ k < 10, 0 < k → [Nat.digitChar k].head? ≠ some '0' := by decide
        exact hall n hlt hn
      · rw [Nat.toDigits_of_base_le (by decide) (by omega), List.head?_append]
        have hrec := ih (n / 10) (by omega) (by omega)
        cases hd : Nat.toDigits 10 (n / 10) with
        | nil => exact absurd hd Nat.toDigits_ne_nil
        | cons c cs =>
            rw [hd] at hrec
            simpa using hrec

theorem splitBase_of_head_ne {cs : List Char} (h : cs.head? ≠ some '0') :
    splitBase cs = (10, cs) := by
  unfold splitBase
  split
  · simp at h
  · simp at h
  · rfl

theorem magnitude?_toDigits (n : Nat) : magnitude? (Nat.toDigits 10 n) = some n := by
  by_cases hn : n = 0
  · subst hn
    decide
  · have hne : (Nat.toDigits 10 n).isEmpty = false := by
      simp [Nat.toDigits_ne_nil]
    have hu : (Nat.toDigits 10 n).contains '_' = false := by
      simp [Nat.underscore_not_in_toDigits]
    have hv : digitsValue? 10 0 (Nat.toDigits 10 n) = some n := by
      rw [digitsValue?_of_isDigit fun c hc => isDigit_of_mem_toDigits hc,
        Nat.ofDigitChars_ten_toDigits]
    have hb := splitBase_of_head_ne (head_toDigits_ne (Nat.pos_of_ne_zero hn))
    simp only [magnitude?, hne, hb, hv, hu]
    rfl

theorem splitSign_toDigits (n : Nat) :
    splitSign (Nat.toDigits 10 n) = (false, Nat.toDigits 10 n) := by
  have hd : ∀ c ∈ Nat.toDigits 10 n, c.isDigit = true := fun c hc => isDigit_of_mem_toDigits hc
  unfold splitSign
  split
  · rename_i cs hcs
    exact absurd (hd '-' (by simp [hcs])) (by decide)
  · rename_i cs hcs
    exact absurd (hd '+' (by simp [hcs])) (by decide)
  · rfl

/-- The decimal digits of a number below `2 ^ 63` stand for it. -/
theorem int64?_ofNat {n : Nat} (h : n < 2 ^ 63) : int64? (Text.ofNat n) = some (n : Int) := by
  have hbound : n < 9223372036854775808 := Nat.lt_of_lt_of_eq h (by decide)
  simp [int64?, Text.ofNat, splitSign_toDigits, magnitude?_toDigits, hbound]

end Number

/-! ## Dotted names -/

/-- The parts of a name between its dots; a name without dots is its only part. -/
def components (name : String) : List String := (name.toList.splitOn '.').map String.ofList

theorem components_ne_nil (name : String) : components name ≠ [] := by
  simp [components, List.splitOn_ne_nil]

theorem intercalate_components (name : String) : ".".intercalate (components name) = name := by
  apply String.toList_inj.mp
  have hdot : ".".toList = ['.'] := rfl
  have hparts : (components name).map String.toList = name.toList.splitOn '.' := by
    simp [components, Function.comp_def]
  rw [String.toList_intercalate, hparts, hdot, List.intercalate_splitOn]

def Source.Face.dotted (name : String) : List Face :=
  match components name with
  | [] => []
  | first :: others => Face.word first :: others.flatMap fun part => [Face.mark .dot, Face.word part]

def firstComponent (name : String) : String := (components name).headD ""

theorem head_dotted (name : String) :
    (Face.dotted name).head? = some (Face.word (firstComponent name)) := by
  have hne := components_ne_nil name
  unfold Face.dotted firstComponent
  cases hc : components name with
  | nil => exact absurd hc hne
  | cons _ _ => rfl

theorem reads_dottedName (name : String) :
    Reads Parser.dottedName (Face.dotted name) (avoids [.dot] []) (· = name) := by
  have hjoin := intercalate_components name
  unfold Parser.dottedName Face.dotted
  cases hc : components name with
  | nil => exact absurd hc (components_ne_nil name)
  | cons first others =>
      rw [hc] at hjoin
      have hread : Reads (Parser.sepBy1 .dot Parser.identifier)
          ([Face.word first] ++ others.flatMap fun part => [Face.mark .dot, Face.word part])
          (avoids [.dot] []) fun names => names.map Token.value = (first :: others).map id :=
        reads_sepBy1 first others (m := anything) trivial (fun o ho => ⟨ho, trivial⟩)
          fun part _ => reads_identifier part
      refine hread.andThen fun names hnames => Reads.pure ?_
      rw [hnames, List.map_id]
      exact hjoin

/-! ## Whole numbers -/

/-- A whole number: a minus sign if it is negative, and its decimal digits. -/
def Source.Face.integer (n : Int) : List Face :=
  if n < 0 then [Face.mark .minus, { kind := .integerDecimal, value := Text.ofNat n.natAbs }]
  else [{ kind := .integerDecimal, value := Text.ofNat n.natAbs }]

theorem head_integer (n : Int) : ∃ f, (Face.integer n).head? = some f ∧
    (f.kind = .minus ∨ f.kind = .integerDecimal) := by
  unfold Face.integer
  split
  · exact ⟨Face.mark .minus, rfl, Or.inl rfl⟩
  · exact ⟨_, rfl, Or.inr rfl⟩

/-- The numbers that a spelling with a separate sign can stand for. -/
def InRange (n : Int) : Prop := -2 ^ 63 < n ∧ n < 2 ^ 63

instance (n : Int) : Decidable (InRange n) := inferInstanceAs (Decidable (_ ∧ _))

theorem reads_integer {n : Int} (h : InRange n) :
    Reads Parser.integer (Face.integer n) anything (· = n) := by
  have hlt : n.natAbs < 2 ^ 63 := by
    obtain ⟨hlo, hhi⟩ := h
    omega
  have hvalue {t : Token} (ht : t.face = { kind := .integerDecimal, value := Text.ofNat n.natAbs }) :
      Number.int64? t.value = some (n.natAbs : Int) := by
    have hv : t.value = Text.ofNat n.natAbs := congrArg Face.value ht
    rw [hv, Number.int64?_ofNat hlt]
  unfold Parser.integer Face.integer
  by_cases hneg : n < 0
  · rw [if_pos hneg]
    refine (reads_accept rfl).token fun b hb => ?_
    subst hb
    refine (reads_expectOf (by simp)).token fun t ht => ?_
    rw [hvalue ht]
    exact Reads.pure (by simp only [if_true]; omega)
  · rw [if_neg hneg]
    refine reads_accept_none.ahead (fun o _ => by simp [Face.isWord]) fun b hb => ?_
    subst hb
    refine (reads_expectOf (by simp)).token fun t ht => ?_
    rw [hvalue ht]
    exact Reads.pure (by simp only [Bool.false_eq_true, if_false]; omega)

/-! ## Number constants -/

/-- The token of an unsigned number; a marker after a zero makes it hexadecimal. -/
def Source.Face.numeral (float : Bool) (digits : String) : Face :=
  if float then { kind := .floatDecimal, value := digits }
  else match digits.toList with
    | '0' :: 'x' :: _ | '0' :: 'X' :: _ => { kind := .integerHex, value := digits }
    | _ => { kind := .integerDecimal, value := digits }

/-- A number constant from its text, whose minus sign is a token of its own. -/
def Source.Face.number (float : Bool) (text : String) : List Face :=
  match text.toList with
  | '-' :: digits => [Face.mark .minus, Face.numeral float (String.ofList digits)]
  | _ => [Face.numeral float text]

theorem kind_numeral (float : Bool) (digits : String) :
    (Face.numeral float digits).kind ∈
      [TokenKind.integerDecimal, TokenKind.integerHex, TokenKind.floatDecimal] ∧
    ((Face.numeral float digits).kind = .floatDecimal ↔ float = true) := by
  unfold Face.numeral
  split
  · simp_all
  · split <;> simp_all

theorem value_numeral (float : Bool) (digits : String) :
    (Face.numeral float digits).value = digits := by
  unfold Face.numeral
  split
  · rfl
  · split <;> rfl

/-- The constant of a number token is the number that the token spells. -/
theorem ofNumber_numeral {t : Token} {float : Bool} {digits : String} (sign : String)
    (h : t.face = Face.numeral float digits) :
    Const.ofNumber sign t = .scalar (if float then .double else .int) (sign ++ digits) := by
  have hkind : t.kind = (Face.numeral float digits).kind := congrArg Face.kind h
  have hvalue : t.value = digits := (congrArg Face.value h).trans (value_numeral float digits)
  simp only [Const.ofNumber, hkind, (kind_numeral float digits).2, hvalue]

def numberStarts : List TokenKind := [.minus, .integerDecimal, .integerHex, .floatDecimal]

theorem head_number (float : Bool) (text : String) :
    ∃ f, (Face.number float text).head? = some f ∧ f.kind ∈ numberStarts := by
  unfold Face.number
  split
  · exact ⟨Face.mark .minus, rfl, by decide⟩
  · exact ⟨_, rfl, List.mem_cons_of_mem _ (kind_numeral float text).1⟩

theorem minus_append_ofList {text : String} {digits : List Char}
    (h : text.toList = '-' :: digits) : "-" ++ String.ofList digits = text := by
  apply String.toList_inj.mp
  simp [h]

end ClientGen
