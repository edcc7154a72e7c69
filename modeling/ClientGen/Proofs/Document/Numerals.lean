import ClientGen.Proofs.Number.Spelling
import ClientGen.Proofs.Source.Refusing

/-! # Whole numbers as they are written

A whole number of any size in either of its spellings, decimal or hexadecimal, behind a
minus sign or not. The shared production reads it if its digits stand for a number below
the upper end of the 64-bit range (`Numeral.reads`), and refuses it otherwise
(`Numeral.refuses`), so that the lower end of the range is refused as well.
-/

namespace ClientGen

open Source
open Source.Lexer (isHexDigit)

/-- The digits of a whole number: decimal ones without leading zeros, or hexadecimal ones
behind their marker. -/
inductive Magnitude where
  | decimal (n : Nat)
  | hex (digits : List Char) (hne : digits ≠ []) (hlegal : ∀ c ∈ digits, isHexDigit c = true)

/-- The number that the digits stand for. -/
def Magnitude.value : Magnitude → Nat
  | decimal n => n
  | hex digits _ _ => Number.positional 16 digits

def Magnitude.face : Magnitude → Face
  | decimal n => { kind := .integerDecimal, value := String.ofList (Nat.toDigits 10 n) }
  | hex digits _ _ => { kind := .integerHex, value := String.ofList ('0' :: 'x' :: digits) }

/-- A whole number as it is written. -/
structure Numeral where
  negative : Bool
  magnitude : Magnitude

def Numeral.value (n : Numeral) : Int := Number.signedValue n.negative n.magnitude.value

def Numeral.faces (n : Numeral) : List Face :=
  if n.negative then [Face.mark .minus, n.magnitude.face] else [n.magnitude.face]

namespace Magnitude

theorem kind_face (m : Magnitude) : m.face.kind ∈ [TokenKind.integerDecimal, .integerHex] := by
  cases m <;> simp [face]

theorem avoids_minus (m : Magnitude) : avoids [.minus] [] (some m.face) :=
  avoids_of_kind fun hminus => by
    have hkind := m.kind_face
    simp [List.mem_singleton.mp hminus] at hkind

/-- Digits are read without their sign, and must be below the upper end of the range. -/
theorem int64?_face (m : Magnitude) :
    Number.int64? m.face.value = if m.value < 2 ^ 63 then some (m.value : Int) else none := by
  cases m with
  | decimal n =>
    obtain ⟨d, ds, hdigits⟩ := List.exists_cons_of_ne_nil (Nat.toDigits_ne_nil (b := 10) (n := n))
    have hlegal : d.isDigit = true :=
      Number.isDigit_of_mem_toDigits (hdigits ▸ List.mem_cons_self)
    rw [face, hdigits, Number.int64?_unsigned (Number.isHexDigit_of_isDigit hlegal).1, ← hdigits,
      Number.magnitude?_toDigits]
    rfl
  | hex digits hne hlegal =>
    rw [face, Number.int64?_unsigned (by decide), Number.magnitude?_hex (by decide) hne hlegal]
    rfl

end Magnitude

namespace Numeral

/-- The numbers that can be read: all of 64 bits but the lowest one. -/
theorem inRange_iff (n : Numeral) : InRange n.value ↔ n.magnitude.value < 2 ^ 63 := by
  unfold InRange value Number.signedValue
  split <;> omega

end Numeral

theorem Numeral.reads {n : Numeral} (hinRange : InRange n.value) :
    Reads Parser.integer n.faces anything (· = n.value) := by
  have hsmall := n.inRange_iff.mp hinRange
  have hdigits {t : Token} (hface : t.face = n.magnitude.face) :
      Number.int64? t.value = some (n.magnitude.value : Int) := by
    have hsame : t.value = n.magnitude.face.value := congrArg Face.value hface
    rw [hsame, Magnitude.int64?_face, if_pos hsmall]
  unfold Parser.integer Numeral.faces Numeral.value Number.signedValue
  cases n.negative with
  | true =>
    refine (reads_accept rfl).token fun b haccepted => ?_
    subst haccepted
    refine (reads_expectOf n.magnitude.kind_face).token fun t hface => ?_
    rw [hdigits hface]
    exact Reads.pure rfl
  | false =>
    refine reads_accept_none.ahead (fun o _ => n.magnitude.avoids_minus) fun b haccepted => ?_
    subst haccepted
    refine (reads_expectOf n.magnitude.kind_face).token fun t hface => ?_
    rw [hdigits hface]
    exact Reads.pure rfl

/-- What is said about digits that are refused. -/
def Magnitude.refusal (m : Magnitude) : String := "invalid integer " ++ m.face.value

theorem Numeral.refuses {n : Numeral} (houtside : ¬ InRange n.value) :
    Refuses Parser.integer n.faces Code.invalidNumber n.magnitude.refusal := by
  have hlarge : ¬ n.magnitude.value < 2 ^ 63 := fun hsmall => houtside (n.inRange_iff.mpr hsmall)
  have hunread {t : Token} (hface : t.face = n.magnitude.face) :
      Number.int64? t.value = none ∧ "invalid integer " ++ t.value = n.magnitude.refusal := by
    have hsame : t.value = n.magnitude.face.value := congrArg Face.value hface
    rw [hsame, Magnitude.int64?_face, if_neg hlarge]
    exact ⟨rfl, rfl⟩
  unfold Parser.integer Numeral.faces
  cases n.negative with
  | true =>
    refine Refuses.token (reads_accept rfl) fun b _ => ?_
    refine Refuses.token (reads_expectOf n.magnitude.kind_face) fun t hface => ?_
    rw [(hunread hface).1, (hunread hface).2]
    exact refuses_report _ _
  | false =>
    refine Refuses.ahead reads_accept_none (fun o => n.magnitude.avoids_minus) fun b _ => ?_
    refine Refuses.token (reads_expectOf n.magnitude.kind_face) fun t hface => ?_
    rw [(hunread hface).1, (hunread hface).2]
    exact refuses_report _ _

end ClientGen
