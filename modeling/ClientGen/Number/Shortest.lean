import ClientGen.Text.Basic

/-! # The fewest digits that read back

A finite binary fraction is written with as few decimal digits as still read
back as the same fraction, and among those the nearest ones. A grid of decimal
fractions is tried for each number of digits; if one of its points lies in the
interval that reads back, so does one of the two points next to the value.
-/

namespace ClientGen
namespace Number

/-- A positive fraction `mantissa * 2 ^ exponent`, and whether the next smaller
fraction is only half as far away as the next larger one. -/
structure Fraction where
  mantissa : Nat
  exponent : Int
  lowerCloser : Bool
deriving DecidableEq, Repr, Inhabited

structure Digits where
  digits : Nat
  exponent : Int
deriving DecidableEq, Repr, Inhabited

structure Quotient where
  num : Nat
  den : Nat
deriving DecidableEq, Repr, Inhabited

def Quotient.scale (q : Quotient) (base : Nat) (e : Int) : Quotient :=
  if e ≥ 0 then { q with num := q.num * base.pow e.toNat }
  else { q with den := q.den * base.pow (-e).toNat }

def Quotient.lt (a b : Quotient) : Bool := a.num * b.den < b.num * a.den

def Quotient.le (a b : Quotient) : Bool := a.num * b.den ≤ b.num * a.den

namespace Fraction

def quarters (f : Fraction) (n : Nat) : Quotient := Quotient.scale ⟨n, 4⟩ 2 f.exponent

def value (f : Fraction) : Quotient := f.quarters (4 * f.mantissa)

def low (f : Fraction) : Quotient :=
  f.quarters (4 * f.mantissa - if f.lowerCloser then 1 else 2)

/-- The upper end of what reads back as the fraction. -/
def high (f : Fraction) : Quotient := f.quarters (4 * f.mantissa + 2)

/-- Whether a decimal reads back as the fraction. The ends do when the mantissa
is even. -/
def reads (f : Fraction) (d : Digits) : Bool :=
  let q := Quotient.scale ⟨d.digits, 1⟩ 10 d.exponent
  if f.mantissa % 2 == 0 then f.low.le q && q.le f.high else f.low.lt q && q.lt f.high

/-- The exponent of the leading decimal digit, starting from a first guess that
is too large. -/
def leadAux (q : Quotient) : Nat → Int → Int
  | 0, e => e
  | fuel + 1, e => if (Quotient.scale ⟨1, 1⟩ 10 e).le q then e else leadAux q fuel (e - 1)

/-- The exponent of the leading decimal digit. A mantissa has at most 53 bits. -/
def lead (f : Fraction) : Int :=
  let bits : Int := Nat.log2 f.mantissa + f.exponent
  leadAux f.value 8 (bits * 30103 / 100000 + 2)

/-- The decimal with a number of digits that reads back and is nearest, when one
does. Of two at the same distance the even one is taken. -/
def onGrid? (f : Fraction) (count : Nat) : Option Digits :=
  let e := f.lead - (count : Int) + 1
  let scaled := Quotient.scale f.value 10 (-e)
  let down := scaled.num / scaled.den
  let twice := 2 * (scaled.num - down * scaled.den)
  let upIsNearer := twice > scaled.den || (twice == scaled.den && down % 2 == 1)
  let below : Digits := ⟨down, e⟩
  let above : Digits := ⟨down + 1, e⟩
  match f.reads below, f.reads above with
  | true, true => some (if upIsNearer then above else below)
  | true, false => some below
  | false, true => some above
  | false, false => none

def shortest (f : Fraction) : Digits :=
  ((List.range 17).findSome? fun n => f.onGrid? (n + 1)).getD ⟨f.mantissa, 0⟩

end Fraction

def Digits.trimAux : Nat → Digits → Digits
  | 0, d => d
  | fuel + 1, d =>
    if d.digits ≠ 0 ∧ d.digits % 10 = 0 then trimAux fuel ⟨d.digits / 10, d.exponent + 1⟩ else d

/-- The same decimal without trailing zeros. -/
def Digits.trim (d : Digits) : Digits := trimAux 20 d

end Number
end ClientGen
