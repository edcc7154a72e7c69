import ClientGen.Number.Integer
import ClientGen.Number.Shortest
import ClientGen.Text.LetterCase

/-! # Floating point numbers as texts

Writing uses the fewest digits that read back; a format says between which
exponents the number is written positionally. Reading takes decimal and
hexadecimal spellings, infinities and not-a-number.
-/

namespace ClientGen
namespace Number

inductive Parts where
  | nan
  | infinite (negative : Bool)
  | zero (negative : Bool)
  | finite (negative : Bool) (f : Fraction)
deriving DecidableEq, Repr, Inhabited

def parts (x : Float) : Parts :=
  let bits := x.toBits.toNat
  let negative : Bool := bits ≥ 1 <<< 63
  let e : Nat := (bits >>> 52) % 2048
  let m : Nat := bits % (1 <<< 52)
  if e = 2047 then if m = 0 then .infinite negative else .nan
  else if e = 0 then
    if m = 0 then .zero negative else .finite negative ⟨m, -1074, false⟩
  else .finite negative ⟨(1 <<< 52) + m, (e : Int) - 1075, m = 0 && e > 1⟩

structure Layout where
  /-- The least exponent of the leading digit that is written positionally. -/
  least : Int
  /-- The first exponent of the leading digit that is not. -/
  most : Int
  /-- The least number of digits of a written exponent. -/
  exponentWidth : Nat
deriving DecidableEq, Repr, Inhabited

def Layout.json : Layout := ⟨-6, 21, 1⟩

/-- Numbers as plain text, such as the keys of maps. -/
def Layout.plain : Layout := ⟨-4, 6, 2⟩

def Layout.write (l : Layout) (digits : List Char) (lead : Int) : String :=
  if l.least ≤ lead ∧ lead < l.most then
    if lead < 0 then "0." ++ Text.repeated (-lead - 1).toNat "0" ++ String.ofList digits
    else
      let whole := lead.toNat + 1
      if digits.length ≤ whole then
        String.ofList digits ++ Text.repeated (whole - digits.length) "0"
      else String.ofList (digits.take whole) ++ "." ++ String.ofList (digits.drop whole)
  else
    let mantissa := match digits with
      | [] => ""
      | [d] => String.ofList [d]
      | d :: ds => String.ofList [d] ++ "." ++ String.ofList ds
    let e := Text.ofNat lead.natAbs
    mantissa ++ "e" ++ (if lead < 0 then "-" else "+") ++
      Text.repeated (l.exponentWidth - e.length) "0" ++ e

/-- The text of a number; not-a-number and the infinities have none. -/
def Layout.text? (l : Layout) (x : Float) : Option String :=
  match parts x with
  | .nan => none
  | .infinite _ => none
  | .zero negative => some (if negative then "-0" else "0")
  | .finite negative f =>
    let d := f.shortest.trim
    let digits := Nat.toDigits 10 d.digits
    let body := l.write digits (d.exponent + digits.length - 1)
    some (if negative then "-" ++ body else body)

def plainText (x : Float) : String :=
  match parts x with
  | .nan => "NaN"
  | .infinite negative => if negative then "-Inf" else "+Inf"
  | _ => (Layout.plain.text? x).getD ""

/-- What is read of a number before its value: the digits of the mantissa, how
many of them stand after the point, whether a point was met, and what is left. -/
structure Mantissa where
  value : Nat := 0
  digits : Nat := 0
  fraction : Nat := 0
  point : Bool := false

/-- Reads the digits of a mantissa in a base, passing over underscores. -/
def mantissaAux (base : Nat) : Mantissa → List Char → Mantissa × List Char
  | m, [] => (m, [])
  | m, c :: cs =>
    if c = '_' then mantissaAux base m cs
    else if c = '.' then
      if m.point then (m, c :: cs) else mantissaAux base { m with point := true } cs
    else
      match digitValue? c with
      | some d =>
        if d < base then
          mantissaAux base
            { m with value := m.value * base + d, digits := m.digits + 1,
                     fraction := if m.point then m.fraction + 1 else 0 } cs
        else (m, c :: cs)
      | none => (m, c :: cs)

/-- The digits of an exponent; beyond five digits they no longer count. -/
def exponentAux : Nat → List Char → Nat × List Char
  | e, [] => (e, [])
  | e, c :: cs =>
    if c = '_' then exponentAux e cs
    else if c.isDigit then
      exponentAux (if e < 10000 then e * 10 + (c.toNat - '0'.toNat) else e) cs
    else (e, c :: cs)

def exponent? (mark : Char) (cs : List Char) : Option (Option Int × List Char) :=
  match cs with
  | [] => some (none, [])
  | c :: rest =>
    if c.toLower = mark then
      let (negative, rest) := splitSign rest
      if (rest.head?.map Char.isDigit).getD false then
        let (e, rest) := exponentAux 0 rest
        some (some (if negative then -(e : Int) else e), rest)
      else none
    else some (none, cs)

def ofDecimal (m : Nat) (e : Int) : Float :=
  if e ≥ 0 then Float.ofScientific m false e.toNat else Float.ofScientific m true (-e).toNat

def unsigned? (cs : List Char) : Option Float := do
  let (hex, body) := match cs with
    | '0' :: x :: d :: rest =>
      if x = 'x' ∨ x = 'X' then (true, d :: rest) else (false, cs)
    | _ => (false, cs)
  let (m, rest) := mantissaAux (if hex then 16 else 10) {} body
  if m.digits = 0 then none
  let (e, rest) ← exponent? (if hex then 'p' else 'e') rest
  if !rest.isEmpty then none
  if cs.contains '_' && !separates cs then none
  if hex then
    let e := (← e) - 4 * m.fraction
    if m.value = 0 then return 0
    if e ≥ 0 then return ofDecimal (m.value <<< e.toNat) 0
    else return ofDecimal (m.value * Nat.pow 5 (-e).toNat) e
  else return ofDecimal m.value (e.getD 0 - m.fraction)

/-- Spellings of the infinities and of not-a-number, in letters of either case. -/
def special? (s : String) : Option Float :=
  let t := String.ofList (s.toList.map Char.toLower)
  if t = "nan" then some (0.0 / 0.0)
  else if ["inf", "+inf", "infinity", "+infinity"].contains t then some (1.0 / 0.0)
  else if ["-inf", "-infinity"].contains t then some (-1.0 / 0.0)
  else none

/-- The number that a spelling stands for. A finite spelling beyond the largest
number has none. -/
def float? (s : String) : Option Float :=
  match special? s with
  | some x => some x
  | none => do
    let (negative, cs) := splitSign s.toList
    let x ← unsigned? cs
    match parts x with
    | .infinite _ => none
    | _ => some (if negative then -x else x)

end Number
end ClientGen
