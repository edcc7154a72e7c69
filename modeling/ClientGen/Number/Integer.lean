import ClientGen.Text.Utf8

/-! # Integers as texts

Signed 64-bit integers and their spellings: decimal digits, a leading zero for
octal, or one of the markers `0x`, `0o` and `0b`. Underscores may separate
digits when a spelling may choose its base.
-/

namespace ClientGen
namespace Number

/-- The integer that a 64-bit word with the bits of `n` stands for. -/
def wrap64 (n : Int) : Int := Int.bmod n (1 <<< 64)

def digitValue? (c : Char) : Option Nat :=
  if '0' ≤ c && c ≤ '9' then some (c.toNat - '0'.toNat)
  else if 'a' ≤ c && c ≤ 'z' then some (c.toNat - 'a'.toNat + 10)
  else if 'A' ≤ c && c ≤ 'Z' then some (c.toNat - 'A'.toNat + 10)
  else none

def digitsValue? (base : Nat) : Nat → List Char → Option Nat
  | acc, [] => some acc
  | acc, c :: cs =>
    if c = '_' then digitsValue? base acc cs
    else do
      let d ← digitValue? c
      if d < base then digitsValue? base (acc * base + d) cs else none

/-- The base that a spelling chooses, and its digits. A marker needs a digit
after it. -/
def splitBase : List Char → Nat × List Char
  | '0' :: m :: d :: rest =>
    if m = 'x' ∨ m = 'X' then (16, d :: rest)
    else if m = 'o' ∨ m = 'O' then (8, d :: rest)
    else if m = 'b' ∨ m = 'B' then (2, d :: rest)
    else (8, m :: d :: rest)
  | '0' :: rest => (8, rest)
  | cs => (10, cs)

/-- What was read last when underscores are checked. -/
inductive Seen where
  | start | digit | underscore | other
deriving DecidableEq, Repr

/-- Whether every underscore stands between two digits, where the marker of a
base counts as a digit. -/
def separatesAux (hex : Bool) : Seen → List Char → Bool
  | seen, [] => seen != .underscore
  | seen, c :: cs =>
    if c.isDigit || (hex && (Text.hexDigit? c).isSome) then separatesAux hex .digit cs
    else if c = '_' then seen == .digit && separatesAux hex .underscore cs
    else seen != .underscore && separatesAux hex .other cs

/-- Whether the underscores of a spelling without sign are well placed. -/
def separates : List Char → Bool
  | '0' :: m :: rest =>
    if m = 'x' ∨ m = 'X' then separatesAux true .digit rest
    else if m = 'o' ∨ m = 'O' ∨ m = 'b' ∨ m = 'B' then separatesAux false .digit rest
    else separatesAux false .start ('0' :: m :: rest)
  | cs => separatesAux false .start cs

/-- The number that a spelling without sign stands for, of any size. -/
def magnitude? (cs : List Char) : Option Nat := do
  if cs.isEmpty then none
  let (base, digits) := splitBase cs
  let n ← digitsValue? base 0 digits
  if cs.contains '_' && !separates cs then none else some n

def splitSign : List Char → Bool × List Char
  | '-' :: cs => (true, cs)
  | '+' :: cs => (false, cs)
  | cs => (false, cs)

def int64? (s : String) : Option Int := do
  let (negative, cs) := splitSign s.toList
  let n ← magnitude? cs
  if negative then
    if n ≤ 1 <<< 63 then some (-(n : Int)) else none
  else if n < 1 <<< 63 then some n else none

end Number
end ClientGen
