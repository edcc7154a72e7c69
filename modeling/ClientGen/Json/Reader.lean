import ClientGen.Json.Basic
import ClientGen.Text.Basic
import ClientGen.Text.Utf8

/-! # Reading JSON

A strict reader: one value with blanks around it and nothing else. A surrogate
escape that has no partner reads as the replacement character.
-/

namespace ClientGen
namespace Json
namespace Reader

def isBlank (c : Char) : Bool := c == ' ' || c == '\t' || c == '\n' || c == '\r'

def skip (cs : List Char) : List Char := cs.dropWhile isBlank

/-- The number written with four hexadecimal digits. -/
def hex4? : List Char → Option (Nat × List Char)
  | a :: b :: c :: d :: rest => do
    let a ← Text.hexDigit? a
    let b ← Text.hexDigit? b
    let c ← Text.hexDigit? c
    let d ← Text.hexDigit? d
    return (((a * 16 + b) * 16 + c) * 16 + d, rest)
  | _ => none

/-- The character of a Unicode escape after its `\u`, joining a pair of
surrogates. -/
def unicode? (cs : List Char) : Option (Char × List Char) := do
  let (n, rest) ← hex4? cs
  if 0xD800 ≤ n ∧ n < 0xDC00 then
    match rest with
    | '\\' :: 'u' :: more =>
      match hex4? more with
      | some (m, after) =>
        if 0xDC00 ≤ m ∧ m < 0xE000 then
          return (Char.ofNat ((n - 0xD800) * 1024 + (m - 0xDC00) + 0x10000), after)
        else return (Text.replacement, rest)
      | none => return (Text.replacement, rest)
    | _ => return (Text.replacement, rest)
  else if 0xDC00 ≤ n ∧ n < 0xE000 then return (Text.replacement, rest)
  else return (Char.ofNat n, rest)

def escape? : Char → Option Char
  | '"' => some '"'
  | '\\' => some '\\'
  | '/' => some '/'
  | 'b' => some (Char.ofNat 8)
  | 'f' => some (Char.ofNat 12)
  | 'n' => some '\n'
  | 'r' => some '\r'
  | 't' => some '\t'
  | _ => none

/-- The characters of a string up to its closing quote, last one first in
`done`. -/
def stringAux : Nat → List Char → List Char → Option (String × List Char)
  | 0, _, _ => none
  | _, _, [] => none
  | _ + 1, done, '"' :: rest => some (String.ofList done.reverse, rest)
  | fuel + 1, done, '\\' :: 'u' :: rest => do
    let (c, rest) ← unicode? rest
    stringAux fuel (c :: done) rest
  | fuel + 1, done, '\\' :: e :: rest => do
    let c ← escape? e
    stringAux fuel (c :: done) rest
  | fuel + 1, done, c :: rest =>
    if c.toNat < 32 ∨ c = '\\' then none else stringAux fuel (c :: done) rest

def digits1? (cs : List Char) : Option (List Char × List Char) :=
  match cs.takeWhile Char.isDigit with
  | [] => none
  | ds => some (ds, cs.dropWhile Char.isDigit)

def number? (cs : List Char) : Option (String × List Char) := do
  let (sign, cs) := match cs with
    | '-' :: rest => (['-'], rest)
    | _ => ([], cs)
  let (whole, cs) ← match cs with
    | '0' :: rest => some (['0'], rest)
    | _ => digits1? cs
  let (frac, cs) ← match cs with
    | '.' :: rest => (digits1? rest).map fun (ds, r) => ('.' :: ds, r)
    | _ => some ([], cs)
  let (exponent, cs) ← match cs with
    | e :: rest =>
      if e = 'e' ∨ e = 'E' then
        match rest with
        | s :: more =>
          if s = '+' ∨ s = '-' then (digits1? more).map fun (ds, r) => (e :: s :: ds, r)
          else (digits1? rest).map fun (ds, r) => (e :: ds, r)
        | [] => none
      else some ([], cs)
    | [] => some ([], cs)
  return (String.ofList (sign ++ whole ++ frac ++ exponent), cs)

mutual

def value? : Nat → List Char → Option (Json × List Char)
  | 0, _ => none
  | fuel + 1, cs =>
    match skip cs with
    | '\x7b' :: rest =>
      match skip rest with
      | '\x7d' :: after => some (.object [], after)
      | more => fields? fuel [] more
    | '[' :: rest =>
      match skip rest with
      | ']' :: after => some (.array [], after)
      | more => items? fuel [] more
    | '"' :: rest => (stringAux (rest.length + 1) [] rest).map fun (s, r) => (.string s, r)
    | 't' :: 'r' :: 'u' :: 'e' :: rest => some (.bool true, rest)
    | 'f' :: 'a' :: 'l' :: 's' :: 'e' :: rest => some (.bool false, rest)
    | 'n' :: 'u' :: 'l' :: 'l' :: rest => some (.null, rest)
    | rest => (number? rest).map fun (s, r) => (.number s, r)

def items? : Nat → List Json → List Char → Option (Json × List Char)
  | 0, _, _ => none
  | fuel + 1, done, cs => do
    let (v, rest) ← value? fuel cs
    match skip rest with
    | ',' :: more => items? fuel (v :: done) more
    | ']' :: after => some (.array (v :: done).reverse, after)
    | _ => none

def fields? : Nat → List (String × Json) → List Char → Option (Json × List Char)
  | 0, _, _ => none
  | fuel + 1, done, cs =>
    match skip cs with
    | '"' :: rest => do
      let (key, rest) ← stringAux (rest.length + 1) [] rest
      match skip rest with
      | ':' :: more => do
        let (v, rest) ← value? fuel more
        match skip rest with
        | ',' :: more => fields? fuel ((key, v) :: done) more
        | '\x7d' :: after => some (.object ((key, v) :: done).reverse, after)
        | _ => none
      | _ => none
    | _ => none

end

end Reader

/-- The document of a text. Each nested value takes a character of its own, so
the length of the text bounds the depth and the number of steps. -/
def read? (s : String) : Option Json := do
  let (v, rest) ← Reader.value? (2 * s.length + 2) s.toList
  if (Reader.skip rest).isEmpty then some v else none

end Json
end ClientGen
