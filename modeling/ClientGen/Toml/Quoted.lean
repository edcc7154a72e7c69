import ClientGen.Text.Basic
import ClientGen.Text.Utf8

/-! # Texts in TOML

Texts in double quotes have escapes, those in single quotes have none. In three
quotes of a kind a text may span lines and hold up to two of the quotes in a row,
also right before its end.
-/

namespace ClientGen
namespace Toml

def isBlank (c : Char) : Bool := c == ' ' || c == '\t'

def skip (cs : List Char) : List Char := cs.dropWhile isBlank

/-- Characters that may stand in texts and comments. -/
def isAllowed (c : Char) : Bool := c == '\t' || (32 ≤ c.toNat && c.toNat != 127)

def lineEnd? : List Char → Option (List Char)
  | '\n' :: rest => some rest
  | '\r' :: '\n' :: rest => some rest
  | _ => none

def escape? : Char → Option Char
  | 'b' => some '\x08' | 't' => some '\t' | 'n' => some '\n' | 'f' => some '\x0c'
  | 'r' => some '\r' | 'e' => some '\x1b' | '"' => some '"' | '\\' => some '\\'
  | _ => none

def escapeWidth? : Char → Option Nat
  | 'u' => some 4 | 'U' => some 8
  | _ => none

def hexChar? (digits : List Char) : Option Char := do
  let n ← digits.foldlM (fun n c => do return 16 * n + (← Text.hexDigit? c)) 0
  if n.isValidChar then some (Char.ofNat n) else none

/-- The character of the escape behind a backslash, and how long the escape is. -/
def escaped? : List Char → Option (Char × Nat)
  | c :: rest =>
    match escape? c, escapeWidth? c with
    | some e, _ => some (e, 1)
    | none, some width =>
      if rest.length < width then none else do return (← hexChar? (rest.take width), width + 1)
    | none, none => none
  | [] => none

/-- The rest of a text in a quote, and what follows it. It is on one line. -/
def shortAux (quote : Char) : Nat → List Char → List Char → Option (String × List Char)
  | 0, _, _ => none
  | fuel + 1, done, cs =>
    match cs with
    | [] => none
    | c :: rest =>
      if c == quote then some (String.ofList done.reverse, rest)
      else if quote == '"' && c == '\\' then do
        let (e, n) ← escaped? rest
        shortAux quote fuel (e :: done) (rest.drop n)
      else if isAllowed c then shortAux quote fuel (c :: done) rest
      else none

/-- The rest of a text in three quotes, and what follows it. A backslash at a line
end drops the blanks and line ends after it. -/
def longAux (quote : Char) : Nat → List Char → List Char → Option (String × List Char)
  | 0, _, _ => none
  | fuel + 1, done, cs =>
    match cs with
    | [] => none
    | c :: rest =>
      let quotes := (cs.takeWhile (· == quote)).length
      if quotes ≥ 3 then
        if quotes > 5 then none
        else some (String.ofList (List.replicate (quotes - 3) quote ++ done).reverse, cs.drop quotes)
      else if quote == '"' && c == '\\' then
        if (lineEnd? (skip rest)).isSome then
          longAux quote fuel done (rest.dropWhile fun c => isBlank c || c == '\n' || c == '\r')
        else do
          let (e, n) ← escaped? rest
          longAux quote fuel (e :: done) (rest.drop n)
      else if c == '\r' then
        if rest.head? == some '\n' then longAux quote fuel ('\n' :: '\r' :: done) (rest.drop 1) else none
      else if c == '\n' || isAllowed c then longAux quote fuel (c :: done) rest
      else none

def short? : List Char → Option (String × List Char)
  | quote :: rest => shortAux quote (rest.length + 1) [] rest
  | [] => none

/-- The text in one quote or three at the start, and what follows it. A line end
right behind three quotes does not count. -/
def quoted? (cs : List Char) : Option (String × List Char) :=
  match cs with
  | a :: b :: c :: rest =>
    if a == b && b == c then longAux a (rest.length + 1) [] ((lineEnd? rest).getD rest) else short? cs
  | _ => short? cs

end Toml
end ClientGen
