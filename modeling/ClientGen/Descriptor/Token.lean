import ClientGen.Number.Integer
import ClientGen.Text.Utf8

/-! # Tokens of schema files

The lexical rules that a Protobuf file has to meet before it can be described.
They are stricter than those of interface files: names and digits are ASCII, and
numbers and escapes have to be well formed. What is not a token becomes a fault,
which no rule of the grammar takes, so that faults are met in their order among
the other tokens.
-/

namespace ClientGen
namespace Descriptor

structure Place where
  line : Int := 0
  column : Int := 0
  offset : Int := 0
deriving DecidableEq, Repr, Inhabited

inductive TokenKind where
  | word (name : String)
  | int (n : Nat)
  | float
  /-- A text in quotes, without its escapes. -/
  | text (bytes : List UInt8)
  | mark (c : Char)
  /-- Characters that are no token. -/
  | fault
  /-- The end of the file. -/
  | finish
deriving DecidableEq, Repr, Inhabited

structure Token where
  kind : TokenKind
  place : Place
deriving DecidableEq, Repr, Inhabited

/-- The place after a character. Columns count bytes, and a tab leads to the next
multiple of eight. -/
def stepPlace (p : Place) (c : Char) : Place :=
  let offset := p.offset + c.utf8Size
  if c == '\n' then { line := p.line + 1, column := 1, offset }
  else if c == '\t' then { p with column := p.column + 8 - (p.column - 1) % 8, offset }
  else { p with column := p.column + c.utf8Size, offset }

def firstPlace : Place := { line := 1, column := 1, offset := 0 }

def isBlank (c : Char) : Bool := "\n\r\t\x0c\x0b ".toList.contains c

def isNameStart (c : Char) : Bool := c == '_' || (c.toNat < 128 && c.isAlpha)

def isNameChar (c : Char) : Bool := isNameStart c || c.isDigit

def isMark (c : Char) : Bool := ";,.:=-+()\x7b\x7d[]<>/".toList.contains c

/-- The characters of a number. A sign belongs to it after the mark of an
exponent. -/
def numberChars (exponent : Bool) : List Char → List Char
  | [] => []
  | c :: rest =>
    if isNameChar c || c == '.' || (exponent && (c == '-' || c == '+')) then
      c :: numberChars (c == 'e' || c == 'E') rest
    else []

/-- Whether some characters are a number with a point or an exponent. -/
def isFloat (cs : List Char) : Bool :=
  let whole := cs.takeWhile Char.isDigit
  let rest := cs.drop whole.length
  let (fraction, rest) := match rest with
    | '.' :: rest => (rest.takeWhile Char.isDigit, rest.dropWhile Char.isDigit)
    | _ => ([], rest)
  let exponent := match rest with
    | [] => true
    | c :: rest =>
      let digits := match rest with
        | '+' :: digits => digits
        | '-' :: digits => digits
        | _ => rest
      (c == 'e' || c == 'E') && !digits.isEmpty && digits.all Char.isDigit
  (!whole.isEmpty || !fraction.isEmpty) && exponent

def digits? (base : Nat) (cs : List Char) : Option Nat :=
  if cs.isEmpty || cs.contains '_' then none else Number.digitsValue? base 0 cs

/-- The token of the characters of a number. Decimal and octal numbers beyond 64
bits count as floating point numbers. -/
def numberKind (cs : List Char) : TokenKind :=
  let whole (base : Nat) (cs : List Char) (beyond : TokenKind) : TokenKind :=
    match digits? base cs with
    | none => .fault
    | some n => if n < 1 <<< 64 then .int n else beyond
  match cs with
  | '0' :: 'x' :: rest => whole 16 rest .fault
  | '0' :: 'X' :: rest => whole 16 rest .fault
  | _ =>
    if cs.any fun c => c == '.' || c == 'e' || c == 'E' then if isFloat cs then .float else .fault
    else if cs.head? == some '0' then whole 8 cs .float
    else whole 10 cs .float

/-- The bytes of a code point. What is none is written as the replacement
character. -/
def codePoint (n : Nat) : List UInt8 :=
  (if n.isValidChar then Char.ofNat n else Char.ofNat 0xFFFD).toString.toUTF8.toList

def letterEscape? (c : Char) : Option UInt8 :=
  List.lookup c [('a', 7), ('b', 8), ('f', 12), ('n', 10), ('r', 13), ('t', 9), ('v', 11),
    ('\\', 92), ('\'', 39), ('"', 34), ('?', 63)]

/-- The value of exactly so many hexadecimal digits. -/
def hexValue? (width : Nat) (cs : List Char) : Option Nat :=
  let digits := cs.take width
  if digits.length == width && digits.all fun c => (Text.hexDigit? c).isSome then digits? 16 digits
  else none

/-- The bytes of an escape after its backslash, and how many characters it takes. -/
def escape? : List Char → Option (List UInt8 × Nat)
  | [] => none
  | c :: rest =>
    if c == 'x' || c == 'X' then
      match hexValue? 2 rest with
      | some n => some ([UInt8.ofNat n], 3)
      | none => (hexValue? 1 rest).map fun n => ([UInt8.ofNat n], 2)
    else if '0' ≤ c && c ≤ '7' then
      let digits := (c :: rest.take 2).takeWhile fun c => '0' ≤ c && c ≤ '7'
      (digits? 8 digits).bind fun n =>
        if n ≤ 255 then some ([UInt8.ofNat n], digits.length) else none
    else if c == 'u' then (hexValue? 4 rest).map fun n => (codePoint n, 5)
    else if c == 'U' then
      (hexValue? 8 rest).bind fun n => if n ≤ 0x10FFFF then some (codePoint n, 9) else none
    else (letterEscape? c).map fun b => ([b], 1)

/-- The bytes of a text up to its quote, and how many characters it takes with
the quote. The first `passed` characters belong to an escape that has been read. -/
def textAux (quote : Char) : Nat → List Char → Option (List UInt8 × Nat)
  | _, [] => none
  | passed + 1, _ :: rest => (textAux quote passed rest).map fun (bytes, n) => (bytes, n + 1)
  | 0, c :: rest =>
    if c == quote then some ([], 1)
    else if c == '\n' || c.toNat == 0 then none
    else if c == '\\' then do
      let (bytes, width) ← escape? rest
      let (more, n) ← textAux quote width rest
      return (bytes ++ more, n + 1)
    else do
      let (more, n) ← textAux quote 0 rest
      return (c.toString.toUTF8.toList ++ more, n + 1)

/-- How many characters a block comment takes after its opening, and whether it is
closed and holds no null character. -/
def blockComment? : List Char → Option Nat
  | [] => none
  | '*' :: '/' :: _ => some 2
  | c :: rest => if c.toNat == 0 then none else (blockComment? rest).map (· + 1)

/-- What starts at a place that is not blank: a token or, for a comment, none; and
how many characters it takes. -/
def lexeme (cs : List Char) : Option TokenKind × Nat :=
  match cs with
  | [] => (some .finish, 0)
  | '/' :: '/' :: rest =>
    let comment := rest.takeWhile (· != '\n')
    if comment.any fun c => c.toNat == 0 then (some .fault, cs.length) else (none, comment.length + 2)
  | '/' :: '*' :: rest =>
    match blockComment? rest with
    | some n => (none, n + 2)
    | none => (some .fault, cs.length)
  | c :: rest =>
    if isNameStart c then
      let name := cs.takeWhile isNameChar
      (some (.word (String.ofList name)), name.length)
    else if c.isDigit || (c == '.' && (rest.head?.map Char.isDigit).getD false) then
      let number := numberChars false cs
      (some (numberKind number), number.length)
    else if c == '"' || c == '\'' then
      match textAux c 0 rest with
      | some (bytes, n) => (some (.text bytes), n + 1)
      | none => (some .fault, cs.length)
    else (some (if isMark c then .mark c else .fault), 1)

/-- The tokens of what is left of a file, from a place on. The first `passed`
characters belong to a token or a comment that has been read. -/
def tokensAux : Nat → Place → List Char → List Token
  | _, p, [] => [⟨.finish, p⟩]
  | passed + 1, p, c :: rest => tokensAux passed (stepPlace p c) rest
  | 0, p, c :: rest =>
    if isBlank c then tokensAux 0 (stepPlace p c) rest
    else
      let (kind?, width) := lexeme (c :: rest)
      let more := tokensAux (width - 1) (stepPlace p c) rest
      match kind? with
      | some kind => ⟨kind, p⟩ :: more
      | none => more

/-- The tokens of a file; the last one is its end. A byte order mark in front is
passed over. -/
def tokens (source : String) : List Token :=
  match source.toList with
  | c :: rest => tokensAux 0 firstPlace (if c.toNat == 0xFEFF then rest else c :: rest)
  | [] => [⟨.finish, firstPlace⟩]

end Descriptor
end ClientGen
