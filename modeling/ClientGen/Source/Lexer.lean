import ClientGen.Source.Diagnostic
import ClientGen.Source.Token
import ClientGen.Text.Letter
import ClientGen.Text.Utf8

/-! # From source text to tokens

One lexer serves both interface languages. Each reader takes the characters that
are left and the position of the last one consumed, and gives a token with what
is left after it, or the fault that ends the stream. A NUL between tokens ends
the stream like the end of the text.
-/

namespace ClientGen
namespace Source
namespace Lexer

structure Options where
  /-- Whether `#` starts a line comment. -/
  hashComments : Bool := false
deriving DecidableEq, Repr, Inhabited

/-- Where the lexer stands: the last position consumed and what is left. -/
structure Scan where
  position : Position
  rest : List Char
deriving DecidableEq, Repr, Inhabited

/-- A reason to end the token stream early. -/
structure Fault where
  code : Code
  message : String
  position : Position
deriving DecidableEq, Repr, Inhabited

inductive Step where
  | token (t : Token) (next : Scan)
  | skip (next : Scan)
  | stop
  | fault (f : Fault)
deriving Repr, Inhabited

def isIdentifierPart (c : Char) : Bool := Text.isLetter c || Text.isDigit c || c == '_'

def isIdentifierStart (c : Char) : Bool := Text.isLetter c || c == '_'

def isHexDigit (c : Char) : Bool := (Text.hexDigit? c).isSome

def isBreak (c : Char) : Bool := c == '\n' || c == '\r'

def isBlank (c : Char) : Bool :=
  c == ' ' || c == '\t' || c.toNat == 12 || c.toNat == 11

theorem toNat_eq_iff {c : Char} (n : Nat) (hn : (Char.ofNat n).toNat = n) :
    c.toNat = n ↔ c = Char.ofNat n := by
  rw [← Char.toNat_inj, hn]

/-- A blank is one of four characters. -/
theorem isBlank_iff {c : Char} :
    isBlank c = true ↔ c = ' ' ∨ c = '\t' ∨ c = Char.ofNat 12 ∨ c = Char.ofNat 11 := by
  simp only [isBlank, Bool.or_eq_true, beq_iff_eq, toNat_eq_iff 12 rfl, toNat_eq_iff 11 rfl,
    or_assoc]

/-- A token whose value is `value` and which ends with the characters `taken`. -/
def finish (kind : TokenKind) (value : List Char) (first here : Position) (taken rest : List Char) :
    Step :=
  let last := here.stepAll taken
  .token { kind, value := String.ofList value, span := { first, last } } { position := last, rest }

/-- Reads an identifier whose first character `c` was just consumed. -/
def readIdentifier (c : Char) (p : Position) (rest : List Char) : Step :=
  let part := rest.takeWhile isIdentifierPart
  finish .identifier (c :: part) p p part (rest.dropWhile isIdentifierPart)

/-- Reads a line comment up to its line break, which is left. -/
def readLineComment (first p : Position) (rest : List Char) : Step :=
  let body := rest.takeWhile (fun c => !isBreak c)
  finish .comment body first p body (rest.dropWhile (fun c => !isBreak c))

/-- The body of a block comment with the position after its closing delimiter and
what is left, or the position of the end of the text when it is not closed. A
line break inside it starts a new line; a carriage return and a line feed are
one break. -/
def blockBody (p : Position) : List Char → Except Position (List Char × Position × List Char)
  | [] => .error p
  | '*' :: '/' :: rest => .ok ([], (p.step '*').step '/', rest)
  | '\r' :: '\n' :: rest => do
    let (body, q, left) ← blockBody ((p.step '\r').step '\n').newLine rest
    return ('\r' :: '\n' :: body, q, left)
  | c :: rest => do
    let q := if isBreak c then (p.step c).newLine else p.step c
    let (body, q, left) ← blockBody q rest
    return (c :: body, q, left)

/-- Reads a block comment whose opening delimiter was just consumed. -/
def readBlockComment (first p : Position) (rest : List Char) : Step :=
  match blockBody p rest with
  | .ok (body, last, left) =>
    .token { kind := .commentBlock, value := String.ofList body, span := { first, last } }
      { position := last, rest := left }
  | .error q => .fault ⟨Code.unexpectedEnd, "unexpected EOF while reading comment block", q⟩

/-- What an escape stands for: three control characters, the backslash and both
quotes; any other character keeps its backslash. -/
def unescape : Char → List Char
  | 'n' => ['\n']
  | 't' => ['\t']
  | 'r' => ['\r']
  | '\\' => ['\\']
  | '"' => ['"']
  | '\'' => ['\'']
  | c => ['\\', c]

/-- The value of a text up to its closing quote, with the position after that
quote and what is left. Only an unescaped line feed starts a new line. -/
def textBody (quote : Char) (p : Position) :
    List Char → Except Position (List Char × Position × List Char)
  | [] => .error p
  | '\\' :: [] => .error (p.step '\\')
  | '\\' :: c :: rest => do
    let (body, q, left) ← textBody quote ((p.step '\\').step c) rest
    return (unescape c ++ body, q, left)
  | c :: rest =>
    if c = quote then .ok ([], p.step c, rest)
    else do
      let q := if c = '\n' then (p.step c).newLine else p.step c
      let (body, q, left) ← textBody quote q rest
      return (c :: body, q, left)

def readText (quote : Char) (p : Position) (rest : List Char) : Step :=
  match textBody quote p rest with
  | .ok (body, last, left) =>
    .token { kind := .text, value := String.ofList body, span := { first := p, last } }
      { position := last, rest := left }
  | .error q => .fault ⟨Code.unexpectedEnd, "unexpected EOF while reading text literal", q⟩

/-- Reads the digits of a hexadecimal number after its marker `0x`. -/
def readHex (first p : Position) (marker : Char) (rest : List Char) : Step :=
  let digits := rest.takeWhile isHexDigit
  if digits.isEmpty then .fault ⟨Code.invalidNumber, "hex literal without digits", p⟩
  else finish .integerHex ('0' :: marker :: digits) first p digits (rest.dropWhile isHexDigit)

/-- How far a decimal number has been read. -/
inductive DecimalMode where
  /-- Only digits so far. -/
  | whole
  /-- A point or an exponent mark has been read. -/
  | float
  /-- An exponent mark has been read and its sign follows. -/
  | sign
deriving DecidableEq, Repr, Inhabited

/-- What an exponent mark is followed by: a digit of some script, a sign before
such a digit, or neither. In the last case the sign that was still read is given. -/
def exponentMode (rest : List Char) : Except (List Char) DecimalMode :=
  match rest with
  | [] => .error []
  | s :: more =>
    if s = '+' ∨ s = '-' then
      if (more.head?.map Text.isDigit).getD false then .ok .sign else .error [s]
    else if Text.isDigit s then .ok .float
    else .error []

/-- The characters of a decimal number after its first digit. A point is taken
unless the number already has a point or an exponent. An exponent mark is taken
with its sign, and must be followed by a digit of some script, of which only the
ASCII digits belong to the number. The result is the text, whether it is a
float, the position after it and what is left, or the position of a bad exponent. -/
def decimalBody (mode : DecimalMode) (p : Position) :
    List Char → Except Position (List Char × Bool × Position × List Char)
  | [] => .ok ([], mode != .whole, p, [])
  | c :: rest =>
    if c.isDigit then do
      let (body, isFloat, q, left) ← decimalBody mode (p.step c) rest
      return (c :: body, isFloat, q, left)
    else if mode = .sign ∨ (c = '.' ∧ mode = .whole) then do
      let (body, isFloat, q, left) ← decimalBody .float (p.step c) rest
      return (c :: body, isFloat, q, left)
    else if c = 'e' ∨ c = 'E' then
      match exponentMode rest with
      | .error sign => .error ((p.step c).stepAll sign)
      | .ok next => do
        let (body, isFloat, q, left) ← decimalBody next (p.step c) rest
        return (c :: body, isFloat, q, left)
    else .ok ([], mode != .whole, p, c :: rest)

/-- Reads a decimal number whose first digit was just consumed. -/
def readDecimal (c : Char) (p : Position) (rest : List Char) : Step :=
  match decimalBody .whole p rest with
  | .ok (body, isFloat, last, left) =>
    .token { kind := if isFloat then .floatDecimal else .integerDecimal,
             value := String.ofList (c :: body), span := { first := p, last } }
      { position := last, rest := left }
  | .error q => .fault ⟨Code.invalidNumber, "invalid exponent in decimal float literal", q⟩

/-- A line break token, after which a new line starts. -/
def lineBreak (value : List Char) (first last : Position) (rest : List Char) : Step :=
  .token { kind := .newline, value := String.ofList value, span := { first, last } }
    { position := last.newLine, rest }

def single (kind : TokenKind) (c : Char) (p : Position) (rest : List Char) : Step :=
  finish kind [c] p p [] rest

/-- Reads a line break whose carriage return was just consumed. A line feed after
it belongs to it. -/
def readReturn (p : Position) (rest : List Char) : Step :=
  match rest with
  | '\n' :: more => lineBreak ['\r', '\n'] p (p.step '\n') more
  | _ => lineBreak ['\r'] p p rest

/-- Reads a number whose leading zero was just consumed. A marker after it makes
it hexadecimal. -/
def readZero (p : Position) (rest : List Char) : Step :=
  match rest with
  | m :: more =>
    if m = 'x' ∨ m = 'X' then readHex p (p.step m) m more else readDecimal '0' p rest
  | [] => readDecimal '0' p rest

def readSlash (p : Position) (rest : List Char) : Step :=
  match rest with
  | '/' :: more => readLineComment p (p.step '/') more
  | '*' :: more => readBlockComment p (p.step '*') more
  | _ => single .slash '/' p rest

/-- Reads the token that starts with a character, from the position at it and what
follows it. -/
def readToken (o : Options) (c : Char) (p : Position) (rest : List Char) : Step :=
  if c = '\n' then lineBreak ['\n'] p p rest
  else if c = '\r' then readReturn p rest
  else if c = '0' then readZero p rest
  else if c.isDigit then readDecimal c p rest
  else if c = '"' ∨ c = '\'' then readText c p rest
  else if c = '#' ∧ o.hashComments = true then readLineComment p p rest
  else if c = '/' then readSlash p rest
  else match TokenKind.ofPunctuation? c with
    | some kind => single kind c p rest
    | none => if isIdentifierStart c then readIdentifier c p rest else single .unknown c p rest

def dispatch (o : Options) (c : Char) (p : Position) (rest : List Char) : Step :=
  if c = Text.byteOrderMark then
    if p.line = 1 ∧ p.column = 1 then
      .skip { position := { p with column := 0, offset := -1 }, rest }
    else .fault ⟨Code.unsupportedFormat, "invalid UTF-8 BOM location", p⟩
  else if c.toNat = 0 then .stop
  else if isBlank c then .skip { position := p, rest }
  else readToken o c p rest

def step (o : Options) (s : Scan) : Step :=
  match s.rest with
  | [] => .stop
  | c :: rest => dispatch o c (s.position.step c) rest

def runAux (o : Options) : Nat → Scan → List Token × Option Fault
  | 0, _ => ([], none)
  | fuel + 1, s =>
    match step o s with
    | .stop => ([], none)
    | .fault f => ([], some f)
    | .skip next => runAux o fuel next
    | .token t next =>
      let (ts, fault) := runAux o fuel next
      (t :: ts, fault)

/-- The tokens of a text, and the fault that ends them. Every step consumes a
character, so the length of the text bounds the number of steps. -/
def run (o : Options) (source : List Char) : List Token × Option Fault :=
  runAux o (source.length + 1) { position := Position.start, rest := source }

def Fault.diagnostic (f : Fault) (uri : String) : Diagnostic :=
  { location := { uri, position := f.position }, code := f.code, message := f.message }

def lex (o : Options) (uri source : String) (r : Reporter) : List Token × Reporter :=
  match run o (Text.codePoints source) with
  | (ts, none) => (ts, r)
  | (ts, some f) => (ts, r.report (f.diagnostic uri))

end Lexer
end Source
end ClientGen
