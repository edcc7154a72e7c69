import ClientGen.Source.Lexer

/-! # The token cursor

A cursor walks over the significant tokens of one source. Comments are set
aside, and the token ranges of declarations are registered as they are parsed,
so that the comments can be given to them afterwards. A parser is a function of
the cursor that may give no value; what it reported and consumed stays either
way.
-/

namespace ClientGen
namespace Source

/-- A comment set aside: its token, the number of significant tokens before it,
and whether it starts on the line where the last of those ends. -/
structure SetAside where
  token : Token
  before : Nat
  trailing : Bool
deriving Repr, Inhabited

/-- The tokens of a declaration: the place of the first one and the place after
the last one. A declaration without a first token is led by no comment. -/
structure Decl where
  first : Option Nat
  stop : Nat
deriving DecidableEq, Repr, Inhabited

/-- Where a parsed declaration comes from: its start and its number among the
registered declarations. -/
structure Origin where
  position : Position := {}
  decl : Nat := 0
deriving DecidableEq, Repr, Inhabited

structure Cursor where
  uri : String
  /-- All significant tokens. -/
  tokens : List Token
  /-- The comments between them. -/
  comments : List SetAside
  /-- The significant tokens that are not yet consumed. -/
  rest : List Token
  /-- How many tokens are consumed. -/
  place : Nat := 0
  /-- The end of the last consumed token. -/
  position : Position := {}
  /-- The declarations registered so far, in order. -/
  decls : List Decl := []
  reporter : Reporter
  /-- Whether a fatal diagnostic was reported for this source. -/
  failed : Bool := false
  /-- How many fatal diagnostics the reporter held before this source. -/
  fatalBefore : Nat := 0
deriving Repr, Inhabited

namespace Cursor

/-- Splits a token list into the significant tokens and the comments. `before`
counts the significant tokens so far and `line?` is the line on which the last
one ends. -/
def separate (before : Nat) (line? : Option Int32) : List Token → List Token × List SetAside
  | [] => ([], [])
  | t :: ts =>
    match t.kind with
    | .newline => separate before line? ts
    | .comment | .commentBlock =>
      let (tokens, comments) := separate before line? ts
      (tokens, ⟨t, before, line? == some t.span.first.line⟩ :: comments)
    | _ =>
      let (tokens, comments) := separate (before + 1) (some t.span.last.line) ts
      (t :: tokens, comments)

def ofTokens (uri : String) (all : List Token) (reporter : Reporter) (fatalBefore : Nat) : Cursor :=
  let (tokens, comments) := separate 0 none all
  { uri, tokens, comments, rest := tokens, reporter, fatalBefore,
    failed := decide (fatalBefore < reporter.fatal.length) }

def ofSource (o : Lexer.Options) (uri source : String) (reporter : Reporter) : Cursor :=
  let (all, after) := Lexer.lex o uri source reporter
  ofTokens uri all after reporter.fatal.length

def peekAt (c : Cursor) (n : Nat) : Option Token := c.rest[n]?

/-- The token `n` places before the current one, when there are so many. -/
def peekBack (c : Cursor) (n : Nat) : Option Token :=
  if n ≤ c.place then c.tokens[c.place - n]? else none

def peek (c : Cursor) : Option Token := c.rest.head?

def atEnd (c : Cursor) : Bool := c.rest.isEmpty

def is (c : Cursor) (kind : TokenKind) : Bool :=
  match c.rest with
  | t :: _ => t.kind == kind
  | [] => false

/-- Whether the current token is one of some words. -/
def isWord (c : Cursor) (words : List String) : Bool :=
  match c.rest with
  | t :: _ => t.kind == .identifier && words.contains t.value
  | [] => false

def advance (c : Cursor) : Cursor :=
  match c.rest with
  | t :: ts => { c with rest := ts, place := c.place + 1, position := t.span.last }
  | [] => c

/-- Adds a diagnostic; a fatal one makes the parse a failure. -/
def report (c : Cursor) (d : Diagnostic) : Cursor :=
  { c with reporter := c.reporter.report d, failed := c.failed || c.reporter.isFatal d }

/-- A diagnostic at the end of the last consumed token. -/
def reportHere (c : Cursor) (code : Code) (message : String) : Cursor :=
  c.report { location := { uri := c.uri, position := c.position }, code, message }

/-- Reports that the current token, or the end of the source, is not allowed here. -/
def illegal (c : Cursor) : Cursor :=
  match c.rest with
  | t :: _ => c.report (.illegalToken c.uri t.span.first t.value)
  | [] => c.reportHere Code.unexpectedEnd "unexpected EOF"

/-- The start of the token at a place, or the current position outside the tokens. -/
def positionAt (c : Cursor) (i : Nat) : Position :=
  match c.tokens[i]? with
  | some t => t.span.first
  | none => c.position

/-- The start of the current token, or the end of the last one at the end. -/
def here (c : Cursor) : Position :=
  match c.rest with
  | t :: _ => t.span.first
  | [] => c.position

/-- Registers the tokens from place `first` up to the last consumed one. -/
def declare (c : Cursor) (first : Option Nat) : Cursor :=
  { c with decls := c.decls ++ [{ first, stop := c.place }] }

def error? (c : Cursor) : Option Diagnostic :=
  if c.failed then c.reporter.fatal[c.fatalBefore]? else none

end Cursor

/-- A parser: a value or none, and the cursor after it. -/
def Parser (α : Type) := Cursor → Option α × Cursor

namespace Parser

variable {α β : Type}

def run (p : Parser α) (c : Cursor) : Option α × Cursor := p c

instance : Monad Parser where
  pure a := fun c => (some a, c)
  bind p f := fun c =>
    match p c with
    | (some a, c') => f a c'
    | (none, c') => (none, c')

@[simp] theorem run_pure (a : α) (c : Cursor) : (pure a : Parser α).run c = (some a, c) := rfl

theorem run_bind (p : Parser α) (f : α → Parser β) (c : Cursor) :
    (p >>= f).run c =
      match p.run c with
      | (some a, c') => (f a).run c'
      | (none, c') => (none, c') := rfl

def look (f : Cursor → α) : Parser α := fun c => (some (f c), c)

def change (f : Cursor → Cursor) : Parser Unit := fun c => (some (), f c)

def giveUp : Parser α := fun c => (none, c)

/-- Runs a parser and goes on whether it gave a value or not. -/
def attempt (p : Parser α) : Parser (Option α) := fun c =>
  let (a, c') := p c
  (some a, c')

/-- Reports the current token as not allowed and gives no value. -/
def illegal : Parser α := fun c => (none, c.illegal)

def advance : Parser Unit := change Cursor.advance

def kind? : Parser (Option TokenKind) := look fun c => c.peek.map (·.kind)

def is (kind : TokenKind) : Parser Bool := look fun c => c.is kind

/-- Whether the current token is one of some words. -/
def isWord (words : List String) : Parser Bool := look fun c => c.isWord words

def accept (kind : TokenKind) : Parser Bool := fun c =>
  if c.is kind then (some true, c.advance) else (some false, c)

/-- Consumes the current token when it is one of some words. -/
def acceptWord (words : List String) : Parser (Option String) := fun c =>
  if c.isWord words then (some (c.peek.map (·.value)), c.advance) else (some none, c)

/-- Passes over a comma, or else a semicolon. -/
def separator : Parser Unit := do
  unless ← accept .comma do
    let _ ← accept .semicolon

def expectOf (kinds : List TokenKind) : Parser Token := fun c =>
  match c.rest with
  | t :: _ => if kinds.contains t.kind then (some t, c.advance) else (none, c.illegal)
  | [] => (none, c.illegal)

def expect (kind : TokenKind) : Parser Token := expectOf [kind]

def expectWord (words : List String) : Parser Token := fun c =>
  match c.rest with
  | t :: _ =>
    if t.kind == .identifier && words.contains t.value then (some t, c.advance)
    else (none, c.illegal)
  | [] => (none, c.illegal)

def identifier : Parser Token := expect .identifier

def place : Parser Nat := look (·.place)

def here : Parser Position := look Cursor.here

/-- Registers a declaration that starts at a place and ends with the last
consumed token. The value is its number among the declarations. -/
def declare (first : Nat) : Parser Nat := fun c =>
  (some c.decls.length, c.declare first)

/-- Reads items while the current token satisfies a condition. -/
def whileAux (again : Cursor → Bool) (item : Parser α) : Nat → Parser (List α)
  | 0 => illegal
  | fuel + 1 => do
    if ← look again then
      let x ← item
      let xs ← whileAux again item fuel
      return x :: xs
    else return []

/-- Reads items while the current token satisfies a condition. Every item
consumes a token, so the number of tokens left bounds the number of items. -/
def whileDo (again : Cursor → Bool) (item : Parser α) : Parser (List α) := fun c =>
  whileAux again item (c.rest.length + 1) c

def upTo (close : TokenKind) (item : Parser α) : Parser (List α) := do
  let xs ← whileDo (fun c => !c.is close) item
  advance
  return xs

def sepBy1 (sep : TokenKind) (item : Parser α) : Parser (List α) := do
  let first ← item
  let rest ← whileDo (fun c => c.is sep) do
    advance
    item
  return first :: rest

end Parser
end Source
end ClientGen
