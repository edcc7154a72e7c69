import ClientGen.Source.Position
import ClientGen.Text.Quoted

/-! # Tokens

The tokens shared by both interface languages. Keywords are identifiers; line
breaks and comments are tokens of their own, so that comments can be attached to
declarations.
-/

namespace ClientGen
namespace Source

inductive TokenKind where
  | unknown | identifier | integerDecimal | integerHex | floatDecimal | text
  | comment | commentBlock
  | curlyOpen | curlyClose | squareOpen | squareClose | parenOpen | parenClose
  | plus | minus | dot | star | comma | colon | angleOpen | angleClose | equal | slash | semicolon
  | newline
deriving DecidableEq, Repr, Inhabited

namespace TokenKind

def code : TokenKind → Nat
  | unknown => 0
  | identifier => 1
  | integerDecimal => 2
  | integerHex => 3
  | floatDecimal => 6
  | text => 8
  | comment => 10
  | commentBlock => 11
  | curlyOpen => 15
  | curlyClose => 16
  | squareOpen => 17
  | squareClose => 18
  | parenOpen => 19
  | parenClose => 20
  | plus => 21
  | minus => 23
  | dot => 25
  | star => 27
  | comma => 29
  | colon => 30
  | angleOpen => 31
  | angleClose => 33
  | equal => 37
  | slash => 40
  | semicolon => 52
  | newline => 93

def all : List TokenKind :=
  [unknown, identifier, integerDecimal, integerHex, floatDecimal, text, comment, commentBlock,
    curlyOpen, curlyClose, squareOpen, squareClose, parenOpen, parenClose, plus, minus, dot, star,
    comma, colon, angleOpen, angleClose, equal, slash, semicolon, newline]

def ofCode? (n : Nat) : Option TokenKind := all.find? fun k => k.code == n

def ofPunctuation? : Char → Option TokenKind
  | '\x7b' => some curlyOpen
  | '\x7d' => some curlyClose
  | '[' => some squareOpen
  | ']' => some squareClose
  | '(' => some parenOpen
  | ')' => some parenClose
  | '<' => some angleOpen
  | '>' => some angleClose
  | ',' => some comma
  | ';' => some semicolon
  | ':' => some colon
  | '=' => some equal
  | '.' => some dot
  | '+' => some plus
  | '-' => some minus
  | '*' => some star
  | '/' => some slash
  | _ => none

def isComment : TokenKind → Bool
  | comment | commentBlock => true
  | _ => false

/-- Tokens that the grammars see: all but comments and line breaks. -/
def isSignificant : TokenKind → Bool
  | comment | commentBlock | newline => false
  | _ => true

end TokenKind

/-- A token: what it is, what it says and where it stands. The value of a text
has its quotes dropped and its escapes read; the value of a comment has its
delimiters dropped. -/
structure Token where
  kind : TokenKind
  value : String
  span : Span
deriving DecidableEq, Repr, Inhabited

def Token.describe (t : Token) : String :=
  match t.kind with
  | .text => Text.quoted t.value
  | .newline => "newline"
  | _ => t.value

/-- A token list, one token a line: start, kind and quoted value. -/
def dump (tokens : List Token) : String :=
  String.join (tokens.map fun t =>
    Text.ofInt t.span.first.line.toInt ++ ":" ++ Text.ofInt t.span.first.column.toInt ++ "\t" ++
      Text.ofNat t.kind.code ++ "\t" ++ Text.quoted t.value ++ "\n")

end Source
end ClientGen
