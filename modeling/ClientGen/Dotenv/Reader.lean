import ClientGen.Collection.Table
import ClientGen.Text.Basic
import ClientGen.Text.Letter
import ClientGen.Text.Quoted
import ClientGen.Text.Utf8

/-! # Environment files

Files of `NAME=value` statements. A value runs to the end of its line or stands
in quotes; it may name variables that the same file has set before. Double quotes
also allow escapes.
-/

namespace ClientGen
namespace Dotenv

/-! ## Mentions of variables

A value mentions a variable by a dollar sign and a name in capitals, which may
stand in brackets. A backslash in front keeps the mention as it is.
-/

/-- The characters of variable names that values may mention. -/
def isVariableChar (c : Char) : Bool := c.isUpper || c.isDigit || c == '_'

def dropChar (c : Char) : List Char → List Char
  | d :: rest => if d == c then rest else d :: rest
  | [] => []

/-- The length of a mention after its dollar sign, and the variable it names.
Each of the characters of `opening` may stand in front of the name once. -/
def mention (opening : List Char) (cs : List Char) : Nat × String :=
  let opened := opening.foldl (fun cs c => dropChar c cs) cs
  let name := opened.takeWhile isVariableChar
  let rest := dropChar '\x7d' (opened.drop name.length)
  (cs.length - rest.length, String.ofList name)

/-- Replaces mentions of variables; the first `passed` characters belong to a
mention that has been replaced. -/
def expandAux (opening : List Char) (value : String → String) : Nat → List Char → List Char
  | _, [] => []
  | passed + 1, _ :: rest => expandAux opening value passed rest
  | 0, '\\' :: '$' :: rest =>
    let (width, _) := mention opening rest
    '$' :: rest.take width ++ expandAux opening value (width + 1) ('$' :: rest)
  | 0, '$' :: rest =>
    let (width, name) := mention opening rest
    let shown := if name = "" then '$' :: rest.take width else (value name).toList
    shown ++ expandAux opening value width rest
  | 0, c :: rest => c :: expandAux opening value 0 rest

/-- A text with the values of the variables that it mentions. -/
def expand (opening : List Char) (value : String → String) (s : String) : String :=
  String.ofList (expandAux opening value 0 s.toList)

/-- Drops the backslash of every escape but that of a dollar sign. -/
def plainEscapes : List Char → List Char
  | '\\' :: c :: rest =>
    if c == '$' then '\\' :: plainEscapes (c :: rest) else c :: plainEscapes rest
  | c :: rest => c :: plainEscapes rest
  | [] => []

/-! ## Statements -/

/-- Why a file cannot be read. -/
inductive Malformed where
  /-- A byte that no name holds, and where it was met. -/
  | unexpected (byte : UInt8) (near : String)
  /-- A quote that is not closed, with the line it is on. -/
  | unterminated (line : String)
deriving DecidableEq, Repr, Inhabited

def Malformed.text : Malformed → String
  | unexpected byte near =>
    "unexpected character " ++ Text.quoted (Char.ofNat byte.toNat).toString ++
      " in variable name near " ++ Text.quoted near
  | unterminated line => "unterminated quoted value " ++ line

def isBlank (c : Char) : Bool := "\t\x0b\x0c\r ".toList.contains c || c.toNat == 0x85 || c.toNat == 0xA0

/-- Whether a byte may stand in a name, where bytes count as characters. -/
def isNameByte (b : UInt8) : Bool :=
  let c := Char.ofNat b.toNat
  isBlank c || c == '_' || c == '.' || c.isDigit || Text.isLetter c ||
    [0xB2, 0xB3, 0xB9, 0xBC, 0xBD, 0xBE].contains b.toNat

def bytesOf (c : Char) : List UInt8 := c.toString.toUTF8.toList

/-- Whether a character may stand in a name. Blanks may, though not at its end. -/
def isNameChar (c : Char) : Bool := (bytesOf c).all isNameByte

def endsName (c : Char) : Bool := c == '=' || c == ':'

/-- Drops blank lines and comments in front of a statement. -/
def skip : List Char → List Char
  | [] => []
  | c :: rest =>
    if Text.isSpace c then skip rest
    else if c == '#' then skipComment rest
    else c :: rest
where
  /-- Drops the rest of a comment, and then what `skip` drops. -/
  skipComment : List Char → List Char
  | [] => []
  | c :: rest => if c == '\n' then skip rest else skipComment rest

def dropExport (cs : List Char) : List Char :=
  match Text.dropStart? "export".toList cs with
  | some (c :: rest) => if isBlank c then (c :: rest).dropWhile isBlank else cs
  | _ => cs

/-- The name of a statement and what follows its sign. A statement without a sign
has no name and is all value. -/
def name (cs : List Char) : Except Malformed (String × List Char) :=
  let name := cs.takeWhile fun c => !endsName c && isNameChar c
  match cs.drop name.length with
  | [] => .ok ("", cs)
  | c :: rest =>
    if endsName c then
      .ok (Text.trimEndBy Text.isSpace (String.ofList name), rest.dropWhile isBlank)
    else
      let byte := ((bytesOf c).find? fun b => !isNameByte b).getD 0
      .error (.unexpected byte (String.ofList cs))

def fileExpand (vars : Table String) (value : String) : String :=
  expand ['(', '\x7b'] (fun name => (Table.find? vars name).getD "") value

def lineEscapes : List Char → List Char
  | '\\' :: c :: rest =>
    if c == 'n' then '\n' :: lineEscapes rest
    else if c == 'r' then '\r' :: lineEscapes rest
    else '\\' :: c :: lineEscapes rest
  | c :: rest => c :: lineEscapes rest
  | [] => []

/-- A value in double quotes without its escapes. -/
def unescape (s : String) : String := String.ofList (plainEscapes (lineEscapes s.toList))

/-- The text up to the closing quote and what follows it. `last` is the character
before; a backslash hides a quote. -/
def quoted? (quote : Char) : Char → List Char → List Char → Option (List Char × List Char)
  | _, _, [] => none
  | last, done, c :: rest =>
    if c == quote && last != '\\' then some (done.reverse, rest)
    else quoted? quote c (c :: done) rest

/-- A line without a comment that follows a blank. The last one is taken. -/
def dropComment : Char → List Char → Option (List Char)
  | _, [] => none
  | last, c :: rest =>
    match dropComment c rest with
    | some kept => some (c :: kept)
    | none => if c == '#' && isBlank last then some [] else none

def plainValue (line : List Char) : String :=
  let kept := match line with
    | [] => []
    | c :: rest => ((dropComment c rest).map (c :: ·)).getD line
  Text.trimBy isBlank (String.ofList kept)

def value (vars : Table String) : List Char → Except Malformed (String × List Char)
  | [] => .ok ("", [])
  | c :: rest =>
    if c == '"' || c == '\'' then
      match quoted? c c [] rest with
      | some (text, rest) =>
        let inner := Text.trimBy (· == c) (String.ofList text)
        .ok (if c == '"' then fileExpand vars (unescape inner) else inner, rest)
      | none => .error (.unterminated (String.ofList ((c :: rest).takeWhile (· != '\n'))))
    else
      let line := (c :: rest).takeWhile fun c => c != '\n' && c != '\r'
      .ok (fileExpand vars (plainValue line), (c :: rest).drop line.length)

/-- Reads statement after statement. Each takes at least a character. -/
def readAux : Nat → Table String → List Char → Except Malformed (Table String)
  | 0, vars, _ => .ok vars
  | fuel + 1, vars, cs =>
    match skip cs with
    | [] => .ok vars
    | cs => do
      let (name, rest) ← name (dropExport cs)
      let (value, rest) ← value vars rest
      readAux fuel (vars.insert name value) rest

def read (content : String) : Except Malformed (Table String) :=
  let cs := (Text.replace content "\r\n" "\n").toList
  readAux (cs.length + 1) [] cs

end Dotenv
end ClientGen
