import ClientGen.Text.Basic
import ClientGen.Yaml.Folding

/-! # Reading YAML tokens

A key without a mark is only known as one when its colon is met. The lexer keeps
the place where a key may have started, one for each level of flow collections,
and puts the tokens for it there when the colon comes. Blocks open where an item
or a key stands further right than the block around it, and close where a line
starts further left.
-/

namespace ClientGen
namespace Yaml

/-! ## Tokens

Block collections, whose ends are told by indentation only, have tokens for their
starts and ends as well.
-/

inductive Token where
  | textEnd
  /-- The version a document asks for. -/
  | version (major minor : Nat)
  /-- What the tags with a handle start with. -/
  | handle (name start : String)
  | documentStart
  | documentEnd
  | blockListStart
  | blockMapStart
  | blockEnd
  | flowListStart
  | flowListEnd
  | flowMapStart
  | flowMapEnd
  /-- The dash of an item. -/
  | item
  | comma
  /-- The start of a key, written or not. -/
  | key
  /-- The colon before a value. -/
  | value
  /-- A node that was named before. -/
  | reference (name : String)
  /-- The name of the node that follows. -/
  | anchor (name : String)
  | tag (handle suffix : String)
  /-- A scalar, and whether it stood in quotes or in a block. -/
  | scalar (text : String) (isQuoted : Bool)
  /-- What could not be read. -/
  | fault
deriving DecidableEq, Repr, Inhabited

/-! ## Keys and blocks -/

structure KeyStart where
  /-- Whether a key has to be here, because its column is that of the block. -/
  isRequired : Bool
  /-- How many tokens came before. -/
  number : Nat
  index : Nat
  line : Nat
  column : Nat
deriving DecidableEq, Repr, Inhabited

/-- How far the colon of a key may stand behind its start. -/
def keyReach : Nat := 1024

/-- Whether the colon at the start of `t` may belong to a key: it is on the same
line and not too far away. -/
def KeyStart.reaches (k : KeyStart) (t : Tail) : Bool := k.line == t.line && t.index ≤ k.index + keyReach

/-- The state of reading tokens. -/
structure Lexer where
  tail : Tail
  /-- How many flow collections are open. -/
  flow : Nat := 0
  /-- The column of the block, and those of the blocks around it. -/
  column : Option Nat := none
  columns : List (Option Nat) := []
  /-- Whether a key may start here. -/
  keyAllowed : Bool := true
  /-- Where keys may have started, the innermost flow collection first. -/
  keys : List (Option KeyStart) := [none]
  tokens : Array Token := #[]
deriving Inhabited

/-- Whether a block stands further left than a column. There may be none. -/
def isLeftOf : Option Nat → Nat → Bool
  | none, _ => true
  | some block, column => block < column

/-- Closes the blocks that stand further right than `column`; without one, all. -/
def closeAux (column : Option Nat) :
    List (Option Nat) → Option Nat → Array Token → List (Option Nat) × Option Nat × Array Token
  | outer :: more, some c, tokens =>
    if isLeftOf column c then closeAux column more outer (tokens.push .blockEnd)
    else (outer :: more, some c, tokens)
  | columns, c, tokens => (columns, c, tokens)

namespace Lexer

def push (s : Lexer) (token : Token) : Lexer := { s with tokens := s.tokens.push token }

def take (s : Lexer) (n : Nat) (token : Token) : Lexer := { s with tail := s.tail.drop n }.push token

def insert (s : Lexer) (number : Nat) (token : Token) : Lexer :=
  { s with tokens := s.tokens.extract 0 number ++ #[token] ++ s.tokens.extract number s.tokens.size }

/-- Closes blocks; inside a flow collection columns mean nothing. -/
def close (s : Lexer) (column : Option Nat) : Lexer :=
  if s.flow > 0 then s
  else
    let (columns, column, tokens) := closeAux column s.columns s.column s.tokens
    { s with columns, column, tokens }

/-- Opens a block at a column, unless the block around it is as far right. -/
def openBlock (s : Lexer) (column number : Nat) (token : Token) : Lexer :=
  if s.flow > 0 || !isLeftOf s.column column then s
  else { s with columns := s.column :: s.columns, column := some column }.insert number token

/-- Gives up the key that may have started; a required one may not be given up. -/
def dropKey? (s : Lexer) : Option Lexer :=
  match s.keys with
  | some k :: outer => if k.isRequired then none else some { s with keys := none :: outer }
  | _ => some s

def saveKey? (s : Lexer) : Option Lexer :=
  if s.keyAllowed then do
    let t := s.tail
    let k : KeyStart := { isRequired := s.flow == 0 && s.column == some t.column,
                          number := s.tokens.size, index := t.index, line := t.line, column := t.column }
    let s ← s.dropKey?
    return { s with keys := some k :: s.keys.drop 1 }
  else some s

/-- Passes blanks, comments and line breaks. In a block a new line may start a key,
and no tab may stand where a key may start. -/
def skipAux : Nat → Lexer → Lexer
  | 0, s => s
  | fuel + 1, s =>
    let t := s.tail
    let t := if t.column == 0 && t.rest.head? == some Text.byteOrderMark then t.drop 1 else t
    let t := t.dropWhile fun c => c == ' ' || (c == '\t' && (s.flow > 0 || !s.keyAllowed))
    let t := if t.rest.head? == some '#' then t.dropLine.dropRemarks (t.rest.length + 1) else t
    if !t.rest.isEmpty && endsLine t.rest then
      skipAux fuel { s with tail := t.dropBreak, keyAllowed := s.keyAllowed || s.flow == 0 }
    else { s with tail := t }

def skip (s : Lexer) : Lexer := skipAux (s.tail.rest.length + 1) s

/-- Closes all blocks before what stands outside of documents. -/
def leave? (s : Lexer) : Option Lexer := do
  let s ← (s.close none).dropKey?
  return { s with keyAllowed := false }

def openFlow? (s : Lexer) (token : Token) : Option Lexer := do
  let s ← s.saveKey?
  return { s with flow := s.flow + 1, keys := none :: s.keys, keyAllowed := true }.take 1 token

def closeFlow? (s : Lexer) (token : Token) : Option Lexer := do
  let s ← s.dropKey?
  let s := if s.flow > 0 then { s with flow := s.flow - 1, keys := s.keys.drop 1 } else s
  return { s with keyAllowed := false }.take 1 token

def comma? (s : Lexer) : Option Lexer := do
  let s ← s.dropKey?
  return { s with keyAllowed := true }.take 1 .comma

def item? (s : Lexer) : Option Lexer := do
  if s.flow == 0 && !s.keyAllowed then none
  let s ← (s.openBlock s.tail.column s.tokens.size .blockListStart).dropKey?
  return { s with keyAllowed := true }.take 1 .item

def key? (s : Lexer) : Option Lexer := do
  if s.flow == 0 && !s.keyAllowed then none
  let s ← (s.openBlock s.tail.column s.tokens.size .blockMapStart).dropKey?
  return { s with keyAllowed := s.flow == 0 }.take 1 .key

def value? (s : Lexer) : Option Lexer :=
  match s.keys with
  | some k :: outer =>
    if k.reaches s.tail then
      let s := (s.insert k.number .key).openBlock k.column k.number .blockMapStart
      some ({ s with keys := none :: outer, keyAllowed := false }.take 1 .value)
    else if k.isRequired then none
    else bare?
  | _ => bare?
where
  /-- A value without a key, or with one that has a mark. -/
  bare? : Option Lexer :=
    if s.flow == 0 && !s.keyAllowed then none
    else
      let s := s.openBlock s.tail.column s.tokens.size .blockMapStart
      some ({ s with keyAllowed := s.flow == 0 }.take 1 .value)

end Lexer

def isNameChar (c : Char) : Bool := c == '_' || c == '-' || (c.toNat < 128 && c.isAlphanum)

def name? (t : Tail) : Option (String × Tail) :=
  let name := t.rest.takeWhile isNameChar
  let after := t.drop name.length
  let isEnd := endsWord after.rest || ((after.rest.head?.map ("?:,]\x7d%@`".toList.contains ·)).getD false)
  if name.isEmpty || !isEnd then none else some (String.ofList name, after)

/-- Characters of tags, aside from those of names. -/
def isTagMark (c : Char) : Bool := ";/?:@&=+$,.!~*'()[]%".toList.contains c

/-- How many bytes a character takes, by its first. -/
def byteCount? (byte : Nat) : Option Nat :=
  if byte < 0x80 then some 1
  else if 0xC0 ≤ byte && byte < 0xE0 then some 2
  else if 0xE0 ≤ byte && byte < 0xF0 then some 3
  else if 0xF0 ≤ byte && byte < 0xF8 then some 4
  else none

/-- The bytes of an escaped character, of which `due` are still to come. -/
def tagEscape? : Nat → Tail → Option (List Char × Tail)
  | 0, t => some ([], t)
  | due + 1, t =>
    match t.rest with
    | '%' :: a :: b :: _ => do
      let byte := (← Text.hexDigit? a) * 16 + (← Text.hexDigit? b)
      if byte / 64 != 2 then none
      let (more, after) ← tagEscape? due (t.drop 3)
      return (Char.ofNat byte :: more, after)
    | _ => none

/-- The characters of a tag, where a percent sign stands before the digits of a
byte. -/
def tagText? : Nat → List Char → Tail → Option (List Char × Tail)
  | 0, done, t => some (done, t)
  | fuel + 1, done, t =>
    match t.rest with
    | '%' :: a :: b :: _ => do
      let byte := (← Text.hexDigit? a) * 16 + (← Text.hexDigit? b)
      let (more, after) ← tagEscape? ((← byteCount? byte) - 1) (t.drop 3)
      tagText? fuel (done ++ Char.ofNat byte :: more) after
    | '%' :: _ => none
    | c :: _ => if isNameChar c || isTagMark c then tagText? fuel (done ++ [c]) (t.drop 1) else some (done, t)
    | [] => some (done, t)

/-- The text of a tag, which is not empty unless something stood before it. -/
def tagPart? (t : Tail) : Option (String × Tail) := do
  let (text, after) ← tagText? (t.rest.length + 1) [] t
  if text.isEmpty then none else some (String.ofList text, after)

/-- A handle: an exclamation mark, and perhaps a name and another one. -/
def handle (t : Tail) : String × Tail :=
  let name := (t.drop 1).rest.takeWhile isNameChar
  let after := t.drop (1 + name.length)
  if after.rest.head? == some '!' then ("!" ++ String.ofList name ++ "!", after.drop 1)
  else ("!" ++ String.ofList name, after)

/-- A tag: its handle, which may be empty, and what follows the handle. -/
def tag? (t : Tail) : Option (Token × Tail) := do
  let (token, after) ←
    if (t.rest.drop 1).head? == some '<' then do
      let (text, after) ← tagPart? (t.drop 2)
      if after.rest.head? != some '>' then none
      pure (Token.tag "" text, after.drop 1)
    else
      let (name, after) := handle t
      if name.length > 1 && Text.endsWith name "!" then do
        let (text, after) ← tagPart? after
        pure (Token.tag name text, after)
      else do
        let (text, after) ← tagText? (after.rest.length + 1) (name.toList.drop 1) after
        if text.isEmpty then pure (Token.tag "" "!", after)
        else pure (Token.tag "!" (String.ofList text), after)
  if endsWord after.rest then some (token, after) else none

def versionPart? (t : Tail) : Option (Nat × Tail) :=
  let digits := t.rest.takeWhile Char.isDigit
  if digits.isEmpty || digits.length > 2 then none
  else some (digits.foldl (fun n c => 10 * n + (c.toNat - '0'.toNat)) 0, t.drop digits.length)

def version? (t : Tail) : Option (Token × Tail) := do
  let (major, t) ← versionPart? t
  if t.rest.head? != some '.' then none
  let (minor, t) ← versionPart? (t.drop 1)
  return (.version major minor, t)

def handleStart? (t : Tail) : Option (Token × Tail) := do
  if t.rest.head? != some '!' then none
  let (name, t) := handle t
  if name ≠ "!" && !(name.length > 1 && Text.endsWith name "!") then none
  let after := t.dropWhile isBlank
  if after.index == t.index then none
  let (start, t) ← tagPart? after
  if endsWord t.rest then some (.handle name start, t) else none

def directive? (t : Tail) : Option (Token × Tail) := do
  let t := t.drop 1
  let name := t.rest.takeWhile isNameChar
  let t := t.drop name.length
  if !endsWord t.rest then none
  let (token, t) ← match String.ofList name with
    | "YAML" => version? (t.dropWhile isBlank)
    | "TAG" => handleStart? (t.dropWhile isBlank)
    | _ => none
  let t := t.dropWhile isBlank
  let t := if t.rest.head? == some '#' then t.dropLine else t
  if endsLine t.rest then some (token, t.dropBreak) else none

namespace Lexer

/-- Adds what starts with a key, perhaps: an anchor, a tag or a scalar. -/
def word? (s : Lexer) (read : Tail → Option (Token × Tail)) : Option Lexer := do
  let s ← s.saveKey?
  let (token, tail) ← read s.tail
  return { s with tail, keyAllowed := false }.push token

def blockScalar? (s : Lexer) (folded : Bool) : Option Lexer := do
  let s ← s.dropKey?
  let (text, tail) ← block? folded s.column s.tail
  return { s with tail, keyAllowed := true }.push (.scalar text true)

/-- A plain scalar. When it ends before another line, a key may start there. -/
def plainScalar? (s : Lexer) : Option Lexer := do
  let s ← s.saveKey?
  let p ← plain? (s.flow > 0) ((s.column.map (· + 1)).getD 0) s.tail
  return { s with tail := p.after, keyAllowed := p.spans }.push (.scalar (String.ofList p.text) false)

/-- Characters that no plain scalar starts with. -/
def isIndicator (c : Char) : Bool := "-?:,[]\x7b\x7d#&*!|>'\"%@`".toList.contains c

def token? (s : Lexer) (c : Char) (rest : List Char) : Option Lexer :=
  let inFlow := s.flow > 0
  if c == '[' then s.openFlow? .flowListStart
  else if c == '\x7b' then s.openFlow? .flowMapStart
  else if c == ']' then s.closeFlow? .flowListEnd
  else if c == '\x7d' then s.closeFlow? .flowMapEnd
  else if c == ',' then s.comma?
  else if c == '-' && endsWord rest then s.item?
  else if c == '?' && (inFlow || endsWord rest) then s.key?
  else if c == ':' && (inFlow || endsWord rest) then s.value?
  else if c == '*' then s.word? fun t => (name? (t.drop 1)).map fun (name, t) => (.reference name, t)
  else if c == '&' then s.word? fun t => (name? (t.drop 1)).map fun (name, t) => (.anchor name, t)
  else if c == '!' then s.word? tag?
  else if (c == '|' || c == '>') && !inFlow then s.blockScalar? (c == '>')
  else if c == '"' || c == '\'' then
    s.word? fun t => (quoted? t).map fun (text, t) => (.scalar text true, t)
  else if !isBlank c && (!isIndicator c || c == '-' || (!inFlow && (c == '?' || c == ':'))) then s.plainScalar?
  else none

def step? (s : Lexer) : Option Lexer := do
  let s := s.skip
  let s := s.close (some s.tail.column)
  match s.tail.rest with
  | [] => return (← s.leave?).push .textEnd
  | c :: rest =>
    if s.tail.column == 0 && c == '%' then do
      let s ← s.leave?
      let (token, tail) ← directive? s.tail
      return { s with tail }.push token
    else if s.tail.hasMark ['-', '-', '-'] then return (← s.leave?).take 3 .documentStart
    else if s.tail.hasMark ['.', '.', '.'] then return (← s.leave?).take 3 .documentEnd
    else do
      let s ← s.token? c rest
      return if s.tokens.back? == some .item then s else { s with tail := s.tail.dropRemark }

/-- Reads token after token. Where one cannot be read, the two before it cannot be
told apart from it, since reading looks that far ahead. Each token takes a
character. -/
def run : Nat → Lexer → List Token
  | 0, _ => [.fault]
  | fuel + 1, s =>
    match s.step? with
    | none => (s.tokens.extract 0 (s.tokens.size - 2)).toList ++ [.fault]
    | some s => if s.tokens.back? == some .textEnd then s.tokens.toList else run fuel s

end Lexer

/-- The tokens of a text, without the byte order mark in front of it. -/
def tokens (content : String) : List Token :=
  let cs := Text.codePoints content
  if cs.all isAllowed then Lexer.run (cs.length + 2) { tail := { rest := cs } } else [.fault]

end Yaml
end ClientGen
