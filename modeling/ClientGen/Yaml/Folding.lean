import ClientGen.Yaml.Tail

/-! # Scalars over several lines

Plain and quoted scalars go on in the next line: a single line break between two
words is a space, and of several the first is dropped. Block scalars keep their
lines, or fold them where none of the two is indented.
-/

namespace ClientGen
namespace Yaml

/-- Blanks and line breaks between two words. -/
structure Gap where
  /-- The blanks, when there are no line breaks. -/
  blanks : List Char := []
  breaks : List Char := []
  /-- Whether the gap started with a line break that does not count. -/
  escaped : Bool := false
deriving DecidableEq, Repr, Inhabited

namespace Gap

def text (g : Gap) : List Char :=
  if g.escaped then g.breaks
  else match g.breaks with
    | [] => g.blanks
    | b :: more => if b != '\n' then b :: more else if more.isEmpty then [' '] else more

/-- Whether the gap reaches the next line. -/
def spans (g : Gap) : Bool := !g.breaks.isEmpty

/-- Passes the rest of a gap. In a later line, a tab may not stand in a column
below `least`. -/
def pass? (least : Nat) : Nat → Gap → Tail → Option (Gap × Tail)
  | 0, g, t => some (g, t)
  | fuel + 1, g, t =>
    match t.rest with
    | [] => some (g, t)
    | c :: _ =>
      if isBreak c then
        pass? least fuel { g with blanks := [], breaks := g.breaks ++ [t.lineEnd] } t.dropBreak
      else if isBlank c then
        if g.escaped then pass? least fuel g (t.drop 1)
        else if !g.spans then pass? least fuel { g with blanks := g.blanks ++ [c] } (t.drop 1)
        else if c == '\t' && t.column < least then none
        else pass? least fuel g (t.drop 1)
      else some (g, t)

def take? (least : Nat) (g : Gap) (t : Tail) : Option (Gap × Tail) := pass? least (t.rest.length + 1) g t

end Gap

/-- Characters that end a plain scalar inside a flow collection. -/
def isFlowMark (c : Char) : Bool := ",?[]\x7b\x7d".toList.contains c

def wordLength (flow : Bool) : List Char → Nat
  | [] => 0
  | c :: rest =>
    if isBlank c || isBreak c || (c == ':' && endsWord rest) || (flow && isFlowMark c) then 0
    else wordLength flow rest + 1

structure PlainText where
  text : List Char
  /-- Whether line breaks were passed after its last word. -/
  spans : Bool
  after : Tail

/-- The rest of a plain scalar, whose later lines start at column `least` or
further. Each round passes at least a character. -/
def plainAux (flow : Bool) (least : Nat) : Nat → List Char → Gap → Tail → Option PlainText
  | 0, done, g, t => some ⟨done, g.spans, t⟩
  | fuel + 1, done, g, t =>
    if t.atMark || t.rest.head? == some '#' then some ⟨done, g.spans, t⟩
    else
      let n := wordLength flow t.rest
      let (done, g) := if n == 0 then (done, g) else (done ++ g.text ++ t.rest.take n, {})
      let t := t.drop n
      if t.rest.isEmpty || !endsWord t.rest then some ⟨done, g.spans, t⟩
      else do
        let (g, t) ← Gap.take? least {} t
        if !flow && t.column < least then return ⟨done, g.spans, t⟩
        else plainAux flow least fuel done g t

def plain? (flow : Bool) (least : Nat) (t : Tail) : Option PlainText :=
  plainAux flow least (t.rest.length + 1) [] {} t

def escape? : Char → Option Char
  | '0' => some '\x00' | 'a' => some '\x07' | 'b' => some '\x08' | 't' => some '\t'
  | '\t' => some '\t' | 'n' => some '\n' | 'v' => some '\x0b' | 'f' => some '\x0c'
  | 'r' => some '\r' | 'e' => some '\x1b' | ' ' => some ' ' | '"' => some '"'
  | '\'' => some '\'' | '\\' => some '\\' | 'N' => some '\u0085' | '_' => some '\u00a0'
  | 'L' => some '\u2028' | 'P' => some '\u2029'
  | _ => none

def escapeWidth? : Char → Option Nat
  | 'x' => some 2 | 'u' => some 4 | 'U' => some 8
  | _ => none

def hexChar? (digits : List Char) : Option Char := do
  let n ← digits.foldlM (fun n c => do return 16 * n + (← Text.hexDigit? c)) 0
  if n.isValidChar then some (Char.ofNat n) else none

/-- The character of the escape behind a backslash, and how long the escape is. -/
def escaped? : List Char → Option (Char × Nat)
  | c :: rest =>
    match escape? c, escapeWidth? c with
    | some e, _ => some (e, 1)
    | none, some width =>
      if rest.length < width then none
      else do return (← hexChar? (rest.take width), width + 1)
    | none, none => none
  | [] => none

def quotedAux (quote : Char) : Nat → List Char → Tail → Option (List Char × Tail)
  | 0, _, _ => none
  | fuel + 1, done, t =>
    if t.atMark then none
    else match t.rest with
      | [] => none
      | c :: rest =>
        if c == quote then
          if quote == '\'' && rest.head? == some '\'' then quotedAux quote fuel (c :: done) (t.drop 2)
          else some (done.reverse, t.drop 1)
        else if isBlank c || isBreak c then do
          let (g, t) ← Gap.take? 0 {} t
          quotedAux quote fuel (g.text.reverse ++ done) t
        else if quote == '"' && c == '\\' then
          if !rest.isEmpty && endsLine rest then do
            let (g, t) ← Gap.take? 0 { escaped := true } (t.drop 1).dropBreak
            quotedAux quote fuel (g.text.reverse ++ done) t
          else do
            let (e, n) ← escaped? rest
            quotedAux quote fuel (e :: done) (t.drop (n + 1))
        else quotedAux quote fuel (c :: done) (t.drop 1)

def quoted? (t : Tail) : Option (String × Tail) := do
  let quote ← t.rest.head?
  let (text, after) ← quotedAux quote (t.rest.length + 1) [] (t.drop 1)
  return (String.ofList text, after)

/-- How line ends at the end of a block are treated. -/
inductive Chomping where
  | strip | clip | keep
deriving DecidableEq, Repr, Inhabited

structure Header where
  chomping : Chomping := .clip
  /-- By how much the block is indented, when the header says so. -/
  depth : Option Nat := none
deriving DecidableEq, Repr, Inhabited

namespace Header

/-- The sign for the treatment of line ends. -/
def chomping? : List Char → Option Chomping
  | '+' :: _ => some .keep
  | '-' :: _ => some .strip
  | _ => none

/-- The header of a block scalar behind its sign: two marks in any order, each of
which may be absent, and then nothing but a comment. -/
def read? (t : Tail) : Option (Header × Tail) := do
  let (h, t) ← match chomping? t.rest with
    | some chomping =>
      match digit? (t.drop 1).rest with
      | some n => if n == 0 then none else some ({ chomping, depth := some n }, t.drop 2)
      | none => some ({ chomping }, t.drop 1)
    | none =>
      match digit? t.rest with
      | some n =>
        if n == 0 then none
        else match chomping? (t.drop 1).rest with
          | some chomping => some ({ chomping, depth := some n }, t.drop 2)
          | none => some ({ depth := some n }, t.drop 1)
      | none => some ({}, t)
  let t := t.dropWhile isBlank
  let t := if t.rest.head? == some '#' then t.dropLine else t
  if endsLine t.rest then some (h, t.dropBreak) else none
where
  /-- The digit at the start. -/
  digit? : List Char → Option Nat
  | c :: _ => if c.isDigit then some (c.toNat - '0'.toNat) else none
  | [] => none

end Header

/-- Passes empty lines in front of a line of a block, and its indentation up to
`depth`; at depth zero all spaces belong to it. The widest indentation that was
met is given as well. -/
def blockBreaks? (depth : Nat) : Nat → Nat → List Char → Tail → Option (Nat × List Char × Tail)
  | 0, widest, done, t => some (widest, done, t)
  | fuel + 1, widest, done, t =>
    let spaces := (t.rest.takeWhile (· == ' ')).length
    let t := t.drop (if depth == 0 then spaces else min spaces (depth - t.column))
    let widest := max widest t.column
    match t.rest with
    | c :: _ =>
      if c == '\t' && (depth == 0 || t.column < depth) then none
      else if isBreak c then blockBreaks? depth fuel widest (done ++ [t.lineEnd]) t.dropBreak
      else some (widest, done, t)
    | [] => some (widest, done, t)

structure Block where
  text : List Char := []
  /-- The break after the last line. -/
  lineEnd : List Char := []
  /-- The breaks of empty lines after it. -/
  breaks : List Char := []
  /-- Whether the last line started with a blank. -/
  indented : Bool := false

/-- Adds a line to a block. A folded block joins lines by a space, unless one of
them is indented or empty lines stand between them. -/
def Block.add (b : Block) (folded : Bool) (line : List Char) (lineEnd : List Char) : Block :=
  let indented := (line.head?.map isBlank).getD false
  let joint :=
    if folded && !b.indented && !indented && b.lineEnd == ['\n'] then
      if b.breaks.isEmpty then [' '] else []
    else b.lineEnd
  { text := b.text ++ joint ++ b.breaks ++ line, lineEnd, breaks := [], indented }

/-- Reads the lines of a block that is indented by `depth`. -/
def blockLines? (folded : Bool) (depth : Nat) : Nat → Block → Tail → Option (Block × Tail)
  | 0, b, t => some (b, t)
  | fuel + 1, b, t =>
    if t.column == depth && !t.rest.isEmpty then do
      let line := t.rest.takeWhile fun c => !isBreak c
      let t := t.dropLine
      let b := b.add folded line (if t.rest.isEmpty then [] else [t.lineEnd])
      let (_, breaks, t) ← blockBreaks? depth (t.rest.length + 1) 0 [] t.dropBreak
      blockLines? folded depth fuel { b with breaks } t
    else some (b, t)

/-- The block scalar at the start, within a collection that is indented by
`outer`, if it is. -/
def block? (folded : Bool) (outer : Option Nat) (t : Tail) : Option (String × Tail) := do
  let (h, t) ← Header.read? (t.drop 1)
  let least := (outer.map (· + 1)).getD 0
  let given := (h.depth.map (· + outer.getD 0)).getD 0
  let (widest, breaks, t) ← blockBreaks? given (t.rest.length + 1) 0 [] t
  let depth := if given == 0 then max 1 (max least widest) else given
  let (b, t) ← blockLines? folded depth (t.rest.length + 1) { breaks } t
  let text := match h.chomping with
    | .strip => b.text
    | .clip => b.text ++ b.lineEnd
    | .keep => b.text ++ b.lineEnd ++ b.breaks
  return (String.ofList text, t)

end Yaml
end ClientGen
