import ClientGen.Text.Utf8

/-! # What is left of a YAML text

Reading goes through a text from front to back. What is left of it is kept with
its place, because columns and line numbers decide what it means.
-/

namespace ClientGen
namespace Yaml

def isBlank (c : Char) : Bool := c == ' ' || c == '\t'

/-- Line breaks, among them the next-line mark and the separators of lines and
paragraphs. -/
def isBreak (c : Char) : Bool := [0x0A, 0x0D, 0x85, 0x2028, 0x2029].contains c.toNat

/-- Whether a character may stand in a text at all. -/
def isAllowed (c : Char) : Bool :=
  let n := c.toNat
  n == 0x09 || n == 0x0A || n == 0x0D || n == 0x85 || (0x20 ≤ n && n ≤ 0x7E) ||
    (0xA0 ≤ n && n ≠ 0xFFFE && n ≠ 0xFFFF)

def endsWord : List Char → Bool
  | [] => true
  | c :: _ => isBlank c || isBreak c

def endsLine : List Char → Bool
  | [] => true
  | c :: _ => isBreak c

/-- What is left of a text, and where it starts. -/
structure Tail where
  rest : List Char
  /-- How many characters came before. -/
  index : Nat := 0
  line : Nat := 0
  column : Nat := 0
  /-- Whether the last thing passed, blanks aside, was a line break. -/
  fresh : Bool := false
deriving DecidableEq, Repr, Inhabited

namespace Tail

def drop (t : Tail) (n : Nat) : Tail :=
  { t with rest := t.rest.drop n, index := t.index + n, column := t.column + n,
           fresh := t.fresh && (t.rest.take n).all isBlank }

/-- Passes characters of a line as long as they are of a kind. -/
def dropWhile (p : Char → Bool) (t : Tail) : Tail := t.drop (t.rest.takeWhile p).length

/-- The line break at the start, as it is kept: a separator of lines or
paragraphs stays what it is, all others are line feeds. -/
def lineEnd (t : Tail) : Char :=
  match t.rest with
  | c :: _ => if c.toNat == 0x2028 || c.toNat == 0x2029 then c else '\n'
  | [] => '\n'

def dropBreak (t : Tail) : Tail :=
  let passed := match t.rest with
    | '\r' :: '\n' :: _ => 2
    | c :: _ => if isBreak c then 1 else 0
    | [] => 0
  if passed == 0 then t
  else { rest := t.rest.drop passed, index := t.index + passed, line := t.line + 1, column := 0,
         fresh := true }

def dropLine (t : Tail) : Tail := t.dropWhile fun c => !isBreak c

/-- Whether a mark of three characters stands at the start of a line, on its own. -/
def hasMark (t : Tail) (mark : List Char) : Bool :=
  t.column == 0 && mark.isPrefixOf t.rest && endsWord (t.rest.drop 3)

/-- Whether a mark between documents stands here. -/
def atMark (t : Tail) : Bool := t.hasMark ['-', '-', '-'] || t.hasMark ['.', '.', '.']

/-- Passes a comment that follows on the same line, with blanks before it or not. -/
def dropRemark (t : Tail) : Tail :=
  let after := t.dropWhile isBlank
  if !t.fresh && after.rest.head? == some '#' then after.dropLine else t

/-- The comments after the one that was just passed, when only blanks and line
breaks stand between them. Each takes at least a character. -/
def dropRemarks : Nat → Tail → Tail
  | 0, t => t
  | fuel + 1, t =>
    let next := blanks (t.rest.length + 1) t.dropBreak
    if next.rest.head? == some '#' then dropRemarks fuel next.dropLine else t
where
  /-- Passes blanks and line breaks. -/
  blanks : Nat → Tail → Tail
  | 0, t => t
  | fuel + 1, t =>
    match t.rest with
    | [] => t
    | c :: _ =>
      if isBreak c then blanks fuel t.dropBreak
      else if isBlank c then blanks fuel (t.drop 1)
      else t

end Tail

end Yaml
end ClientGen
