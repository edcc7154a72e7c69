import ClientGen.Text.Basic

/-! # Positions in a source

A position is the place of the code point consumed last. Columns and lines count
from one; before anything is consumed the column is zero and the offset is minus
one, so that the offset is the one of the last byte consumed. Lines and columns are
counted in 32 bits and wrap.
-/

namespace ClientGen
namespace Source

/-- A place in a source text. Line zero means that no place is known. -/
structure Position where
  line : Int32 := 0
  column : Int32 := 0
  offset : Int := 0
deriving DecidableEq, Repr, Inhabited

namespace Position

/-- Before the first code point of a source. -/
def start : Position := { line := 1, column := 0, offset := -1 }

/-- After one more code point of the same line. -/
def step (p : Position) (c : Char) : Position :=
  { p with column := p.column + 1, offset := p.offset + c.utf8Size }

/-- After several more code points of the same line. -/
def stepAll (p : Position) (cs : List Char) : Position := cs.foldl step p

/-- Before the first code point of the next line. -/
def newLine (p : Position) : Position := { p with line := p.line + 1, column := 0 }

end Position

structure Location where
  uri : String := ""
  position : Position := {}
deriving DecidableEq, Repr, Inhabited

/-- The place as messages show it: only the source when no line is known. -/
def Location.text (l : Location) : String :=
  if l.position.line = 0 then l.uri
  else l.uri ++ ":" ++ Text.ofInt l.position.line.toInt ++ ":" ++ Text.ofInt l.position.column.toInt

/-- The first and the last code point of a piece of source, both included. -/
structure Span where
  first : Position
  last : Position
deriving DecidableEq, Repr, Inhabited

end Source
end ClientGen
