import ClientGen.Document.Symbols
import ClientGen.Mock.Switchboard

/-! # The state of a run

What the stages of one run share: the type mapping and the names of all
documents, the warnings given so far, the files to be written, and what plugins
remember between their handlers.
-/

namespace ClientGen
namespace Pipeline

structure Warning where
  message : String
  fields : Table String := []
deriving DecidableEq, Repr, Inhabited

/-- How types are mapped and what names mean. -/
structure Registry where
  types : Typescript.Mapper := {}
  symbols : Symbols := {}
deriving Repr, Inhabited

/-- What the switchboard plugin remembers between its handlers. -/
structure Board where
  /-- Whether there is a set of files to put the switchboard in. -/
  ready : Bool := false
  prior : Option Mock.Switchboard := none
  methods : List String := []
deriving Repr, Inhabited

/-- The state of a run. A plugin keeps what it remembers under its own number. -/
structure Run where
  registry : Option Registry := some {}
  warnings : List Warning := []
  /-- The keys of the hints that were shown. -/
  hints : List String := []
  /-- The files to be written, by path. -/
  output : Table String := []
  /-- The services that a plugin renamed, by document and statement. -/
  renamed : List (Nat × Nat × Nat) := []
  boards : List (Nat × Board) := []
deriving Repr, Inhabited

namespace Run

def warn (r : Run) (message : String) (fields : Table String) : Run :=
  { r with warnings := r.warnings ++ [{ message, fields }] }

/-- Warns unless a hint with the key was shown before, and says whether it did. -/
def hintOnce (r : Run) (key message : String) (fields : Table String) : Bool × Run :=
  if r.hints.contains key then (false, r)
  else (true, { r.warn message fields with hints := key :: r.hints })

def put (r : Run) (path content : String) : Run :=
  { r with output := r.output.insert path content }

/-- What a plugin remembers about the switchboard. -/
def board (r : Run) (slot : Nat) : Board := (r.boards.lookup slot).getD {}

/-- The run after a plugin changed what it remembers. -/
def setBoard (r : Run) (slot : Nat) (b : Board) : Run :=
  { r with boards := (slot, b) :: r.boards.filter (·.1 ≠ slot) }

end Run

end Pipeline
end ClientGen
