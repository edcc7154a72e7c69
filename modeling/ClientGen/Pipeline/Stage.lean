import ClientGen.Pipeline.Hook
import ClientGen.Pipeline.Run
import ClientGen.Typescript.Method
import ClientGen.Value.Basic

/-! # The stages of generation

The four hooks at which code is generated and the context of each: all documents
before anything is generated, each service, each field of a mock sample, and each
file before it is written.
-/

namespace ClientGen
namespace Pipeline

open Source (Failure)

/-- The documents of a run before anything is generated from them. -/
structure EntryContext where
  documents : List Document
  /-- The files to be written; there are none once a plugin dropped them. -/
  output : Option (Table String) := some []
  /-- The paths of the entries by name. -/
  entries : Table String := []
deriving Repr, Inhabited

structure FileContext where
  entry : String
  document : Document
  service : Service
  methods : List Typescript.Method := []
  imports : List String := []
deriving Repr, Inhabited

structure FieldContext where
  owner : String
  field : Option Field
  /-- How deep the structure is nested in the sample. -/
  depth : Nat := 0
  value : Value := .null
deriving Inhabited

/-- A file before it is written. -/
structure WriteContext where
  filename : String
  content : String
deriving DecidableEq, Repr, Inhabited

inductive Stage where
  | parseEntry (h : Handler Run EntryContext)
  | generateFile (h : Handler Run FileContext)
  | mockField (h : Handler Run FieldContext)
  | writeFile (h : Handler Run WriteContext)
deriving Inhabited

namespace Stage

def parseEntryHook : String := "PARSE_ENTRY"
def generateFileHook : String := "GEN_FILE_AST"
def mockFieldHook : String := "GEN_MOCK_FIELD"
def writeFileHook : String := "WRITE_FILE"

def hook : Stage → String
  | parseEntry _ => parseEntryHook
  | generateFile _ => generateFileHook
  | mockField _ => mockFieldHook
  | writeFile _ => writeFileHook

/-- Built-in stages run before or after those without a priority of their own. -/
def early : Int := -100
def late : Int := 100

def registration (s : Stage) (phase : String) (priority : Int) : Registration Stage :=
  { key := key phase s.hook, priority, handler := s }

def parseEntry? : Stage → Option (Handler Run EntryContext)
  | parseEntry h => some h
  | _ => none

def generateFile? : Stage → Option (Handler Run FileContext)
  | generateFile h => some h
  | _ => none

def mockField? : Stage → Option (Handler Run FieldContext)
  | mockField h => some h
  | _ => none

def writeFile? : Stage → Option (Handler Run WriteContext)
  | writeFile h => some h
  | _ => none

def settle {γ : Type} (x : Option Failure × γ × Run) : Except Failure γ × Run :=
  match x with
  | (none, c, r) => (.ok c, r)
  | (some f, _, r) => (.error f, r)

def runParseEntry (b : Bus Stage) (c : EntryContext) (r : Run) : Except Failure EntryContext × Run :=
  settle (b.trigger parseEntry? parseEntryHook c r)

def runGenerateFile (b : Bus Stage) (c : FileContext) (r : Run) : Except Failure FileContext × Run :=
  settle (b.trigger generateFile? generateFileHook c r)

def runMockField (b : Bus Stage) (c : FieldContext) (r : Run) : Except Failure FieldContext × Run :=
  settle (b.trigger mockField? mockFieldHook c r)

def runWriteFile (b : Bus Stage) (c : WriteContext) (r : Run) : Except Failure WriteContext × Run :=
  settle (b.trigger writeFile? writeFileHook c r)

/-- A handler of the stage before generation that never fails. -/
def onEntries (f : EntryContext → Run → EntryContext × Run) : Stage :=
  parseEntry fun c r => let (c, r) := f c r; (.ok c, r)

def onDocuments (f : Document → Document) : Stage :=
  onEntries fun c r => ({ c with documents := c.documents.map f }, r)

end Stage

end Pipeline
end ClientGen
