import ClientGen.Document.Symbols
import ClientGen.Document.Walk

/-! # Checking type names

Every type name of a document has to mean a structure, an enumeration or another
name of a type; the result of a remote procedure may not be an enumeration.
What does not is reported where it stands.
-/

namespace ClientGen
namespace Load

open Source (Reporter Code Diagnostic Position)

inductive Expected where
  | value | message
deriving DecidableEq, Repr, Inhabited

def Expected.admits : Expected → Statement → Bool
  | _, .struct _ => true
  | _, .typedef _ => true
  | value, .enum _ => true
  | message, .enum _ => false
  | _, _ => false

def nameProblem? (s : Symbols) (d : Document) (expected : Expected) (name : String) :
    Option String :=
  match s.resolve? d name with
  | none => some ("unresolved type " ++ name)
  | some (st, _) =>
    if expected.admits st then none else some (name ++ " does not name a type")

/-- What is wrong with the names in a type, in order. The types inside containers
may be any values. -/
def typeProblems (s : Symbols) (d : Document) : Expected → FieldType → List String
  | expected, .identifier name => (nameProblem? s d expected name).toList
  | _, .list e => typeProblems s d .value e
  | _, .set e => typeProblems s d .value e
  | _, .map k v => typeProblems s d .value k ++ typeProblems s d .value v
  | _, _ => []

def Node.checked? (dialect : Dialect) : Node → Option (FieldType × Expected × Position)
  | .field f => some (f.type, .value, f.position)
  | .typedef t => some (t.type, .value, t.position)
  | .const c => some (c.type, .value, c.position)
  | .function f =>
    some (f.returns, if dialect = .protobuf then .message else .value, f.position)
  | _ => none

def documentProblems (s : Symbols) (d : Document) : List Diagnostic :=
  d.nodes.flatMap fun n =>
    match Node.checked? d.dialect n with
    | none => []
    | some (t, expected, position) =>
      (typeProblems s d expected t).map fun message =>
        { location := { uri := d.path, position }, code := Code.unresolvedType, message }

def check (docs : List Document) (r : Reporter) : Reporter :=
  let s := Symbols.ofDocs docs
  (docs.flatMap (documentProblems s)).foldl Reporter.report r

end Load
end ClientGen
