import ClientGen.Document.Route
import ClientGen.Source.Failure
import ClientGen.Thrift.Parser

/-! # From Thrift to documents

Brings a Thrift syntax tree into the common document form: numbers absent field
ids and enumeration values, chooses the namespace and reads the routes.
-/

namespace ClientGen
namespace Thrift

open Source (Reporter Failure Cursor Code)

abbrev CommentsOf := Nat → List Comment

def TypeTree.fieldType : TypeTree → FieldType
  | name _ n _ => if FieldType.scalars.contains n then .base n else .identifier n
  | list _ e _ => .list e.fieldType
  | set _ e _ => .set e.fieldType
  | map _ k v _ => .map k.fieldType v.fieldType

/-- The namespace of a file: the one for scripts, else the one for all targets,
else the first. -/
def pickNamespace (headers : List Header) : String :=
  let named := headers.filterMap fun
    | .namespaced _ scope name => some (scope, name)
    | _ => none
  match named.lookup "js" <|> named.lookup "*" <|> named.head?.map (·.2) with
  | some name => name
  | none => ""

/-- The fields in the common form. A field without a number has the one after
its predecessor's; the first has one. -/
def fieldsFrom (comments : CommentsOf) (next : Int) : List FieldTree → List Field
  | [] => []
  | f :: fs =>
    let id := f.id.getD next
    { id, name := f.name, type := f.type.fieldType,
      required := f.requirement == .required, optional := f.requirement == .optional,
      default := f.default, annotations := f.type.annotations ++ f.annotations,
      comments := comments f.origin.decl, position := f.origin.position }
    :: fieldsFrom comments (Number.wrap64 (id + 1)) fs

/-- The members in the common form. A member without a value has the one after
its predecessor's; the first has zero. -/
def membersFrom (comments : CommentsOf) (next : Int) : List MemberTree → List EnumMember
  | [] => []
  | m :: ms =>
    let value := m.value.getD next
    { name := m.name, value, comments := comments m.origin.decl, position := m.origin.position }
    :: membersFrom comments (Number.wrap64 (value + 1)) ms

/-- A function in the common form; its route inherits from the service. -/
def FunctionTree.lower (comments : CommentsOf) (inherited : List Annotation) (f : FunctionTree) :
    Function :=
  { name := f.name, params := fieldsFrom comments 1 f.params,
    returns := (f.returns.map TypeTree.fieldType).getD .void, oneway := f.oneway,
    route := Route.config? f.annotations inherited, annotations := f.annotations,
    comments := comments f.origin.decl, position := f.origin.position }

def Definition.lower (comments : CommentsOf) : Definition → Statement
  | .const c =>
    .const { name := c.name, type := c.type.fieldType, value := c.value,
             comments := comments c.origin.decl, position := c.origin.position }
  | .typedef t =>
    .typedef { name := t.name, type := t.type.fieldType, comments := comments t.origin.decl,
               position := t.origin.position }
  | .enum e =>
    .enum { name := e.name, members := membersFrom comments 0 e.members,
            annotations := e.annotations, comments := comments e.origin.decl,
            position := e.origin.position }
  | .struct s =>
    .struct { name := s.name, variant := s.variant, fields := fieldsFrom comments 1 s.fields,
              annotations := s.annotations, comments := comments s.origin.decl,
              position := s.origin.position }
  | .service s =>
    .service { name := s.name, parent := s.parent,
               functions := s.functions.map (FunctionTree.lower comments s.annotations),
               route := Route.config? s.annotations [], annotations := s.annotations,
               comments := comments s.origin.decl, position := s.origin.position }

def Tree.document (path : String) (comments : CommentsOf) (t : Tree) : Document :=
  { path, dialect := .thrift, namespaceName := pickNamespace t.headers,
    includes := t.headers.filterMap fun
      | .included _ path false => some path
      | _ => none
    statements := t.definitions.map (Definition.lower comments) }

/-- Ends a parse: the tree with the comments, or the first fatal diagnostic. -/
def finish (path : String) (revise : Bool) (tree : Option Tree) (c : Cursor) :
    Except Failure Document :=
  match tree, c.failed with
  | some t, false =>
    let all := Source.attachments c revise
    .ok (t.document path (Source.attached all))
  | _, _ =>
    match c.error? with
    | some d => .error (.diagnostic d)
    | none => .error (.diagnostic
        { location := { uri := path }, code := Code.unknownFatal, message := "failed to parse thrift" })

/-- Parses a Thrift source. With `revise` a comment that starts on the line where
a declaration ends belongs to that declaration. -/
def parse (path source : String) (revise : Bool) (r : Reporter) :
    Except Failure Document × Reporter :=
  let (tree, c) := file.run (Cursor.ofSource { hashComments := true } path source r)
  (finish path revise tree c, c.reporter)

end Thrift
end ClientGen
