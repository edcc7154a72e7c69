import ClientGen.Document.Basic
import ClientGen.Document.Route
import ClientGen.Proto.Parser
import ClientGen.Source.Failure

/-! # From Protobuf to documents

Brings a Protobuf syntax tree into the common document form. Nested messages and
enumerations become declarations at the top, named by the path of messages around
them; type names are resolved from the innermost message outward.
-/

namespace ClientGen
namespace Proto

open Source (Reporter Failure Cursor Code)

abbrev CommentsOf := Nat → List Comment

def scalars : List (String × String) :=
  [("double", "double"), ("float", "double"), ("int32", "i32"), ("sint32", "i32"),
    ("sfixed32", "i32"), ("uint32", "i32"), ("fixed32", "i32"), ("int64", "i64"),
    ("sint64", "i64"), ("sfixed64", "i64"), ("uint64", "i64"), ("fixed64", "i64"),
    ("bool", "bool"), ("string", "string"), ("bytes", "binary")]

def flatName (scope : List String) (name : String) : String := "_".intercalate (scope ++ [name])

mutual

/-- The names declared by a message and everything in it, each behind the names of
the messages around it. -/
def MessageTree.declared (before : String) : MessageTree → List String
  | .mk _ name _ messages enums _ =>
    let own := before ++ name
    own :: (enums.map fun e => own ++ "_" ++ e.name) ++ declaredAll (own ++ "_") messages

def declaredAll (before : String) : List MessageTree → List String
  | [] => []
  | m :: ms => m.declared before ++ declaredAll before ms

end

def Tree.declared (t : Tree) : List String :=
  t.definitions.flatMap fun
    | .message m => m.declared ""
    | .enum e => [e.name]
    | .service _ => []

/-- The scopes around a place, innermost first. -/
def outward (scope : List String) : List (List String) :=
  (List.range (scope.length + 1)).reverse.map scope.take

/-- The type that a name means inside some messages. A name that is declared in
the file is looked up from the innermost message outward; a name behind a dot is
not. -/
def resolveType (declared scope : List String) (name : String) : FieldType :=
  match scalars.lookup name with
  | some base => .base base
  | none =>
    if Text.startsWith name "." then .identifier name
    else
      let flat := Text.replace name "." "_"
      let candidates := (outward scope).map fun s => flatName s flat
      .identifier ((candidates.find? declared.contains).getD name)

/-- The type of a field. A type that is only called `map` is a map whose key and
value have no name. -/
def TypeTree.fieldType (declared scope : List String) (repeated : Bool) : TypeTree → FieldType
  | .map k v => .map (resolveType declared scope k) (resolveType declared scope v)
  | .name n =>
    if n = "map" then .map (resolveType declared scope "") (resolveType declared scope "")
    else if repeated then .list (resolveType declared scope n)
    else resolveType declared scope n

def constText : Const → String
  | .scalar _ text => text
  | _ => ""

def annotations (os : List OptionTree) : List Annotation :=
  os.map fun o => { key := o.name, value := constText o.value, position := o.position }

/-- A field in the common form. The option `default` gives its default. -/
def FieldTree.lower (declared scope : List String) (comments : CommentsOf) (f : FieldTree) : Field :=
  { id := f.number, name := f.name,
    type := f.type.fieldType declared scope (f.label == .repeated),
    required := f.label == .required, optional := f.label == .optional || f.oneof.isSome,
    default := ((f.options.reverse.find? fun o => o.name == "default").map (·.value)).getD .absent,
    annotations := annotations f.options, comments := comments f.origin.decl,
    position := f.origin.position }

def EnumTree.lower (scope : List String) (comments : CommentsOf) (e : EnumTree) : Enum :=
  { name := flatName scope e.name,
    members := e.members.map fun m =>
      { name := m.name, value := m.number, comments := comments m.origin.decl,
        position := m.origin.position },
    annotations := annotations e.options, comments := comments e.origin.decl,
    position := e.origin.position }

mutual

/-- A message, then the enumerations in it, then the messages in it. -/
def MessageTree.lower (declared scope : List String) (comments : CommentsOf) :
    MessageTree → List Statement
  | .mk origin name fields messages enums options =>
    let inner := scope ++ [name]
    .struct { name := flatName scope name, variant := .message,
              fields := fields.map (FieldTree.lower declared inner comments),
              annotations := annotations options, comments := comments origin.decl,
              position := origin.position } ::
      (enums.map fun e => .enum (e.lower inner comments)) ++
      lowerAll declared inner comments messages

def lowerAll (declared scope : List String) (comments : CommentsOf) :
    List MessageTree → List Statement
  | [] => []
  | m :: ms => m.lower declared scope comments ++ lowerAll declared scope comments ms

end

/-- A remote procedure in the common form. Its one parameter is the request. -/
def RpcTree.lower (declared : List String) (comments : CommentsOf) (inherited : List Annotation)
    (r : RpcTree) : Function :=
  { name := r.name,
    params := [{ id := 1, name := "req", type := resolveType declared [] r.request.name,
                 position := r.origin.position }],
    returns := resolveType declared [] r.response.name,
    route := Route.config? (annotations r.options) inherited,
    annotations := annotations r.options, comments := comments r.origin.decl,
    position := r.origin.position }

def ServiceTree.lower (declared : List String) (comments : CommentsOf) (s : ServiceTree) : Service :=
  let own := annotations s.options
  { name := s.name, functions := s.rpcs.map (RpcTree.lower declared comments own),
    route := Route.config? own [], annotations := own, comments := comments s.origin.decl,
    position := s.origin.position }

def Definition.lower (declared : List String) (comments : CommentsOf) : Definition → List Statement
  | .message m => m.lower declared [] comments
  | .enum e => [.enum (e.lower [] comments)]
  | .service s => [.service (s.lower declared comments)]

mutual

def MessageTree.addNested (path : List String) (n : Namespace) : MessageTree → Namespace
  | .mk _ name _ messages enums _ =>
    if messages.isEmpty && enums.isEmpty then n
    else
      let inner := path ++ [name]
      let n := enums.foldl (fun n e => n.addType inner e.name) (n.touch inner)
      addMessages inner n messages

def addMessages (path : List String) (n : Namespace) : List MessageTree → Namespace
  | [] => n
  | .mk o name fs messages enums os :: ms =>
    addMessages path
      ((MessageTree.mk o name fs messages enums os).addNested path (n.addType path name)) ms

end

def Definition.addTo (path : List String) (n : Namespace) : Definition → Namespace
  | .message m => addMessages path n [m]
  | .enum e => n.addType path e.name
  | .service _ => n

/-- The namespace tree of a file: its package and the types declared in it. -/
def Tree.root (t : Tree) : Namespace :=
  let path := if t.package = "" then [] else Text.split t.package "."
  t.definitions.foldl (Definition.addTo path) (Namespace.empty.touch path)

def Tree.document (path : String) (comments : CommentsOf) (t : Tree) : Document :=
  { path, dialect := .protobuf, namespaceName := t.package, includes := t.imports.map (·.path),
    root := some t.root, statements := t.definitions.flatMap (Definition.lower t.declared comments) }

def firstError (path : String) (c : Cursor) : Source.Diagnostic :=
  c.error?.getD { location := { uri := path }, code := Code.unknownFatal,
                  message := "failed to parse protobuf" }

/-- Ends a parse: the tree with the comments, or the first fatal diagnostic. -/
def finish (path : String) (revise : Bool) (tree : Option Tree) (c : Cursor) :
    Except Failure Document :=
  match tree, c.failed with
  | some t, false =>
    let all := Source.attachments c revise
    .ok (t.document path (Source.attached all))
  | _, _ => .error (.diagnostic (firstError path c))

/-- Parses a Protobuf source. With `revise` a comment that starts on the line
where a declaration ends belongs to that declaration. -/
def parse (path source : String) (revise : Bool) (r : Reporter) :
    Except Failure Document × Reporter :=
  let (tree, c) := file.run (Cursor.ofSource {} path source r)
  (finish path revise tree c, c.reporter)

def readTree (path source : String) : Except Source.Diagnostic Tree :=
  match file.run (Cursor.ofSource {} path source {}) with
  | (some tree, c) => if c.failed then .error (firstError path c) else .ok tree
  | (none, c) => .error (firstError path c)

end Proto
end ClientGen
