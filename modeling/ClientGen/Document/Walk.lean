import ClientGen.Document.Basic

/-! # Visiting a document

Every declaration of a document with the ones nested in it, depth first, and the
same change made to all their comments.
-/

namespace ClientGen

inductive Node where
  | service (s : Service)
  | function (f : Function)
  | struct (s : Struct)
  | field (f : Field)
  | enum (e : Enum)
  | member (m : EnumMember)
  | typedef (t : Typedef)
  | const (c : Constant)
deriving Repr, Inhabited

namespace Node

def kind : Node → String
  | service _ => "ServiceDefinition"
  | function _ => "FunctionDefinition"
  | struct _ => "StructDefinition"
  | field _ => "FieldDefinition"
  | enum _ => "EnumDefinition"
  | member _ => "EnumMember"
  | typedef _ => "TypedefDefinition"
  | const _ => "ConstDefinition"

def name : Node → String
  | service s => s.name
  | function f => f.name
  | struct s => s.name
  | field f => f.name
  | enum e => e.name
  | member m => m.name
  | typedef t => t.name
  | const c => c.name

/-- The type that a declaration gives: of a field, a name or a constant, or the
result of a function. -/
def type? : Node → Option FieldType
  | function f => some f.returns
  | field f => some f.type
  | typedef t => some t.type
  | const c => some c.type
  | _ => none

def comments : Node → List Comment
  | service s => s.comments
  | function f => f.comments
  | struct s => s.comments
  | field f => f.comments
  | enum e => e.comments
  | member m => m.comments
  | typedef t => t.comments
  | const c => c.comments

end Node

def Statement.nodes : Statement → List Node
  | .service s =>
    .service s :: s.functions.flatMap fun f => .function f :: f.params.map .field
  | .struct s => .struct s :: s.fields.map .field
  | .enum e => .enum e :: e.members.map .member
  | .typedef t => [.typedef t]
  | .const c => [.const c]

def Document.nodes (d : Document) : List Node := d.statements.flatMap Statement.nodes

def Statement.mapComments (f : List Comment → List Comment) : Statement → Statement
  | .service s =>
    .service { s with
      comments := f s.comments,
      functions := s.functions.map fun fn => { fn with
        comments := f fn.comments,
        params := fn.params.map fun p => { p with comments := f p.comments } } }
  | .struct s =>
    .struct { s with
      comments := f s.comments,
      fields := s.fields.map fun p => { p with comments := f p.comments } }
  | .enum e =>
    .enum { e with
      comments := f e.comments,
      members := e.members.map fun m => { m with comments := f m.comments } }
  | .typedef t => .typedef { t with comments := f t.comments }
  | .const c => .const { c with comments := f c.comments }

def Document.mapComments (f : List Comment → List Comment) (d : Document) : Document :=
  { d with statements := d.statements.map (Statement.mapComments f) }

end ClientGen
