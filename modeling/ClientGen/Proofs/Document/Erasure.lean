import ClientGen.Document.Route

/-! # Documents without places and comments

A document keeps two things of the layout of its source: the position of every
declaration and annotation, and the comments of every declaration. Erasing both
leaves what the source declares. Routes are read off the keys and values of
annotations, so that they survive the erasure.
-/

namespace ClientGen

def Annotation.erase (a : Annotation) : Annotation := { a with position := {} }

def Field.erase (f : Field) : Field :=
  { f with annotations := f.annotations.map Annotation.erase, comments := [], position := {} }

def Function.erase (f : Function) : Function :=
  { f with params := f.params.map Field.erase, annotations := f.annotations.map Annotation.erase,
           comments := [], position := {} }

def Service.erase (s : Service) : Service :=
  { s with functions := s.functions.map Function.erase,
           annotations := s.annotations.map Annotation.erase, comments := [], position := {} }

def Struct.erase (s : Struct) : Struct :=
  { s with fields := s.fields.map Field.erase, annotations := s.annotations.map Annotation.erase,
           comments := [], position := {} }

def EnumMember.erase (m : EnumMember) : EnumMember := { m with comments := [], position := {} }

def Enum.erase (e : Enum) : Enum :=
  { e with members := e.members.map EnumMember.erase,
           annotations := e.annotations.map Annotation.erase, comments := [], position := {} }

def Typedef.erase (t : Typedef) : Typedef := { t with comments := [], position := {} }

def Constant.erase (c : Constant) : Constant := { c with comments := [], position := {} }

def Statement.erase : Statement → Statement
  | service s => service s.erase
  | struct s => struct s.erase
  | enum e => enum e.erase
  | typedef t => typedef t.erase
  | const c => const c.erase

/-- A document without positions and comments. -/
def Document.erase (d : Document) : Document :=
  { d with statements := d.statements.map Statement.erase }

/-! ## Routes -/

namespace Route

theorem add_erase (t : Target) (a : Annotation) : t.add a.erase = t.add a := rfl

theorem addSetting_erase (r : RouteConfig) (a : Annotation) :
    addSetting r a.erase = addSetting r a := rfl

/-- A mapping to HTTP does not depend on where the annotations stand. -/
theorem config?_erase (own inherited : List Annotation) :
    config? (own.map Annotation.erase) (inherited.map Annotation.erase) =
      config? own inherited := by
  simp only [config?, ← List.map_append, List.foldl_map, add_erase, addSetting_erase]

end Route
end ClientGen
