import ClientGen.Proofs.Document.Literal
import ClientGen.Thrift.Parser

/-! # Spelling Thrift trees

Every Thrift tree as the tokens of a file that says it. The grammar leaves the
mark that closes an item open, so a spelling is relative to a layout, which
chooses one for each place. Positions are no part of a spelling: trees are
compared after they are erased.

For every tree, `spelled` gives the tokens in a layout, `spellable` says whether it
can be written, and `erase` leaves out the positions.
-/

namespace ClientGen
namespace Thrift

open Source

/-! ## Layouts -/

/-- A choice of separators. Places are told apart by their paths: the separator
of an item itself is at the empty path, and those inside its parts are below the
numbers of the parts. -/
def Layout := List Nat → Separator

namespace Layout

def part (l : Layout) (i : Nat) : Layout := fun path => l (i :: path)

def separator (l : Layout) : List Face := (l []).faces

def along {X : Type} (l : Layout) : List X → List (Layout × X)
  | [] => []
  | x :: xs => (l.part 0, x) :: (l.part 1).along xs

/-- The items of a list, one after another. -/
def spread {X : Type} (l : Layout) (spell : Layout → X → List Face) (xs : List X) : List Face :=
  (l.along xs).flatMap fun u => spell u.1 u.2

theorem mem_of_mem_along {X : Type} {l : Layout} {xs : List X} {u : Layout × X}
    (h : u ∈ l.along xs) : u.2 ∈ xs := by
  induction xs generalizing l with
  | nil => simp [along] at h
  | cons x xs ih =>
      simp only [along, List.mem_cons] at h
      rcases h with rfl | h
      · simp
      · exact List.mem_cons_of_mem x (ih h)

theorem length_le_spread {X : Type} {l : Layout} (spell : Layout → X → List Face) {xs : List X}
    {u : Layout × X} (h : u ∈ l.along xs) :
    (spell u.1 u.2).length ≤ (l.spread spell xs).length :=
  length_le_flatMap_of_mem (fun u : Layout × X => spell u.1 u.2) h

theorem map_along {X Y : Type} (l : Layout) (xs : List X) (g : X → Y) :
    (l.along xs).map (fun u => g u.2) = xs.map g := by
  induction xs generalizing l with
  | nil => rfl
  | cons x xs ih => simp [along, ih]

end Layout

/-! ## Types and constants -/

/-- One annotation. An empty value is left out. -/
def annotationFaces (l : Layout) (a : Annotation) : List Face :=
  Face.dotted a.key ++
    ((if a.value = "" then [] else [Face.mark .equal, Face.text a.value]) ++ l.separator)

/-- Annotations in parentheses, or nothing when there are none. -/
def spellAnnotations (l : Layout) (as : List Annotation) : List Face :=
  if as.isEmpty then []
  else Face.mark .parenOpen :: (l.spread annotationFaces as ++ [Face.mark .parenClose])

def TypeTree.spelled : TypeTree → Layout → List Face
  | name _ n as, l => Face.dotted n ++ spellAnnotations (l.part 0) as
  | list _ e as, l =>
    Face.word "list" :: Face.mark .angleOpen ::
      (e.spelled (l.part 1) ++ Face.mark .angleClose :: spellAnnotations (l.part 0) as)
  | set _ e as, l =>
    Face.word "set" :: Face.mark .angleOpen ::
      (e.spelled (l.part 1) ++ Face.mark .angleClose :: spellAnnotations (l.part 0) as)
  | map _ k v as, l =>
    Face.word "map" :: Face.mark .angleOpen ::
      (k.spelled (l.part 1) ++ Face.mark .comma ::
        (v.spelled (l.part 2) ++ Face.mark .angleClose :: spellAnnotations (l.part 0) as))

/-- Words that mean something else where a type may start. -/
def typeWords : List String :=
  ["list", "set", "map", "required", "optional", "oneway", "void", "throws"]

/-- Whether no name in a type starts with one of these words. -/
def TypeTree.plain : TypeTree → Bool
  | name _ n _ => !typeWords.contains (firstComponent n)
  | list _ e _ => e.plain
  | set _ e _ => e.plain
  | map _ k v _ => k.plain && v.plain

mutual

/-- A constant. Each item of a list and each pair of a map may be closed by a
separator. -/
def spellConst : Const → Layout → List Face
  | .absent, _ => []
  | .scalar .int text, _ => Face.number false text
  | .scalar .double text, _ => Face.number true text
  | .scalar .string text, _ => [Face.text text]
  | .scalar .bool text, _ => Face.dotted text
  | .scalar .identifier text, _ => Face.dotted text
  | .scalar (.other _) _, _ => []
  | .list items, l => Face.mark .squareOpen :: (spellItems items l ++ [Face.mark .squareClose])
  | .map pairs, l => Face.mark .curlyOpen :: (spellPairs pairs l ++ [Face.mark .curlyClose])

def spellItems : List Const → Layout → List Face
  | [], _ => []
  | x :: xs, l =>
    spellConst x ((l.part 0).part 0) ++ (l.part 0).separator ++ spellItems xs (l.part 1)

def spellPairs : List (Const × Const) → Layout → List Face
  | [], _ => []
  | p :: ps, l => spellPair p (l.part 0) ++ spellPairs ps (l.part 1)

def spellPair : Const × Const → Layout → List Face
  | (k, v), l =>
    spellConst k (l.part 0) ++ (Face.mark .colon :: (spellConst v (l.part 1) ++ l.separator))

end

mutual

/-- Whether a constant can be written: the two truth values are words of their
own, and no other name is taken for one of them. -/
def spellable : Const → Bool
  | .absent => false
  | .scalar .bool text => text == "true" || text == "false"
  | .scalar .identifier text => text != "true" && text != "false"
  | .scalar (.other _) _ => false
  | .scalar _ _ => true
  | .list items => spellableItems items
  | .map pairs => spellablePairs pairs

def spellableItems : List Const → Bool
  | [] => true
  | x :: xs => spellable x && spellableItems xs

def spellablePairs : List (Const × Const) → Bool
  | [] => true
  | p :: ps => spellablePair p && spellablePairs ps

def spellablePair : Const × Const → Bool
  | (k, v) => spellable k && spellable v

end

/-! ## Declarations -/

def spellId : Option Int → List Face
  | none => []
  | some n => Face.integer n ++ [Face.mark .colon]

def Requirement.spelled : Requirement → List Face
  | none => []
  | required => [Face.word "required"]
  | optional => [Face.word "optional"]

def spellDefault (l : Layout) : Const → List Face
  | .absent => []
  | v => Face.mark .equal :: spellConst v l

def FieldTree.spelled (l : Layout) (f : FieldTree) : List Face :=
  spellId f.id ++ (f.requirement.spelled ++ (f.type.spelled (l.part 0) ++ (Face.word f.name ::
    (spellDefault (l.part 1) f.default ++ (spellAnnotations (l.part 2) f.annotations ++
      l.separator)))))

def ConstTree.spelled (l : Layout) (c : ConstTree) : List Face :=
  Face.word "const" :: (c.type.spelled (l.part 0) ++ (Face.word c.name :: Face.mark .equal ::
    (spellConst c.value (l.part 1) ++ l.separator)))

def TypedefTree.spelled (l : Layout) (t : TypedefTree) : List Face :=
  Face.word "typedef" :: (t.type.spelled (l.part 0) ++ (Face.word t.name ::
    (spellAnnotations (l.part 1) t.annotations ++ l.separator)))

def spellMemberValue : Option Int → List Face
  | none => []
  | some n => Face.mark .equal :: Face.integer n

def MemberTree.spelled (l : Layout) (m : MemberTree) : List Face :=
  Face.word m.name :: (spellMemberValue m.value ++
    (spellAnnotations (l.part 0) m.annotations ++ l.separator))

def EnumTree.spelled (l : Layout) (e : EnumTree) : List Face :=
  Face.word "enum" :: Face.word e.name :: Face.mark .curlyOpen ::
    ((l.part 0).spread MemberTree.spelled e.members ++ [Face.mark .curlyClose] ++
      (spellAnnotations (l.part 1) e.annotations ++ l.separator))

def StructTree.spelled (l : Layout) (s : StructTree) : List Face :=
  Face.word s.variant.name :: Face.word s.name :: Face.mark .curlyOpen ::
    ((l.part 0).spread FieldTree.spelled s.fields ++ [Face.mark .curlyClose] ++
      (spellAnnotations (l.part 1) s.annotations ++ l.separator))

def spellFieldList (l : Layout) (fs : List FieldTree) : List Face :=
  Face.mark .parenOpen :: (l.spread FieldTree.spelled fs ++ [Face.mark .parenClose])

def spellResult (l : Layout) : Option TypeTree → List Face
  | none => [Face.word "void"]
  | some t => t.spelled l

def spellThrows (l : Layout) (fs : List FieldTree) : List Face :=
  if fs.isEmpty then [] else Face.word "throws" :: spellFieldList l fs

def FunctionTree.spelled (l : Layout) (f : FunctionTree) : List Face :=
  (if f.oneway then [Face.word "oneway"] else []) ++
    (spellResult (l.part 0) f.returns ++ (Face.word f.name ::
      (spellFieldList (l.part 1) f.params ++ (spellThrows (l.part 2) f.throws ++
        (spellAnnotations (l.part 3) f.annotations ++ l.separator)))))

def spellParent (parent : String) : List Face :=
  if parent = "" then [] else Face.word "extends" :: Face.dotted parent

def ServiceTree.spelled (l : Layout) (s : ServiceTree) : List Face :=
  Face.word "service" :: Face.word s.name :: (spellParent s.parent ++ (Face.mark .curlyOpen ::
    ((l.part 0).spread FunctionTree.spelled s.functions ++ [Face.mark .curlyClose] ++
      (spellAnnotations (l.part 1) s.annotations ++ l.separator))))

/-- A header. The scope of all targets is a star. -/
def Header.spelled (l : Layout) : Header → List Face
  | .included _ path cpp =>
    Face.word (if cpp then "cpp_include" else "include") :: Face.text path :: l.separator
  | .namespaced _ scope name =>
    Face.word "namespace" :: (if scope = "*" then Face.mark .star else Face.word scope) ::
      (Face.dotted name ++ l.separator)

def Definition.spelled (l : Layout) : Definition → List Face
  | .const c => c.spelled l
  | .typedef t => t.spelled l
  | .enum e => e.spelled l
  | .struct s => s.spelled l
  | .service s => s.spelled l

def spellItem (l : Layout) : Header ⊕ Definition → List Face
  | .inl h => h.spelled l
  | .inr d => d.spelled l

/-- A whole file: its headers and declarations in the order in which they stand. -/
def spellFile (l : Layout) (items : List (Header ⊕ Definition)) : List Face :=
  l.spread spellItem items

/-! ## What can be spelled -/

/-- Whether a field can be written: its number is in range, its type starts with
no word of the grammar and its default is a constant of the grammar. -/
def FieldTree.spellable (f : FieldTree) : Bool :=
  decide (∀ n ∈ f.id, InRange n) && f.type.plain &&
    (match f.default with
      | .absent => true
      | v => Thrift.spellable v)

def FunctionTree.spellable (f : FunctionTree) : Bool :=
  f.returns.all TypeTree.plain && f.params.all FieldTree.spellable &&
    f.throws.all FieldTree.spellable

def Definition.spellable : Definition → Bool
  | .const c => c.type.plain && Thrift.spellable c.value
  | .typedef t => t.type.plain
  | .enum e => e.members.all fun m => decide (∀ n ∈ m.value, InRange n)
  | .struct s => s.variant != .message && s.fields.all FieldTree.spellable
  | .service s => s.functions.all FunctionTree.spellable

def Tree.spellable (t : Tree) : Bool := t.definitions.all Definition.spellable

/-- Headers and declarations in an order in which they make up a tree. -/
def Tree.Arranged (t : Tree) (items : List (Header ⊕ Definition)) : Prop :=
  items.filterMap Sum.getLeft? = t.headers ∧ items.filterMap Sum.getRight? = t.definitions

/-! ## Trees without positions -/

def annotationErased (a : Annotation) : Annotation := { a with position := {} }

def TypeTree.erase : TypeTree → TypeTree
  | name _ n as => .name {} n (as.map annotationErased)
  | list _ e as => .list {} e.erase (as.map annotationErased)
  | set _ e as => .set {} e.erase (as.map annotationErased)
  | map _ k v as => .map {} k.erase v.erase (as.map annotationErased)

def FieldTree.erase (f : FieldTree) : FieldTree :=
  { f with origin := {}, type := f.type.erase, annotations := f.annotations.map annotationErased }

def MemberTree.erase (m : MemberTree) : MemberTree :=
  { m with origin := {}, annotations := m.annotations.map annotationErased }

def FunctionTree.erase (f : FunctionTree) : FunctionTree :=
  { f with origin := {}, returns := f.returns.map TypeTree.erase,
           params := f.params.map FieldTree.erase, throws := f.throws.map FieldTree.erase,
           annotations := f.annotations.map annotationErased }

def Definition.erase : Definition → Definition
  | .const c => .const { c with origin := {}, type := c.type.erase }
  | .typedef t => .typedef { t with origin := {}, type := t.type.erase,
                                    annotations := t.annotations.map annotationErased }
  | .enum e => .enum { e with origin := {}, members := e.members.map MemberTree.erase,
                              annotations := e.annotations.map annotationErased }
  | .struct s => .struct { s with origin := {}, fields := s.fields.map FieldTree.erase,
                                  annotations := s.annotations.map annotationErased }
  | .service s => .service { s with origin := {}, functions := s.functions.map FunctionTree.erase,
                                    annotations := s.annotations.map annotationErased }

def Header.erase : Header → Header
  | .included _ path cpp => .included {} path cpp
  | .namespaced _ scope name => .namespaced {} scope name

def Tree.erase (t : Tree) : Tree :=
  { headers := t.headers.map Header.erase, definitions := t.definitions.map Definition.erase }

end Thrift
end ClientGen
