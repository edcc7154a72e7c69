import ClientGen.Proofs.Document.Symbols
import ClientGen.Proofs.Load.Cache

/-! # Names that mean no type

Checking the names of documents and rendering them are two recursions over types, with two
tests of what a name means. They agree: each use of a name, at any depth of lists, sets and
maps, is reported exactly once if the resolver has nothing for the name, and not at all
otherwise (`check_mentions`). The name of an enumeration as the result of a remote procedure
is the one thing that is reported beyond this.
-/

namespace ClientGen

/-- The names in a type from left to right, at any depth of lists, sets and maps. -/
def FieldType.mentions : FieldType → List String
  | .identifier name => [name]
  | .list e => e.mentions
  | .set e => e.mentions
  | .map k v => k.mentions ++ v.mentions
  | .void => []
  | .base _ => []
  | .other _ _ => []

/-- A use of a name, at the place of the declaration that uses it. -/
structure Mention where
  position : Source.Position
  name : String
  /-- Whether the name is all of the result of a remote procedure. -/
  message : Bool := false
deriving DecidableEq, Repr, Inhabited

/-- The uses of names in the type of a declaration. -/
def Node.mentions (dialect : Dialect) : Node → List Mention
  | .field f => f.type.mentions.map fun name => { position := f.position, name }
  | .typedef t => t.type.mentions.map fun name => { position := t.position, name }
  | .const c => c.type.mentions.map fun name => { position := c.position, name }
  | .function f =>
    f.returns.mentions.map fun name =>
      { position := f.position, name,
        message := dialect = .protobuf ∧ f.returns = .identifier name }
  | .service _ => []
  | .struct _ => []
  | .enum _ => []
  | .member _ => []

/-- The uses of names in a document, in the order of its declarations. -/
def Document.mentions (d : Document) : List Mention := d.nodes.flatMap (Node.mentions d.dialect)

namespace Symbols

/-- Whether a name means an enumeration itself, not another name of one. -/
def namesEnum (s : Symbols) (d : Document) (name : String) : Bool :=
  match s.resolve? d name with
  | some (.enum _, _) => true
  | _ => false

end Symbols

namespace Load

open Source (Reporter Code Diagnostic)

variable (s : Symbols) (d : Document)

/-- Whether a use of a name is to be reported: the resolver has nothing for the name, or
it is an enumeration as the result of a remote procedure. -/
def unmeant (m : Mention) : Bool :=
  (s.resolver d m.name).isNone || (m.message && s.namesEnum d m.name)

/-- What is said about a name that means no type. -/
def problemText (name : String) : String :=
  if (s.resolve? d name).isNone then "unresolved type " ++ name
  else name ++ " does not name a type"

/-- The report about a use of a name. -/
def problemOf (m : Mention) : Diagnostic :=
  { location := { uri := d.path, position := m.position }, code := Code.unresolvedType,
    message := problemText s d m.name }

theorem nameProblem?_value (name : String) :
    nameProblem? s d .value name =
      if (s.resolver d name).isNone then some (problemText s d name) else none := by
  unfold nameProblem? problemText Symbols.resolver Symbols.resolvedAux
  cases s.resolve? d name with
  | none => rfl
  | some found =>
      obtain ⟨st, decl⟩ := found
      cases st <;> rfl

theorem nameProblem?_message (name : String) :
    nameProblem? s d .message name =
      if (s.resolver d name).isNone || s.namesEnum d name then some (problemText s d name)
      else none := by
  unfold nameProblem? problemText Symbols.resolver Symbols.resolvedAux Symbols.namesEnum
  cases s.resolve? d name with
  | none => rfl
  | some found =>
      obtain ⟨st, decl⟩ := found
      cases st <;> rfl

/-- The problems of a type whose parts may be any values are those of its names. -/
theorem typeProblems_value (t : FieldType) :
    typeProblems s d .value t =
      (t.mentions.filter fun name => (s.resolver d name).isNone).map (problemText s d) := by
  induction t with
  | identifier name =>
      rw [typeProblems, nameProblem?_value, FieldType.mentions, List.filter_singleton]
      cases (s.resolver d name).isNone <;> rfl
  | list e ih => exact ih
  | set e ih => exact ih
  | map k v ihk ihv =>
      rw [typeProblems, ihk, ihv, FieldType.mentions, List.filter_append, List.map_append]
  | void => rfl
  | base _ => rfl
  | other _ _ => rfl

/-- Only a name that is all of a type is looked at for the sort of the declaration; the parts
of containers may be any values. -/
theorem typeProblems_message (t : FieldType) :
    typeProblems s d .message t =
      (t.mentions.filter fun name =>
        (s.resolver d name).isNone || (decide (t = .identifier name) && s.namesEnum d name)).map
        (problemText s d) := by
  have hparts (parts : List String) (hother : ∀ name ∈ parts, t ≠ .identifier name) :
      (parts.filter fun name => (s.resolver d name).isNone) = parts.filter fun name =>
        (s.resolver d name).isNone || (decide (t = .identifier name) && s.namesEnum d name) :=
    List.filter_congr fun name hname => by simp [hother name hname]
  cases t with
  | identifier name =>
      rw [typeProblems, nameProblem?_message, FieldType.mentions, List.filter_singleton,
        decide_eq_true rfl, Bool.true_and]
      cases (s.resolver d name).isNone || s.namesEnum d name <;> rfl
  | list e => exact (typeProblems_value s d e).trans (congrArg _ (hparts _ (by simp)))
  | set e => exact (typeProblems_value s d e).trans (congrArg _ (hparts _ (by simp)))
  | map k v =>
      have hvalue : typeProblems s d .message (.map k v) = typeProblems s d .value (.map k v) := rfl
      rw [hvalue, typeProblems_value]
      exact congrArg _ (hparts _ (by simp))
  | void => rfl
  | base _ => rfl
  | other _ _ => rfl

def problemAt (position : Source.Position) (message : String) : Diagnostic :=
  { location := { uri := d.path, position }, code := Code.unresolvedType, message }

/-- The names of a type as mentions of a declaration, filtered and reported. -/
theorem map_problemOf (position : Source.Position) (whole : String → Bool) (names : List String) :
    ((names.map fun name => ({ position, name, message := whole name } : Mention)).filter
      (unmeant s d)).map (problemOf s d) =
    ((names.filter fun name =>
      (s.resolver d name).isNone || (whole name && s.namesEnum d name)).map
      (problemText s d)).map (problemAt d position) := by
  rw [List.filter_map, List.map_map, List.map_map]
  rfl

/-- The problems of one declaration. -/
theorem nodeProblems (n : Node) :
    (match Node.checked? d.dialect n with
      | none => []
      | some (t, expected, position) =>
        (typeProblems s d expected t).map (problemAt d position)) =
      ((n.mentions d.dialect).filter (unmeant s d)).map (problemOf s d) := by
  have hvalues (t : FieldType) (position : Source.Position) :
      (typeProblems s d .value t).map (problemAt d position) =
        ((t.mentions.map fun name => ({ position, name } : Mention)).filter (unmeant s d)).map
          (problemOf s d) := by
    rw [typeProblems_value, map_problemOf s d position fun _ => false]
    simp only [Bool.false_and, Bool.or_false]
  cases n with
  | field f => exact hvalues f.type f.position
  | typedef t => exact hvalues t.type t.position
  | const c => exact hvalues c.type c.position
  | function f =>
      rw [Node.mentions, map_problemOf]
      by_cases hdialect : d.dialect = .protobuf
      · simp only [Node.checked?, hdialect, true_and, if_true]
        rw [typeProblems_message]
      · simp only [Node.checked?, hdialect, false_and, decide_false, if_false, Bool.false_and,
          Bool.or_false]
        rw [typeProblems_value]
  | service _ => rfl
  | struct _ => rfl
  | enum _ => rfl
  | member _ => rfl

theorem documentProblems_eq :
    documentProblems s d = (d.mentions.filter (unmeant s d)).map (problemOf s d) := by
  unfold documentProblems Document.mentions
  rw [List.filter_flatMap, List.map_flatMap]
  exact List.flatMap_congr fun n _ => nodeProblems s d n

/-- Only the result of a remote procedure is looked at as a message. -/
theorem function_of_message {d : Document} {m : Mention} (hm : m ∈ d.mentions)
    (hmessage : m.message = true) :
    d.dialect = .protobuf ∧ ∃ f, Node.function f ∈ d.nodes ∧ f.returns = .identifier m.name := by
  obtain ⟨n, hn, hm⟩ := List.mem_flatMap.mp hm
  cases n with
  | function f =>
      obtain ⟨name, -, rfl⟩ := List.mem_map.mp hm
      obtain ⟨hdialect, hreturns⟩ := of_decide_eq_true hmessage
      exact ⟨hdialect, f, hn, hreturns⟩
  | field f =>
      obtain ⟨name, -, rfl⟩ := List.mem_map.mp hm
      cases hmessage
  | typedef t =>
      obtain ⟨name, -, rfl⟩ := List.mem_map.mp hm
      cases hmessage
  | const c =>
      obtain ⟨name, -, rfl⟩ := List.mem_map.mp hm
      cases hmessage
  | service _ => cases hm
  | struct _ => cases hm
  | enum _ => cases hm
  | member _ => cases hm

theorem nonfatal_foldl (ds : List Diagnostic) (r : Reporter) :
    (ds.foldl Reporter.report r).nonfatal = r.nonfatal := by
  induction ds generalizing r with
  | nil => rfl
  | cons d ds ih => exact ih (r.report d)

/-- Checking reports the uses of names that the resolver of the same documents has nothing
for: each use once, in the order of the declarations, and no other use. Beyond them it
reports a remote procedure whose result is named as an enumeration. The documents that
loading gives are the ones that were checked. -/
theorem check_mentions (docs : List Document) (r : Reporter) :
    let s := Symbols.ofDocs docs
    (check docs r).reported =
        r.reported ++
          docs.flatMap (fun d => (d.mentions.filter (unmeant s d)).map (problemOf s d)) ∧
    (check docs r).nonfatal = r.nonfatal ∧
    (∀ d m, m.message = false → (unmeant s d m = true ↔ s.resolver d m.name = none)) ∧
    (∀ d m, m ∈ Document.mentions d → m.message = true →
      d.dialect = .protobuf ∧ ∃ f, Node.function f ∈ d.nodes ∧ f.returns = .identifier m.name) ∧
    ∀ (l : Loader) (size : Nat) (entries : List String),
      (l.loadAll size entries r).docs =
        (l.visitEntries entries (Walk.start size r)).1.map fun _ =>
          (l.visitEntries entries (Walk.start size r)).2.docs := by
  intro s
  refine ⟨?_, nonfatal_foldl _ r, fun d m hm => ?_, fun d m => function_of_message,
    fun l size entries => docs_loadAll l entries r size⟩
  · unfold check
    rw [reported_foldl]
    exact congrArg _ (List.flatMap_congr fun d _ => documentProblems_eq s d)
  · simp [unmeant, hm]

/-! A procedure whose result is an enumeration, and a field with a name for nothing inside a
map to lists. -/

def mentioning : Document :=
  { path := "/a.proto", dialect := .protobuf,
    statements := [
      .enum { name := "Kind" },
      .struct { name := "R", fields := [
        { name := "f", type := .map (.identifier "Kind") (.list (.identifier "Nowhere")),
          position := ⟨2, 5, 20⟩ }] },
      .service { name := "S", functions := [
        { name := "Get", returns := .identifier "Kind", position := ⟨3, 2, 40⟩ }] }] }

def enumResult : Mention := { position := ⟨3, 2, 40⟩, name := "Kind", message := true }

def nowhereItem : Mention := { position := ⟨2, 5, 20⟩, name := "Nowhere" }

theorem check_mentions_nowhere :
    let s := Symbols.ofDocs [mentioning]
    (check [mentioning] {}).reported =
        [problemOf s mentioning nowhereItem, problemOf s mentioning enumResult] ∧
      (unmeant s mentioning nowhereItem = true ↔ s.resolver mentioning "Nowhere" = none) ∧
      enumResult ∈ mentioning.mentions ∧
      ∃ f, Node.function f ∈ mentioning.nodes ∧ f.returns = .identifier "Kind" := by
  intro s
  obtain ⟨hreported, -, hvalue, hmessage, -⟩ := check_mentions [mentioning] {}
  have hresult : enumResult ∈ mentioning.mentions := by decide
  exact ⟨hreported.trans (by decide +kernel), hvalue mentioning nowhereItem rfl, hresult,
    (hmessage mentioning enumResult hresult rfl).2⟩

end Load
end ClientGen
