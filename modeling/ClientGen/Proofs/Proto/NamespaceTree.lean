import Mathlib.Data.List.Perm.Basic
import ClientGen.Proofs.Proto.Flattening

/-! # The namespace tree of a file

The tree has a node for each part of the package, and below the last of them one for each
message with declarations in it; every node lists the declarations directly in it. Nodes
are found by name or created, so that two messages of one name share a node. A change at a
path adds what it adds to the node there, behind the path, and loses nothing
(`Adds.changeAt`): below the package the tree lists the full names of the file, each as
often as the file declares it.
-/

namespace ClientGen

namespace Namespace

open scoped List

/-! ## Nodes and their types -/

@[simp] theorem name_node (s : String) (children : List Namespace) (types : List String) :
    (node s children types).name = s := rfl

def at? : List String → Namespace → Option Namespace
  | [], n => some n
  | s :: path, node _ children _ => (children.find? fun c => c.name == s).bind (at? path)

mutual

/-- The types at a node and below it, each behind the names of the nodes down to it. -/
def typePaths (path : List String) : Namespace → List (List String)
  | node _ children types => (types.map fun x => path ++ [x]) ++ typePathsAll path children

def typePathsAll (path : List String) : List Namespace → List (List String)
  | [] => []
  | c :: cs => c.typePaths (path ++ [c.name]) ++ typePathsAll path cs

end

/-! ## Changes at a path -/

section Changes

variable {f : Namespace → Namespace} (hname : ∀ n, (f n).name = n.name)

include hname in
theorem name_changeAt (path : List String) (n : Namespace) :
    (n.changeAt f path).name = n.name := by
  cases path with
  | nil => exact hname n
  | cons s path =>
      obtain ⟨name, children, types⟩ := n
      rfl

include hname in
/-- Changing the child with a name leaves a child with this name. -/
theorem find?_changeChild (s : String) (cs : List Namespace) :
    (changeChild f s cs).find? (fun c => c.name == s) =
      some (f ((cs.find? fun c => c.name == s).getD (node s [] []))) := by
  induction cs with
  | nil => simp [changeChild, hname]
  | cons c cs ih =>
      by_cases hc : c.name = s
      · simp [changeChild, hc, hname]
      · simp [changeChild, hc, ih]

include hname in
/-- A change below a node is a change of that node. -/
theorem at?_changeAt_append {above : List String} (path : List String) {n m : Namespace}
    (h : n.at? above = some m) :
    (n.changeAt f (above ++ path)).at? above = some (m.changeAt f path) := by
  induction above generalizing n with
  | nil =>
      obtain rfl := Option.some.inj h
      rfl
  | cons s above ih =>
      obtain ⟨name, children, types⟩ := n
      obtain ⟨c, hc, hm⟩ := Option.bind_eq_some_iff.mp h
      rw [List.cons_append, changeAt, at?, find?_changeChild (name_changeAt hname _), hc]
      exact ih hm

end Changes

/-- What a change of a node adds to the types at the node and below it. -/
def Adds (f : Namespace → Namespace) (added : List (List String)) : Prop :=
  ∀ n, (f n).name = n.name ∧
    ∀ path, ((f n).typePaths path).Perm (n.typePaths path ++ added.map (path ++ ·))

theorem typePathsAll_changeChild {f : Namespace → Namespace} {added : List (List String)}
    (h : Adds f added) (s : String) (path : List String) (cs : List Namespace) :
    (typePathsAll path (changeChild f s cs)).Perm
      (typePathsAll path cs ++ added.map (path ++ [s] ++ ·)) := by
  induction cs with
  | nil =>
      have hnew := (h (node s [] [])).2 (path ++ [s])
      simpa [changeChild, typePathsAll, (h _).1, typePaths] using hnew
  | cons c cs ih =>
      by_cases hc : c.name = s
      · have hchild := (h c).2 (path ++ [s])
        have hhit : changeChild f s (c :: cs) = f c :: cs := by simp [changeChild, hc]
        rw [hhit, typePathsAll, typePathsAll, (h c).1, hc]
        calc (f c).typePaths (path ++ [s]) ++ typePathsAll path cs
          _ ~ (c.typePaths (path ++ [s]) ++ added.map (path ++ [s] ++ ·)) ++
                typePathsAll path cs := hchild.append_right _
          _ ~ c.typePaths (path ++ [s]) ++ typePathsAll path cs ++
                added.map (path ++ [s] ++ ·) := by
            rw [List.append_assoc, List.append_assoc]
            exact List.perm_append_comm.append_left _
      · have hskip : changeChild f s (c :: cs) = c :: changeChild f s cs := by
          simp [changeChild, hc]
        rw [hskip, typePathsAll, typePathsAll, List.append_assoc]
        exact ih.append_left _

/-- A change at a path adds to the tree what it adds to the node there, behind the path. -/
theorem Adds.changeAt {f : Namespace → Namespace} {added : List (List String)} (h : Adds f added)
    (path : List String) : Adds (Namespace.changeAt f path) (added.map (path ++ ·)) := by
  induction path with
  | nil => simpa [Adds, Namespace.changeAt] using h
  | cons s path ih =>
      rintro ⟨name, children, types⟩
      refine ⟨rfl, fun above => ?_⟩
      have hchildren := typePathsAll_changeChild ih s above children
      simp only [Namespace.changeAt, typePaths, List.append_assoc]
      refine List.Perm.append_left _ ?_
      simpa [Function.comp_def, List.append_assoc] using hchildren

theorem adds_type (x : String) :
    Adds (fun (node name children types) => node name children (types ++ [x])) [[x]] := by
  rintro ⟨name, children, types⟩
  refine ⟨rfl, fun path => ?_⟩
  simp only [typePaths, List.map_append, List.map_cons, List.map_nil, List.append_assoc]
  exact List.perm_append_comm.append_left _

theorem adds_nothing : Adds id [] := fun _ => ⟨rfl, fun _ => by simp⟩

/-- A tree with nothing but the nodes on a path has no types. -/
theorem at?_touch (path : List String) (s : String) :
    ∃ last, ((node s [] []).touch path).at? path = some (node last [] []) := by
  induction path generalizing s with
  | nil => exact ⟨s, rfl⟩
  | cons next path ih =>
      obtain ⟨last, hlast⟩ := ih next
      refine ⟨last, ?_⟩
      have hkeeps : ∀ n, (changeAt id path n).name = n.name := name_changeAt (fun _ => rfl) path
      rw [touch, changeAt, at?, find?_changeChild hkeeps]
      exact hlast

/-! ## What is added below a node -/

/-- A change of the whole tree keeps the node at a path and adds to what is listed there
and below. -/
def AddsBelow (above : List String) (f : Namespace → Namespace) (added : List (List String)) :
    Prop :=
  ∀ n m, n.at? above = some m →
    ∃ m', (f n).at? above = some m' ∧ (m'.typePaths []).Perm (m.typePaths [] ++ added)

namespace AddsBelow

variable {above : List String} {f g : Namespace → Namespace} {xs ys : List (List String)}

theorem comp (hf : AddsBelow above f xs) (hg : AddsBelow above g ys) :
    AddsBelow above (fun n => g (f n)) (xs ++ ys) := by
  intro n m hn
  obtain ⟨m₁, hm₁, hperm₁⟩ := hf n m hn
  obtain ⟨m₂, hm₂, hperm₂⟩ := hg (f n) m₁ hm₁
  refine ⟨m₂, hm₂, ?_⟩
  calc m₂.typePaths []
    _ ~ m₁.typePaths [] ++ ys := hperm₂
    _ ~ m.typePaths [] ++ xs ++ ys := hperm₁.append_right ys
    _ = m.typePaths [] ++ (xs ++ ys) := List.append_assoc ..

theorem nothing : AddsBelow above (fun n => n) [] :=
  fun _ m hn => ⟨m, hn, by simp⟩

theorem changeAt (h : Adds f xs) (path : List String) :
    AddsBelow above (Namespace.changeAt f (above ++ path)) (xs.map (path ++ ·)) := by
  intro n m hn
  refine ⟨m.changeAt f path, at?_changeAt_append (fun k => (h k).1) path hn, ?_⟩
  simpa [Function.comp_def] using (h.changeAt path m).2 []

/-- A change for each element of a list, one after the other. -/
theorem foldl {α : Type} {f : Namespace → α → Namespace} {added : α → List (List String)}
    (h : ∀ a, AddsBelow above (f · a) (added a)) (as : List α) :
    AddsBelow above (fun n => as.foldl f n) (as.flatMap added) := by
  induction as with
  | nil => exact nothing
  | cons a as ih => exact (h a).comp ih

end AddsBelow

end Namespace

namespace Proto

open Namespace

/-! ## The declarations of a file -/

section Declarations

variable (package : List String)

theorem adds_addType (scope : List String) (x : String) :
    AddsBelow package (fun n => n.addType (package ++ scope) x) [scope ++ [x]] :=
  AddsBelow.changeAt (adds_type x) scope

theorem adds_enums (scope : List String) (enums : List EnumTree) :
    AddsBelow package (fun n => enums.foldl (fun n e => n.addType (package ++ scope) e.name) n)
      (enums.map fun e => scope ++ [e.name]) := by
  rw [List.map_eq_flatMap]
  exact AddsBelow.foldl (fun e => adds_addType package scope e.name) enums

mutual

theorem MessageTree.adds_addNested (scope : List String) (m : MessageTree) :
    AddsBelow package (fun n => m.addNested (package ++ scope) n) (m.paths scope).tail := by
  match m with
  | .mk origin name fields messages enums options =>
      simp only [MessageTree.addNested, MessageTree.paths, List.cons_append, List.tail_cons]
      by_cases hleaf : (messages.isEmpty && enums.isEmpty) = true
      · obtain ⟨rfl, rfl⟩ : messages = [] ∧ enums = [] := by simpa using hleaf
        simpa [pathsAll] using AddsBelow.nothing
      · simp only [hleaf, List.append_assoc package]
        have htouch : AddsBelow package (touch (package ++ (scope ++ [name]))) [] :=
          AddsBelow.changeAt adds_nothing (scope ++ [name])
        exact (htouch.comp (adds_enums package (scope ++ [name]) enums)).comp
          (adds_addMessages (scope ++ [name]) messages)

theorem adds_addMessages (scope : List String) (ms : List MessageTree) :
    AddsBelow package (fun n => addMessages (package ++ scope) n ms) (pathsAll scope ms) := by
  match ms with
  | [] => exact AddsBelow.nothing
  | .mk origin name fields messages enums options :: ms =>
      have hown := adds_addType package scope name
      have hnested := MessageTree.adds_addNested scope
        (.mk origin name fields messages enums options)
      exact (hown.comp hnested).comp (adds_addMessages scope ms)

end

theorem Definition.adds_addTo (d : Definition) :
    AddsBelow package (fun n => d.addTo package n) d.paths := by
  cases d with
  | message m =>
      simpa [addTo, paths, pathsAll] using adds_addMessages package [] [m]
  | enum e => simpa [addTo, paths] using adds_addType package [] e.name
  | service s => exact AddsBelow.nothing

end Declarations

/-- The node of the package is in the tree of a file, and what it and the nodes below it
list, behind the names of the nodes from it down and joined by underscores, are the names of
the statements, each as often as there are statements with it. -/
theorem Tree.typeNames_root (t : Tree) (path : String) (comments : CommentsOf) :
    ∃ root package, (t.document path comments).root = some root ∧
      root.at? (if t.package = "" then [] else Text.split t.package ".") = some package ∧
      ((package.typePaths []).map "_".intercalate).Perm
        (typeNames (t.document path comments).statements) := by
  let parts := if t.package = "" then [] else Text.split t.package "."
  obtain ⟨last, hlast⟩ := at?_touch parts ""
  have hfile : AddsBelow parts (fun n => t.definitions.foldl (Definition.addTo parts) n) t.paths :=
    AddsBelow.foldl (fun d => d.adds_addTo parts) t.definitions
  obtain ⟨package, hpackage, hperm⟩ := hfile _ _ hlast
  refine ⟨t.root, package, rfl, hpackage, ?_⟩
  rw [t.typeNames_document path comments]
  exact (by simpa [typePaths, typePathsAll] using hperm : (package.typePaths []).Perm t.paths).map _

end Proto
end ClientGen
