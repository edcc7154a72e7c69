import ClientGen.Proofs.Document.Erasure
import ClientGen.Proofs.Proto.Reading
import ClientGen.Proto.Document

/-! # Lowering Protobuf without places and comments

Bringing a tree into the common form commutes with erasure: the document of a
tree, with its positions and comments erased, is the document of the erased tree
where no declaration has comments. The names in scope and the namespace tree are
those of the erased tree, so that types are resolved alike.
-/

namespace ClientGen
namespace Proto

def uncommented : CommentsOf := fun _ => []

theorem annotations_erase (os : List OptionTree) :
    annotations (os.map OptionTree.erase) = (annotations os).map Annotation.erase := by
  simp [annotations, OptionTree.erase, Annotation.erase]

/-- The default of a field is read off the names and values of its options. -/
theorem default_erase (os : List OptionTree) :
    ((os.map OptionTree.erase).reverse.find? fun o => o.name == "default").map (·.value) =
      (os.reverse.find? fun o => o.name == "default").map (·.value) := by
  rw [← List.map_reverse, List.find?_map, Option.map_map]
  rfl

theorem FieldTree.erase_lower (declared scope : List String) (comments : CommentsOf)
    (f : FieldTree) :
    (f.lower declared scope comments).erase = f.erase.lower declared scope uncommented := by
  simp only [lower, Field.erase, FieldTree.erase, annotations_erase, default_erase, uncommented]

theorem EnumTree.erase_lower (scope : List String) (comments : CommentsOf) (e : EnumTree) :
    (e.lower scope comments).erase = e.erase.lower scope uncommented := by
  simp only [lower, Enum.erase, EnumTree.erase, annotations_erase, List.map_map,
    Function.comp_def, EnumMember.erase, MemberTree.erase, uncommented]

mutual

theorem MessageTree.erase_lower (declared scope : List String) (comments : CommentsOf)
    (m : MessageTree) :
    (m.lower declared scope comments).map Statement.erase =
      m.erase.lower declared scope uncommented := by
  match m with
  | .mk origin name fields messages enums options =>
      simp only [MessageTree.lower, MessageTree.erase, List.map_append, List.map_cons,
        List.map_map, Function.comp_def, Statement.erase, Struct.erase, FieldTree.erase_lower,
        EnumTree.erase_lower, annotations_erase, uncommented]
      rw [erase_lowerAll]

theorem erase_lowerAll (declared scope : List String) (comments : CommentsOf)
    (ms : List MessageTree) :
    (lowerAll declared scope comments ms).map Statement.erase =
      lowerAll declared scope uncommented (eraseMessages ms) := by
  match ms with
  | [] => rfl
  | m :: ms =>
      rw [lowerAll, eraseMessages, lowerAll, List.map_append, MessageTree.erase_lower,
        erase_lowerAll]

end

theorem RpcTree.erase_lower (declared : List String) (comments : CommentsOf)
    (inherited : List Annotation) (r : RpcTree) :
    (r.lower declared comments inherited).erase =
      r.erase.lower declared uncommented (inherited.map Annotation.erase) := by
  simp only [lower, Function.erase, RpcTree.erase, annotations_erase, Route.config?_erase,
    List.map_singleton, Field.erase, List.map_nil, uncommented]

theorem ServiceTree.erase_lower (declared : List String) (comments : CommentsOf) (s : ServiceTree) :
    (s.lower declared comments).erase = s.erase.lower declared uncommented := by
  have hroute : Route.config? ((annotations s.options).map Annotation.erase) [] =
      Route.config? (annotations s.options) [] := Route.config?_erase (annotations s.options) []
  simp only [lower, Service.erase, ServiceTree.erase, annotations_erase, hroute, List.map_map,
    Function.comp_def, RpcTree.erase_lower, uncommented]

theorem Definition.erase_lower (declared : List String) (comments : CommentsOf) (d : Definition) :
    (d.lower declared comments).map Statement.erase = d.erase.lower declared uncommented := by
  cases d with
  | message m => exact m.erase_lower declared [] comments
  | enum e => simp only [lower, List.map_singleton, Statement.erase, e.erase_lower, erase]
  | service s => simp only [lower, List.map_singleton, Statement.erase, s.erase_lower, erase]

/-! ## Names in scope -/

mutual

theorem MessageTree.declared_erase (before : String) (m : MessageTree) :
    m.erase.declared before = m.declared before := by
  match m with
  | .mk origin name fields messages enums options =>
      simp only [MessageTree.erase, MessageTree.declared, List.map_map, Function.comp_def,
        EnumTree.erase]
      rw [declaredAll_erase]

theorem declaredAll_erase (before : String) (ms : List MessageTree) :
    declaredAll before (eraseMessages ms) = declaredAll before ms := by
  match ms with
  | [] => rfl
  | m :: ms =>
      rw [eraseMessages, declaredAll, declaredAll, MessageTree.declared_erase, declaredAll_erase]

end

theorem Tree.declared_erase (t : Tree) : t.erase.declared = t.declared := by
  simp only [Tree.declared, Tree.erase, List.flatMap_map]
  congr
  funext d
  cases d with
  | message m => exact m.declared_erase ""
  | enum e => rfl
  | service s => rfl

mutual

theorem MessageTree.addNested_erase (path : List String) (n : Namespace) (m : MessageTree) :
    m.erase.addNested path n = m.addNested path n := by
  match m with
  | .mk origin name fields messages enums options =>
      have hempty : (eraseMessages messages).isEmpty = messages.isEmpty := by
        cases messages <;> rfl
      simp only [MessageTree.erase, MessageTree.addNested, hempty, List.isEmpty_map,
        List.foldl_map, EnumTree.erase]
      rw [addMessages_erase]

theorem addMessages_erase (path : List String) (n : Namespace) (ms : List MessageTree) :
    addMessages path n (eraseMessages ms) = addMessages path n ms := by
  match ms with
  | [] => rfl
  | .mk origin name fields messages enums options :: ms =>
      have hnested := MessageTree.addNested_erase path (n.addType path name)
        (.mk origin name fields messages enums options)
      simp only [MessageTree.erase] at hnested
      simp only [eraseMessages, MessageTree.erase, addMessages]
      rw [hnested, addMessages_erase]

end

theorem Tree.root_erase (t : Tree) : t.erase.root = t.root := by
  have hadd : ∀ path n (d : Definition), d.erase.addTo path n = d.addTo path n := by
    intro path n d
    cases d with
    | message m => exact addMessages_erase path n [m]
    | enum e => rfl
    | service s => rfl
  simp only [Tree.root, Tree.erase, List.foldl_map, hadd]
  rfl

/-- The document of a tree without its layout is that of the tree without its
positions. -/
theorem Tree.erase_document (path : String) (comments : CommentsOf) (t : Tree) :
    (t.document path comments).erase = t.erase.document path uncommented := by
  simp only [document, Document.erase, Tree.root_erase, Tree.declared_erase, List.map_flatMap,
    Definition.erase_lower]
  simp only [Tree.erase, List.map_map, List.flatMap_map]
  rfl

end Proto
end ClientGen
