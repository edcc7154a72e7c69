import ClientGen.Proofs.Document.Erasure
import ClientGen.Proofs.Thrift.Spelling
import ClientGen.Thrift.Document

/-! # Lowering Thrift without places and comments

Bringing a tree into the common form commutes with erasure: the document of a
tree, with its positions and comments erased, is the document of the erased tree
where no declaration has comments. So a document holds nothing of the layout but
what its erasure leaves out.
-/

namespace ClientGen
namespace Thrift

def uncommented : CommentsOf := fun _ => []

theorem annotationErased_eq : annotationErased = Annotation.erase := rfl

theorem TypeTree.fieldType_erase (t : TypeTree) : t.erase.fieldType = t.fieldType := by
  induction t with
  | name p n as => rfl
  | list p t as ih => rw [erase, fieldType, fieldType, ih]
  | set p t as ih => rw [erase, fieldType, fieldType, ih]
  | map p k v as ihk ihv => rw [erase, fieldType, fieldType, ihk, ihv]

theorem TypeTree.annotations_erase (t : TypeTree) :
    t.erase.annotations = t.annotations.map Annotation.erase := by
  cases t <;> rfl

/-- The numbers of fields follow from the numbers before them, never from places. -/
theorem erase_fieldsFrom (comments : CommentsOf) (next : Int) (fs : List FieldTree) :
    (fieldsFrom comments next fs).map Field.erase =
      fieldsFrom uncommented next (fs.map FieldTree.erase) := by
  induction fs generalizing next with
  | nil => rfl
  | cons f fs ih =>
      simp only [fieldsFrom, List.map_cons, ih, Field.erase, FieldTree.erase,
        TypeTree.fieldType_erase, TypeTree.annotations_erase, annotationErased_eq, List.map_append,
        uncommented]

theorem erase_membersFrom (comments : CommentsOf) (next : Int) (ms : List MemberTree) :
    (membersFrom comments next ms).map EnumMember.erase =
      membersFrom uncommented next (ms.map MemberTree.erase) := by
  induction ms generalizing next with
  | nil => rfl
  | cons m ms ih =>
      simp only [membersFrom, List.map_cons, ih, EnumMember.erase, MemberTree.erase, uncommented]

theorem FunctionTree.erase_lower (comments : CommentsOf) (inherited : List Annotation)
    (f : FunctionTree) :
    (f.lower comments inherited).erase =
      f.erase.lower uncommented (inherited.map Annotation.erase) := by
  simp only [lower, Function.erase, FunctionTree.erase, erase_fieldsFrom, annotationErased_eq,
    Route.config?_erase, Option.map_map, Function.comp_def, TypeTree.fieldType_erase, uncommented]

theorem Definition.erase_lower (comments : CommentsOf) (d : Definition) :
    (d.lower comments).erase = d.erase.lower uncommented := by
  cases d with
  | const c =>
      simp only [lower, Statement.erase, Constant.erase, Definition.erase,
        TypeTree.fieldType_erase, uncommented]
  | typedef t =>
      simp only [lower, Statement.erase, Typedef.erase, Definition.erase,
        TypeTree.fieldType_erase, uncommented]
  | enum e =>
      simp only [lower, Statement.erase, Enum.erase, Definition.erase, erase_membersFrom,
        annotationErased_eq, uncommented]
  | struct s =>
      simp only [lower, Statement.erase, Struct.erase, Definition.erase, erase_fieldsFrom,
        annotationErased_eq, uncommented]
  | service s =>
      have hroute : Route.config? (s.annotations.map Annotation.erase) [] =
          Route.config? s.annotations [] := Route.config?_erase s.annotations []
      simp only [lower, Statement.erase, Service.erase, Definition.erase, List.map_map,
        Function.comp_def, FunctionTree.erase_lower, annotationErased_eq, hroute, uncommented]

/-- What is picked from headers for their content is picked from erased ones too. -/
theorem filterMap_eraseHeaders {α : Type} (f : Header → Option α) (hf : ∀ h, f h.erase = f h)
    (hs : List Header) : (hs.map Header.erase).filterMap f = hs.filterMap f := by
  have hcomp : f ∘ Header.erase = f := funext hf
  rw [List.filterMap_map, hcomp]

theorem pickNamespace_erase (hs : List Header) :
    pickNamespace (hs.map Header.erase) = pickNamespace hs := by
  unfold pickNamespace
  rw [filterMap_eraseHeaders]
  intro h
  cases h <;> rfl

/-- The document of a tree without its layout is that of the tree without its
positions. -/
theorem Tree.erase_document (path : String) (comments : CommentsOf) (t : Tree) :
    (t.document path comments).erase = t.erase.document path uncommented := by
  simp only [document, Document.erase, Tree.erase, pickNamespace_erase, List.map_map,
    Function.comp_def, Definition.erase_lower]
  rw [filterMap_eraseHeaders]
  intro h
  cases h with
  | included position path cpp => cases cpp <;> rfl
  | namespaced position scope name => rfl

end Thrift
end ClientGen
