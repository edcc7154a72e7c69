import ClientGen.Proofs.Source.Lockstep
import ClientGen.Proofs.Thrift.RoundTrip

/-! # Thrift in lockstep

Every production of the grammar runs in lockstep with itself: it reads the kinds
and values of tokens only. Two productions drop a failure and read on, each after
it was reported: a foreign type without a text, and annotations of a namespace
that cannot be read. Where neither happens, a parse reports at most once.
-/

namespace ClientGen
namespace Thrift

open Source
open Source.Parser

/-! ## Dropped failures -/

def namespaceHead : Parser Unit := do
  let _ ← expectWord ["namespace"]
  let _ ← expectOf [.identifier, .star]
  let _ ← dottedName

/-- Whether no failure is dropped at some faces: a word that announces a foreign
type stands before a text, and the annotations of a namespace can be read. -/
def forthright (fs : List Face) : Bool :=
  (!fs.head?.any (Face.isWord ["cpp_type"]) || fs.tail.head?.any fun f => f.kind == .text) &&
    match namespaceHead.run (Cursor.ofFaces fs) with
    | (some _, c) => (annotations.run c).1.isSome
    | (none, _) => true

/-- Lockstep in this grammar: parsers report once at most where no failure is
dropped. -/
abbrev Steps {α γ : Type} (e : α → γ) (p q : Parser α) : Prop :=
  Lockstep forthright e p q

/-! ## Annotations and types -/

theorem steps_annotationValue : Steps (fun s => s) annotationValue annotationValue := by
  unfold annotationValue
  refine (Lockstep.accept .equal).branch _ ?_ (Lockstep.pure rfl)
  exact (Lockstep.expectOf _).bind fun t u h => Lockstep.pure (congrArg Face.value h)

theorem steps_annotation : Steps annotationErased annotation annotation := by
  unfold annotation
  refine Lockstep.here.bind fun position position' _ => ?_
  refine Lockstep.dottedName.bind fun key _ hkey => ?_
  refine steps_annotationValue.bind fun value _ hvalue => ?_
  refine Lockstep.separator.bind fun _ _ _ => Lockstep.pure ?_
  rw [hkey, hvalue]
  rfl

theorem steps_annotations : Steps (List.map annotationErased) annotations annotations := by
  unfold annotations
  exact (Lockstep.accept .parenOpen).branch _ (Lockstep.upTo .parenClose steps_annotation)
    (Lockstep.pure rfl)

/-- The text of a foreign type is there wherever its word is. -/
theorem isSome_text_of_forthright {c : Cursor} (hc : c.isWord ["cpp_type"] = true)
    (h : forthright c.faces = true) : ((expect .text).run c.advance).1.isSome = true := by
  rw [Cursor.isWord_eq] at hc
  simp only [forthright, hc, Bool.not_true, Bool.false_or, Bool.and_eq_true] at h
  obtain ⟨htext, -⟩ := h
  rw [← List.drop_one, ← (Follows.advance c).faces] at htext
  cases hrest : c.advance.rest with
  | nil => simp [Cursor.faces, hrest] at htext
  | cons t ts =>
      have hkind : t.kind = .text := by simpa [Cursor.faces, hrest, Token.face] using htext
      simp [Parser.run, expect, expectOf, hrest, hkind]

theorem steps_foreignType : Steps (fun _ => ()) foreignType foreignType := by
  intro c d hfaces
  unfold foreignType
  refine LockstepAt.bind (Lockstep.acceptWord ["cpp_type"] c d hfaces) ?_ hfaces
  intro word _ c' d' hrun _ hword hkeep hfaces'
  subst hword
  cases word with
  | none => exact .value rfl rfl rfl (Follows.refl c') (Follows.refl d')
  | some w =>
      have hsome : Steady forthright c.faces →
          ((expect .text).run c').1.isSome = true := by
        intro hsteady
        have hc : c.isWord ["cpp_type"] = true ∧ c' = c.advance := by
          simp only [Parser.run, acceptWord] at hrun
          split at hrun
          · rename_i hc
            exact ⟨hc, (Prod.mk.inj hrun).2.symm⟩
          · simp at hrun
        rw [hc.2]
        exact isSome_text_of_forthright hc.1 hsteady.self
      have htext := (Lockstep.expect .text).runAt hfaces' (hkeep forthright)
      refine LockstepAt.bind (htext.attempt hsome) ?_ hfaces'
      intro _ _ c'' d'' _ _ _ _ _
      exact .value rfl rfl rfl (Follows.refl c'') (Follows.refl d'')

/-- A type with one element, whatever it is made of the element. -/
theorem steps_element {p : Parser TypeTree} (hp : Steps TypeTree.erase p p)
    {mk mk' : TypeTree → List Annotation → TypeTree}
    (hmk : ∀ t t' as as', t.erase = t'.erase →
      as.map annotationErased = as'.map annotationErased → (mk t as).erase = (mk' t' as').erase) :
    Steps TypeTree.erase
      (do
        advance
        foreignType
        let _ ← expect .angleOpen
        let element ← p
        let _ ← expect .angleClose
        return mk element (← annotations))
      (do
        advance
        foreignType
        let _ ← expect .angleOpen
        let element ← p
        let _ ← expect .angleClose
        return mk' element (← annotations)) := by
  refine Lockstep.advance.bind fun _ _ _ => steps_foreignType.bind fun _ _ _ => ?_
  refine (Lockstep.expect _).bind fun _ _ _ => hp.bind fun t t' ht => ?_
  refine (Lockstep.expect _).bind fun _ _ _ => ?_
  exact steps_annotations.bind fun as as' has => Lockstep.pure (hmk t t' as as' ht has)

theorem steps_fieldType (fuel : Nat) :
    Steps TypeTree.erase (fieldType fuel) (fieldType fuel) := by
  induction fuel with
  | zero => exact Lockstep.illegal
  | succ fuel ih =>
      unfold fieldType
      refine Lockstep.here.bind fun position position' _ => ?_
      refine (Lockstep.isWord _).branch _ ?_ ((Lockstep.isWord _).branch _ ?_
        ((Lockstep.isWord _).branch _ ?_ ?_))
      · refine Lockstep.advance.bind fun _ _ _ => steps_foreignType.bind fun _ _ _ => ?_
        refine (Lockstep.expect _).bind fun _ _ _ => ih.bind fun k k' hk => ?_
        refine (Lockstep.expect _).bind fun _ _ _ => ih.bind fun v v' hv => ?_
        refine (Lockstep.expect _).bind fun _ _ _ => ?_
        refine steps_annotations.bind fun as as' has => Lockstep.pure ?_
        simp only [TypeTree.erase, hk, hv, has]
      · exact steps_element ih fun _ _ _ _ ht has => by simp only [TypeTree.erase, ht, has]
      · exact steps_element ih fun _ _ _ _ ht has => by simp only [TypeTree.erase, ht, has]
      · refine Lockstep.dottedName.bind fun name _ hname => ?_
        refine steps_annotations.bind fun as as' has => Lockstep.pure ?_
        simp only [TypeTree.erase, hname, has]

theorem steps_type : Steps TypeTree.erase type type :=
  Lockstep.fuelled steps_fieldType

/-! ## Constants -/

theorem steps_constValue (fuel : Nat) :
    Steps (fun v => v) (constValue fuel) (constValue fuel) := by
  induction fuel with
  | zero => exact Lockstep.illegal
  | succ fuel ih =>
      unfold constValue
      refine Lockstep.kind?.bind fun k _ h => ?_
      subst h
      split
      · refine Lockstep.advance.bind fun _ _ _ => (Lockstep.expectOf _).bind fun t u h => ?_
        exact Lockstep.pure (Const.ofNumber_eq "-" h)
      · refine Lockstep.advance.bind fun _ _ _ => (Lockstep.expectOf _).bind fun t u h => ?_
        exact Lockstep.pure (Const.ofNumber_eq "" h)
      · exact (Lockstep.expectOf _).bind fun t u h => Lockstep.pure (Const.ofNumber_eq "" h)
      · exact (Lockstep.expectOf _).bind fun t u h => Lockstep.pure (Const.ofNumber_eq "" h)
      · exact (Lockstep.expectOf _).bind fun t u h => Lockstep.pure (Const.ofNumber_eq "" h)
      · refine (Lockstep.expect _).bind fun t u h => Lockstep.pure ?_
        rw [(Token.face_eq_iff.mp h).2]
      · exact Lockstep.dottedName.bind fun name _ h => Lockstep.pure (congrArg nameConst h)
      · refine Lockstep.advance.bind fun _ _ _ => ?_
        refine (Lockstep.upTo (e := fun v => v) _ ?_).bind fun vs ws h => Lockstep.pure ?_
        · exact ih.bind fun v w h => Lockstep.separator.bind fun _ _ _ => Lockstep.pure h
        · simpa using h
      · refine Lockstep.advance.bind fun _ _ _ => ?_
        refine (Lockstep.upTo (e := fun u => u) _ ?_).bind fun vs ws h => Lockstep.pure ?_
        · refine ih.bind fun k k' hk => (Lockstep.expect _).bind fun _ _ _ => ?_
          refine ih.bind fun v v' hv => Lockstep.separator.bind fun _ _ _ => Lockstep.pure ?_
          rw [hk, hv]
        · simpa using h
      · exact Lockstep.illegal

theorem steps_const : Steps (fun v => v) const const :=
  Lockstep.fuelled steps_constValue

/-! ## Headers -/

theorem steps_includeHeader : Steps Header.erase includeHeader includeHeader := by
  unfold includeHeader
  refine (Lockstep.expectWord _).bind fun word word' hword => ?_
  refine (Lockstep.expect _).bind fun path path' hpath => ?_
  refine Lockstep.separator.bind fun _ _ _ => Lockstep.pure ?_
  rw [Token.face_eq_iff] at hword hpath
  simp only [Header.erase, hword.2, hpath.2]

theorem steps_namespaceHead : Steps (fun _ => ()) namespaceHead namespaceHead := by
  unfold namespaceHead
  refine (Lockstep.expectWord _).bind fun _ _ _ => (Lockstep.expectOf _).bind fun _ _ _ => ?_
  exact Lockstep.dottedName.bind fun _ _ _ => Lockstep.pure rfl

/-- The annotations of a namespace can be read wherever its head can. -/
theorem isSome_annotations_of_forthright {c c' : Cursor} (hhead : namespaceHead.run c = (some (), c'))
    (h : forthright c.faces = true) : (annotations.run c').1.isSome = true := by
  have hfaces : c.faces = (Cursor.ofFaces c.faces).faces := (Cursor.faces_ofFaces c.faces).symm
  have hsome := steps_namespaceHead.isSome_eq hfaces
  have hafter := steps_namespaceHead.faces_eq hfaces
  rw [hhead] at hsome hafter
  cases hrun : namespaceHead.run (Cursor.ofFaces c.faces) with
  | mk value c₀ =>
      rw [hrun] at hsome hafter
      cases value with
      | none => simp at hsome
      | some u =>
          simp only [forthright, hrun, Bool.and_eq_true] at h
          rw [steps_annotations.isSome_eq hafter]
          exact h.2

theorem steps_namespaceHeader : Steps Header.erase namespaceHeader namespaceHeader := by
  intro c d hfaces
  unfold namespaceHeader
  -- The runs are kept, because the head decides what the annotations owe.
  refine LockstepAt.bind (Lockstep.expectWord _ c d hfaces) ?_ hfaces
  intro word word' c₁ d₁ hrun₁ _ hword hkeep₁ hfaces₁
  have hsteady₁ := hkeep₁ forthright
  refine LockstepAt.bind ((Lockstep.expectOf _).runAt hfaces₁ hsteady₁) ?_ hfaces₁
  intro scope scope' c₂ d₂ hrun₂ _ hscope hkeep₂ hfaces₂
  have hsteady₂ := fun h => hkeep₂ forthright (hsteady₁ h)
  refine LockstepAt.bind (Lockstep.dottedName.runAt hfaces₂ hsteady₂) ?_ hfaces₂
  intro name name' c₃ d₃ hrun₃ _ hname hkeep₃ hfaces₃
  have hsteady₃ := fun h => hkeep₃ forthright (hsteady₂ h)
  have hhead : namespaceHead.run c = (some (), c₃) := by
    simp only [namespaceHead, run_bind, hrun₁, hrun₂, hrun₃, run_pure]
  refine LockstepAt.bind ((steps_annotations.runAt hfaces₃ hsteady₃).attempt
    fun hsteady => isSome_annotations_of_forthright hhead hsteady.self) ?_ hfaces₃
  intro _ _ c₄ d₄ _ _ _ hkeep₄ hfaces₄
  refine Lockstep.runAt ?_ hfaces₄ fun h => hkeep₄ forthright (hsteady₃ h)
  refine Lockstep.separator.bind fun _ _ _ => Lockstep.pure ?_
  rw [Token.face_eq_iff] at hscope
  simp only [Header.erase, hscope.2, hname]

/-! ## Declarations -/

/-- The end of a declaration: its annotations, a separator and its number. -/
theorem steps_ending {α γ : Type} {e : α → γ} {mk mk' : List Annotation → Nat → α}
    (first first' : Nat)
    (hmk : ∀ as as' n n', as.map annotationErased = as'.map annotationErased →
      e (mk as n) = e (mk' as' n')) :
    Steps e
      (do
        let as ← annotations
        separator
        let decl ← declare first
        return mk as decl)
      (do
        let as ← annotations
        separator
        let decl ← declare first'
        return mk' as decl) := by
  refine steps_annotations.bind fun as as' has => Lockstep.separator.bind fun _ _ _ => ?_
  exact (Lockstep.declare first first').bind fun n n' _ => Lockstep.pure (hmk as as' n n' has)

theorem steps_constDefinition :
    Steps (fun c => Definition.erase (.const c)) constDefinition constDefinition := by
  unfold constDefinition
  refine Lockstep.place.bind fun first first' _ => ?_
  refine (Lockstep.expectWord _).bind fun _ _ _ => steps_type.bind fun t t' ht => ?_
  refine Lockstep.identifier.bind fun name name' hname => ?_
  refine (Lockstep.expect _).bind fun _ _ _ => steps_const.bind fun v v' hv => ?_
  refine Lockstep.separator.bind fun _ _ _ => ?_
  refine (Lockstep.declare first first').bind fun _ _ _ => Lockstep.pure ?_
  rw [Token.face_eq_iff] at hname
  simp only [Definition.erase, ht, hname.2, hv]

theorem steps_typedefDefinition :
    Steps (fun t => Definition.erase (.typedef t)) typedefDefinition typedefDefinition := by
  unfold typedefDefinition
  refine Lockstep.place.bind fun first first' _ => ?_
  refine (Lockstep.expectWord _).bind fun _ _ _ => steps_type.bind fun t t' ht => ?_
  refine Lockstep.identifier.bind fun name name' hname => ?_
  refine steps_ending first first' fun as as' _ _ has => ?_
  rw [Token.face_eq_iff] at hname
  simp only [Definition.erase, ht, hname.2, has]

theorem steps_memberValue : Steps (fun v => v) memberValue memberValue := by
  unfold memberValue
  refine (Lockstep.accept .equal).branch _ ?_ (Lockstep.pure rfl)
  exact Lockstep.integer.map fun n n' h => congrArg some h

theorem steps_enumMember : Steps MemberTree.erase enumMember enumMember := by
  unfold enumMember
  refine Lockstep.place.bind fun first first' _ => ?_
  refine Lockstep.identifier.bind fun name name' hname => ?_
  refine steps_memberValue.bind fun v v' hv => ?_
  refine steps_ending first first' fun as as' _ _ has => ?_
  rw [Token.face_eq_iff] at hname
  simp only [MemberTree.erase, hname.2, hv, has]

theorem steps_enumDefinition :
    Steps (fun e => Definition.erase (.enum e)) enumDefinition enumDefinition := by
  unfold enumDefinition
  refine Lockstep.place.bind fun first first' _ => ?_
  refine (Lockstep.expectWord _).bind fun _ _ _ => ?_
  refine Lockstep.identifier.bind fun name name' hname => (Lockstep.expect _).bind fun _ _ _ => ?_
  refine (Lockstep.upTo _ steps_enumMember).bind fun ms ms' hms => ?_
  refine steps_ending first first' fun as as' _ _ has => ?_
  rw [Token.face_eq_iff] at hname
  simp only [Definition.erase, hname.2, hms, has]

theorem steps_fieldId : Steps (fun i => i) fieldId fieldId := by
  unfold fieldId
  refine (Lockstep.look (e := fun b => b) ?_).branch _ ?_ (Lockstep.pure rfl)
  · intro c d h
    simp only [Cursor.is_eq, h]
  · refine Lockstep.integer.bind fun n n' hn => (Lockstep.expect _).bind fun _ _ _ => ?_
    exact Lockstep.pure (congrArg some hn)

theorem steps_requirement : Steps (fun r => r) requirement requirement := by
  unfold requirement
  refine (Lockstep.acceptWord _).bind fun w _ h => ?_
  subst h
  split <;> exact Lockstep.pure rfl

theorem steps_fieldDefault : Steps (fun v => v) fieldDefault fieldDefault := by
  unfold fieldDefault
  exact (Lockstep.accept .equal).branch _ steps_const (Lockstep.pure rfl)

theorem steps_field : Steps FieldTree.erase field field := by
  unfold field
  refine Lockstep.place.bind fun first first' _ => ?_
  refine Lockstep.here.bind fun position position' _ => ?_
  refine steps_fieldId.bind fun i i' hi => steps_requirement.bind fun r r' hr => ?_
  refine steps_type.bind fun t t' ht => Lockstep.identifier.bind fun name name' hname => ?_
  refine steps_fieldDefault.bind fun v v' hv => ?_
  refine steps_ending first first' fun as as' _ _ has => ?_
  rw [Token.face_eq_iff] at hname
  simp only [FieldTree.erase, hi, hr, ht, hname.2, hv, has]

theorem steps_structDefinition :
    Steps (fun s => Definition.erase (.struct s)) structDefinition structDefinition := by
  unfold structDefinition
  refine Lockstep.place.bind fun first first' _ => ?_
  refine (Lockstep.expectWord _).bind fun word word' hword => ?_
  refine Lockstep.identifier.bind fun name name' hname => ?_
  refine (Lockstep.acceptWord _).bind fun _ _ _ => (Lockstep.expect _).bind fun _ _ _ => ?_
  refine (Lockstep.upTo _ steps_field).bind fun fs fs' hfs => ?_
  refine steps_ending first first' fun as as' _ _ has => ?_
  rw [Token.face_eq_iff] at hword hname
  simp only [Definition.erase, hword.2, hname.2, hfs, has]

theorem steps_fieldList : Steps (List.map FieldTree.erase) fieldList fieldList := by
  unfold fieldList
  exact (Lockstep.expect _).bind fun _ _ _ => Lockstep.upTo _ steps_field

theorem steps_result : Steps (Option.map TypeTree.erase) result result := by
  unfold result
  refine (Lockstep.acceptWord _).branch _ (Lockstep.pure rfl) ?_
  exact steps_type.map fun t t' h => congrArg some h

theorem steps_throwsClause : Steps (List.map FieldTree.erase) throwsClause throwsClause := by
  unfold throwsClause
  exact (Lockstep.acceptWord _).branch _ steps_fieldList (Lockstep.pure rfl)

theorem steps_function : Steps FunctionTree.erase function function := by
  unfold function
  refine Lockstep.place.bind fun first first' _ => ?_
  refine Lockstep.here.bind fun position position' _ => ?_
  refine (Lockstep.acceptWord _).bind fun oneway oneway' honeway => ?_
  refine steps_result.bind fun r r' hr => Lockstep.identifier.bind fun name name' hname => ?_
  refine steps_fieldList.bind fun ps ps' hps => steps_throwsClause.bind fun ts ts' hts => ?_
  refine steps_ending first first' fun as as' _ _ has => ?_
  rw [Token.face_eq_iff] at hname
  simp only [FunctionTree.erase, honeway, hr, hname.2, hps, hts, has]

theorem steps_parentName : Steps (fun s => s) parentName parentName := by
  unfold parentName
  exact (Lockstep.acceptWord _).branch _ Lockstep.dottedName (Lockstep.pure rfl)

theorem steps_serviceDefinition :
    Steps (fun s => Definition.erase (.service s)) serviceDefinition serviceDefinition := by
  unfold serviceDefinition
  refine Lockstep.place.bind fun first first' _ => ?_
  refine (Lockstep.expectWord _).bind fun _ _ _ => ?_
  refine Lockstep.identifier.bind fun name name' hname => ?_
  refine steps_parentName.bind fun parent parent' hparent => (Lockstep.expect _).bind fun _ _ _ => ?_
  refine (Lockstep.upTo _ steps_function).bind fun fs fs' hfs => ?_
  refine steps_ending first first' fun as as' _ _ has => ?_
  rw [Token.face_eq_iff] at hname
  simp only [Definition.erase, hname.2, hparent, hfs, has]

theorem steps_definition : Steps Definition.erase definition definition := by
  unfold definition
  refine (Lockstep.isWord _).branch _ ?_ ((Lockstep.isWord _).branch _ ?_
    ((Lockstep.isWord _).branch _ ?_ ((Lockstep.isWord _).branch _ ?_
      ((Lockstep.isWord _).branch _ ?_ Lockstep.illegal))))
  · exact steps_constDefinition.bind fun _ _ h => Lockstep.pure h
  · exact steps_typedefDefinition.bind fun _ _ h => Lockstep.pure h
  · exact steps_enumDefinition.bind fun _ _ h => Lockstep.pure h
  · exact steps_structDefinition.bind fun _ _ h => Lockstep.pure h
  · exact steps_serviceDefinition.bind fun _ _ h => Lockstep.pure h

theorem steps_item : Steps eraseItem item item := by
  unfold item
  refine (Lockstep.isWord _).branch _ ?_ ((Lockstep.isWord _).branch _ ?_ ?_)
  · exact steps_includeHeader.bind fun _ _ h => Lockstep.pure (congrArg Sum.inl h)
  · exact steps_namespaceHeader.bind fun _ _ h => Lockstep.pure (congrArg Sum.inl h)
  · exact steps_definition.bind fun _ _ h => Lockstep.pure (congrArg Sum.inr h)

/-- A file without its check for earlier failures. -/
theorem steps_items : Steps Tree.erase
    (do
      let items ← whileDo (fun c => !c.atEnd) item
      return { headers := items.filterMap Sum.getLeft?,
               definitions := items.filterMap Sum.getRight? })
    (do
      let items ← whileDo (fun c => !c.atEnd) item
      return { headers := items.filterMap Sum.getLeft?,
               definitions := items.filterMap Sum.getRight? }) := by
  refine (Lockstep.whileDo ?_ steps_item).bind fun items items' h => Lockstep.pure ?_
  · intro c d h
    simp only [Cursor.atEnd_eq, h]
  · simp only [Tree.erase, ← filterMap_getLeft_eraseItem, ← filterMap_getRight_eraseItem, h]

end Thrift
end ClientGen
