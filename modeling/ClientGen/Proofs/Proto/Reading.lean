import ClientGen.Proofs.Proto.OptionReading
import ClientGen.Proofs.Proto.Spelling
import Mathlib.Data.List.ReduceOption

/-! # Reading Protobuf declarations back

Every written declaration is read into the tree that it stands for. Almost every
statement ends with a semicolon or a brace and may be followed by anything. The
exception is a remote procedure with a body in braces, which takes a semicolon
after it although that is also an empty statement of the service.
-/

namespace ClientGen
namespace Proto

open Source
open Source.Parser

/-! ## Names, labels and types -/

theorem reads_typeName (name : String) :
    Reads typeName (spellTypeName name) (avoids [.dot] []) (· = name) := by
  unfold typeName spellTypeName
  split
  · rename_i rest hroot
    refine (reads_accept rfl).token ?_
    rintro _ rfl
    refine (reads_dottedName (String.ofList rest)).andThen ?_
    rintro _ rfl
    refine Reads.pure ?_
    apply String.toList_inj.mp
    simp [hroot]
  · refine reads_accept_none.ahead (fun o _ => ?_) ?_
    · simp [head_dotted, Face.isWord]
    rintro _ rfl
    exact (reads_dottedName name).andThen fun _ h => Reads.pure h

/-- A type name starts with a dot or with a word that is its first part. -/
theorem head_typeName {name : String} {words : List String} (h : firstComponent name ∉ words) :
    ∃ f, (spellTypeName name).head? = some f ∧ f.isWord words = false ∧
      f.kind ∈ [TokenKind.dot, .identifier] := by
  unfold spellTypeName
  split
  · exact ⟨Face.mark .dot, rfl, Face.isWord_eq_false_of_kind (by decide) words, by decide⟩
  · refine ⟨_, head_dotted name, ?_, by simp⟩
    simpa using h

def labelWords : List String := ["optional", "required", "repeated"]

theorem reads_label (l : Label) : Reads label l.faces (avoids [] labelWords) (· = l) := by
  unfold label
  cases l with
  | none =>
      refine reads_acceptWord_none.ahead (fun _ h => h) ?_
      rintro _ rfl
      exact Reads.pure rfl
  | optional =>
      refine (reads_acceptWord rfl).token ?_
      rintro _ rfl
      exact Reads.pure rfl
  | required =>
      refine (reads_acceptWord rfl).token ?_
      rintro _ rfl
      exact Reads.pure rfl
  | repeated =>
      refine (reads_acceptWord rfl).token ?_
      rintro _ rfl
      exact Reads.pure rfl

/-- A type starts with a dot or a word, and with none of those that have another
meaning unless it is a map. -/
theorem head_type (t : TypeTree) (ht : t.plain = true) :
    ∃ f, t.spelled.head? = some f ∧ f.kind ∈ [TokenKind.dot, .identifier] ∧
      (f = Face.word "map" ∨ f.isWord fieldWords = false) := by
  cases t with
  | name n =>
      have hn : firstComponent n ∉ fieldWords := by simpa [TypeTree.plain] using ht
      obtain ⟨f, hf, hw, hk⟩ := head_typeName hn
      exact ⟨f, hf, hk, Or.inr hw⟩
  | map key value => exact ⟨Face.word "map", rfl, by decide, Or.inl rfl⟩

theorem reads_fieldType (t : TypeTree) (ht : t.plain = true) :
    Reads fieldType t.spelled (avoids [.dot] []) (· = t) := by
  unfold fieldType
  cases t with
  | name n =>
      have hn : firstComponent n ∉ ["map"] := by
        simp only [TypeTree.plain, fieldWords, Bool.not_eq_true', List.contains_eq_mem,
          decide_eq_false_iff_not, List.mem_cons, not_or] at ht
        simp [ht]
      obtain ⟨f, hf, hw, -⟩ := head_typeName hn
      refine Reads.lookAhead false (fun c after hc => ?_) ?_
      · have hhead : c.faces.head? = some f := by
          simp [hc, TypeTree.spelled, hf]
        simp [Cursor.isWord_eq, hhead, hw]
      · exact (reads_typeName n).andThen fun _ h => Reads.pure (by rw [h])
  | map key value =>
      refine Reads.lookAhead true (fun c after hc => ?_) ?_
      · have hangle := Cursor.any_peekAt c 1 (· == .angleOpen)
        simp only [hc, TypeTree.spelled] at hangle
        simp [Cursor.isWord_eq, hc, TypeTree.spelled, hangle]
      refine (reads_advance _).token fun _ _ => ?_
      refine (reads_advance _).token fun _ _ => ?_
      refine (reads_typeName key).bind (fun _ _ => avoids_mark (by decide) (by decide)) ?_
      rintro _ rfl
      refine (reads_expect rfl).token fun _ _ => ?_
      refine (reads_typeName value).bind (fun _ _ => avoids_mark (by decide) (by decide)) ?_
      rintro _ rfl
      exact (reads_expect rfl).token fun _ _ => Reads.pure rfl

/-! ## Skipped statements -/

theorem reads_skipStatement {word : String} {body : List Face} (hbody : skippable body = true) :
    Reads skipStatement (spellSkipped word body) anything fun _ => True := by
  have hkind : ∀ f ∈ Face.word word :: body, f.kind ≠ .semicolon := by
    intro f hf
    rcases List.mem_cons.mp hf with rfl | hf
    · simp
    · simpa using List.all_eq_true.mp hbody f hf
  have hloop : Reads (whileDo (fun c => !c.atEnd && !c.is .semicolon) advance)
      ((Face.word word :: body).flatMap fun f => [f]) (· = some (Face.mark .semicolon))
      fun us => us.map (fun _ => ()) = (Face.word word :: body).map fun _ => () := by
    refine reads_whileDo (m := anything)
      (g := fun o => !o.isNone && !o.any fun f => f.kind == .semicolon) ?_ ?_ _ ?_
    · intro c
      rw [Cursor.atEnd_eq, Cursor.is_eq]
    · rintro _ rfl
      exact ⟨by simp, trivial⟩
    · intro f hf
      exact ⟨(reads_advance f).imp fun _ _ => rfl, f, rfl, by simpa using hkind f hf, trivial⟩
  rw [List.flatMap_singleton'] at hloop
  unfold skipStatement
  refine hloop.bind (fun _ _ => rfl) fun _ _ => ?_
  exact (reads_expect rfl).token fun _ _ => Reads.pure trivial

theorem opened_cons (f : Face) (fs : List Face) :
    opened (f :: fs) = opened fs + if f.kind = .curlyOpen then 1 else 0 := by
  simp [opened, List.countP_cons]

theorem closed_cons (f : Face) (fs : List Face) :
    closed (f :: fs) = closed fs + if f.kind = .curlyClose then 1 else 0 := by
  simp [closed, List.countP_cons]

/-- Inside `depth + 1` open braces, a body that closes `depth` of them, and none
too early, is passed over up to the brace that closes the last one. -/
theorem reads_skipBraces (body : List Face) (depth fuel : Nat)
    (hearly : ∀ n ≤ body.length, closed (body.take n) ≤ depth + opened (body.take n))
    (hend : closed body = depth + opened body) (hfuel : body.length + 1 < fuel) :
    Reads (skipBraces (depth + 1) fuel) (body ++ [Face.mark .curlyClose]) anything
      fun _ => True := by
  induction body generalizing depth fuel with
  | nil =>
      obtain ⟨fuel, rfl⟩ : ∃ k, fuel = k + 1 := ⟨fuel - 1, by simp at hfuel; omega⟩
      obtain rfl : depth = 0 := by simpa [closed, opened] using hend.symm
      rw [skipBraces]
      refine (reads_kind (some .curlyClose)).ahead (fun o _ => rfl) ?_
      rintro _ rfl
      refine (reads_advance _).token fun _ _ => ?_
      rw [skipBraces]
      exact Reads.pure trivial
  | cons f fs ih =>
      obtain ⟨fuel, rfl⟩ : ∃ k, fuel = k + 1 := ⟨fuel - 1, by simp at hfuel; omega⟩
      have hfuel' : fs.length + 1 < fuel := by simpa using hfuel
      have hfirst := hearly 1 (by simp)
      have hrest : ∀ n ≤ fs.length, closed (f :: fs.take n) ≤ depth + opened (f :: fs.take n) :=
        fun n hn => hearly (n + 1) (by simpa using hn)
      simp only [closed_cons, opened_cons] at hend hrest
      rw [skipBraces]
      refine (reads_kind (some f.kind)).ahead (fun o _ => rfl) ?_
      rintro _ rfl
      split
      · contradiction
      · rename_i hkind
        have hopen : f.kind = .curlyOpen := by simpa using hkind
        simp only [hopen, if_true, reduceCtorEq, if_false] at hend hrest
        refine (reads_advance _).token fun _ _ => ih (depth + 1) fuel (fun n hn => ?_) ?_ hfuel'
        · have hle := hrest n hn
          omega
        · omega
      · rename_i hkind
        have hclose : f.kind = .curlyClose := by simpa using hkind
        have hpos : 0 < depth := by
          simp [closed, opened, hclose] at hfirst
          omega
        obtain ⟨depth, rfl⟩ : ∃ k, depth = k + 1 := ⟨depth - 1, by omega⟩
        simp only [hclose, if_true, reduceCtorEq, if_false] at hend hrest
        refine (reads_advance _).token fun _ _ => ih depth fuel (fun n hn => ?_) ?_ hfuel'
        · have hle := hrest n hn
          omega
        · omega
      · rename_i hopen hclose hkind
        obtain rfl : f.kind = _ := Option.some.inj hkind
        simp only [show f.kind ≠ .curlyOpen from hopen, show f.kind ≠ .curlyClose from hclose,
          if_false, Nat.add_zero] at hend hrest
        exact (reads_advance _).token fun _ _ => ih depth fuel hrest hend hfuel'

theorem reads_skipExtend (type : String) {body : List Face} (hbody : balanced body = true) :
    Reads skipExtend (spellExtend type body) anything fun _ => True := by
  simp only [balanced, Bool.and_eq_true, List.all_eq_true, List.mem_range, decide_eq_true_eq,
    beq_iff_eq] at hbody
  unfold skipExtend
  refine (reads_expectWord (by simp)).token fun _ _ => ?_
  refine (reads_typeName type).bind (fun _ _ => avoids_mark (by decide) (by decide)) fun _ _ => ?_
  refine (reads_expect rfl).token fun _ _ => ?_
  refine reads_fuelled (p := fun fuel => skipBraces 1 fuel) fun fuel hfuel => ?_
  refine reads_skipBraces body 0 fuel (fun n hn => ?_) (by simpa using hbody.2) (by simpa using hfuel)
  cases n with
  | zero => simp [closed]
  | succ n => simpa using hbody.1 n (by omega)

/-! ## Fields and members -/

/-- The common end of fields and members: a number, options, and the registration
of what was read. -/
theorem reads_numbered {α : Type} {mk : Int → List OptionTree → Nat → α} {P : α → Prop}
    {number : Int} {options : List OptionForm} (first : Nat) (hnumber : InRange number)
    (hoptions : options.all OptionForm.spellable = true)
    (h : ∀ os decl, os.map OptionTree.erase = options.flatMap OptionForm.entries →
      P (mk number os decl)) :
    Reads
      (do let _ ← expect .equal
          let number ← integer
          let options ← bracketOptions
          let _ ← expect .semicolon
          let decl ← declare first
          return mk number options decl)
      (Face.mark .equal ::
        (Face.integer number ++ (spellBrackets options ++ [Face.mark .semicolon]))) anything P := by
  refine (reads_expect rfl).token fun _ _ => ?_
  refine (reads_integer hnumber).bind (fun _ _ => trivial) ?_
  rintro _ rfl
  refine (reads_bracketOptions options (List.all_eq_true.mp hoptions)).bind
    (fun _ _ => avoids_mark (by decide) (by decide)) fun os hos => ?_
  refine (reads_expect rfl).token fun _ _ => ?_
  exact (reads_declare first).andThen fun decl _ => Reads.pure (h os decl hos)

def statementWords : List String :=
  ["option", "message", "enum", "oneof", "reserved", "extensions", "extend"]

theorem head_field (f : FieldForm) (hf : f.spellable = true) :
    ∃ h, f.spelled.head? = some h ∧ h.kind ∈ [TokenKind.dot, .identifier] ∧
      h.isWord statementWords = false := by
  simp only [FieldForm.spellable, Bool.and_eq_true] at hf
  unfold FieldForm.spelled
  cases f.label with
  | none =>
      obtain ⟨h, hh, hk, hw⟩ := head_type f.type hf.1.1
      refine ⟨h, by simp [Label.faces, hh], hk, ?_⟩
      rcases hw with rfl | hw
      · decide
      · exact Face.isWord_eq_false_mono hw (by decide)
  | optional => exact ⟨Face.word "optional", rfl, by decide, by decide⟩
  | required => exact ⟨Face.word "required", rfl, by decide, by decide⟩
  | repeated => exact ⟨Face.word "repeated", rfl, by decide, by decide⟩

theorem reads_field (f : FieldForm) (hf : f.spellable = true) (oneof : Option String) :
    Reads (field oneof) f.spelled anything (·.erase = f.tree oneof) := by
  simp only [FieldForm.spellable, Bool.and_eq_true, decide_eq_true_eq] at hf
  obtain ⟨⟨htype, hnumber⟩, hoptions⟩ := hf
  obtain ⟨h, hh, -, hw⟩ := head_type f.type htype
  unfold field FieldForm.spelled
  refine reads_place.ahead (m := anything) (fun _ _ => trivial) fun first _ => ?_
  refine reads_here.ahead (m := anything) (fun _ _ => trivial) fun position _ => ?_
  refine (reads_label f.label).bind (fun _ _ => ?_) fun label hlabel => ?_
  · simp only [List.head?_append, hh, Option.some_or]
    refine avoids_some.mpr ⟨by simp, ?_⟩
    rcases hw with rfl | hw
    · decide
    · exact Face.isWord_eq_false_mono hw (by decide)
  subst hlabel
  refine (reads_fieldType f.type htype).bind (fun _ _ => avoids_word (by decide) rfl)
    fun type ht => ?_
  subst ht
  refine (reads_identifier f.name).token fun name hname => ?_
  refine reads_numbered first hnumber hoptions fun os decl hos => ?_
  simp [FieldTree.erase, FieldForm.tree, hname, hos]

theorem reads_enumMember (m : MemberForm) (hm : m.spellable = true) :
    Reads enumMember m.spelled anything (·.erase = m.tree) := by
  simp only [MemberForm.spellable, Bool.and_eq_true, decide_eq_true_eq] at hm
  unfold enumMember MemberForm.spelled
  refine reads_place.ahead (m := anything) (fun _ _ => trivial) fun first _ => ?_
  refine (reads_identifier m.name).token fun name hname => ?_
  refine reads_numbered first hm.1.2 hm.2 fun os decl hos => ?_
  simp [MemberTree.erase, MemberForm.tree, hname, hos]

/-! ## Bodies -/

section Bodies

variable {β : Type} {n : Option Face → Prop} {P : β → Prop} {f : Face} {s : List Face}
  {p q : Parser β}

/-- A semicolon is an item of its own. -/
theorem reads_emptyStatement (h : Reads p [] n P) :
    Reads (accept .semicolon >>= fun b => if b = true then p else q) [Face.mark .semicolon] n P := by
  refine (reads_accept rfl).token ?_
  rintro _ rfl
  exact h

/-- What does not start with a semicolon is another item. -/
theorem reads_otherStatement (hs : s.head? = some f) (hf : f.kind ≠ .semicolon) (h : Reads q s n P) :
    Reads (accept .semicolon >>= fun b => if b = true then p else q) s n P := by
  refine reads_accept_none.ahead (fun o _ => ?_) ?_
  · rw [hs, Option.some_or]
    exact avoids_of_kind (by simpa using hf)
  · rintro _ rfl
    exact h

/-- An option is an item of every body. -/
theorem reads_optionItem {other : Bool → Parser β} (hs : s.head? = some (Face.word "option"))
    (h : Reads (other true) s n P) :
    Reads (accept .semicolon >>= fun b => if b = true then p else isWord ["option"] >>= other)
      s n P :=
  reads_otherStatement hs (by decide) (Reads.askWord true hs rfl h)

/-- A declaration with a body: a word, a name, the items in braces, and the
registration of what was read. -/
theorem reads_declaration {γ : Type} {mk : Token → Token → List β → Nat → γ} {Q : List β → Prop}
    {R : γ → Prop} (word name : String) (hbody : Reads (upTo .curlyClose p) s anything Q)
    (h : ∀ w t items decl, t.value = name → Q items → R (mk w t items decl)) :
    Reads
      (do let first ← place
          let w ← expectWord [word]
          let t ← identifier
          let _ ← expect .curlyOpen
          let items ← upTo .curlyClose p
          let decl ← declare first
          return mk w t items decl)
      (Face.word word :: Face.word name :: Face.mark .curlyOpen :: s) anything R := by
  refine reads_place.ahead (m := anything) (fun _ _ => trivial) fun first _ => ?_
  refine (reads_expectWord (by simp)).token fun w _ => ?_
  refine (reads_identifier name).token fun t ht => ?_
  refine (reads_expect rfl).token fun _ _ => ?_
  refine hbody.andThen fun items hitems => ?_
  exact (reads_declare first).andThen fun decl _ => Reads.pure (h w t items decl ht hitems)

end Bodies

def BodyItem.erase {β : Type} (e : β → β) : BodyItem β → BodyItem β
  | .nothing => .nothing
  | .options os => .options (os.map OptionTree.erase)
  | .element a => .element (e a)

def BodyForm.item {α β : Type} (tree : α → β) : BodyForm α → BodyItem β
  | .option o => .options o.entries
  | .element a => .element (tree a)
  | _ => .nothing

section BodyItems

variable {α β : Type} {e : β → β} {tree : α → β} {items : List (BodyItem β)}
  {forms : List (BodyForm α)}

theorem map_elements (e : β → β) (items : List (BodyItem β)) :
    (BodyItem.elements items).map e = BodyItem.elements (items.map (BodyItem.erase e)) := by
  simp only [BodyItem.elements, List.map_filterMap, List.filterMap_map]
  congr
  funext i
  cases i <;> rfl

theorem map_allOptions (e : β → β) (items : List (BodyItem β)) :
    (BodyItem.allOptions items).map OptionTree.erase =
      BodyItem.allOptions (items.map (BodyItem.erase e)) := by
  simp only [BodyItem.allOptions, List.map_flatMap, List.flatMap_map]
  congr
  funext i
  cases i <;> rfl

theorem elements_of_items (h : items.map (BodyItem.erase e) = forms.map (BodyForm.item tree)) :
    (BodyItem.elements items).map e = (forms.filterMap BodyForm.element?).map tree := by
  rw [map_elements, h]
  simp only [BodyItem.elements, List.map_filterMap, List.filterMap_map]
  congr
  funext i
  cases i <;> rfl

theorem allOptions_of_items (h : items.map (BodyItem.erase e) = forms.map (BodyForm.item tree)) :
    (BodyItem.allOptions items).map OptionTree.erase = forms.flatMap BodyForm.entries := by
  rw [map_allOptions e, h]
  simp only [BodyItem.allOptions, List.flatMap_map]
  congr
  funext i
  cases i <;> rfl

end BodyItems

theorem reads_oneofItem (name : String) (i : BodyForm FieldForm)
    (hi : i.spellable [] FieldForm.spellable = true) :
    Reads (oneofItem name) (i.spelled FieldForm.spelled) anything
      fun f => f.map FieldTree.erase = i.element?.map (FieldForm.tree (some name)) := by
  unfold oneofItem
  cases i with
  | empty => exact reads_emptyStatement (Reads.pure rfl)
  | option o =>
      refine reads_optionItem rfl ?_
      exact (reads_optionStatement o hi).andThen fun _ _ => Reads.pure rfl
  | skipped word body => simp [BodyForm.spellable] at hi
  | element f =>
      obtain ⟨h, hh, hk, hw⟩ := head_field f hi
      refine reads_otherStatement hh (fun heq => by simp [heq] at hk) ?_
      refine Reads.askWord false hh (Face.isWord_eq_false_mono hw (by decide)) ?_
      exact (reads_field f hi (some name)).andThen fun t ht => Reads.pure (congrArg some ht)

theorem head_bodyForm {α : Type} {spell : α → List Face} {words : List String} {p : α → Bool}
    (hspell : ∀ a, p a = true → ∃ f, (spell a).head? = some f ∧ f.kind ≠ .curlyClose)
    (i : BodyForm α) (hi : i.spellable words p = true) :
    ∃ f, (i.spelled spell).head? = some f ∧ f.kind ≠ .curlyClose := by
  cases i with
  | empty => exact ⟨Face.mark .semicolon, rfl, by decide⟩
  | option o => exact ⟨Face.word "option", rfl, by decide⟩
  | skipped word body => exact ⟨Face.word word, rfl, by simp⟩
  | element a => exact hspell a hi

/-- The items of a body up to its closing brace, when nothing limits what may
follow an item. -/
theorem reads_body {α β γ : Type} {item : Parser β} {spell : α → List Face}
    {words : List String} {p : α → Bool} {e : β → γ} {y : BodyForm α → γ}
    (hspell : ∀ a, p a = true → ∃ f, (spell a).head? = some f ∧ f.kind ≠ .curlyClose)
    (hitem : ∀ i : BodyForm α, i.spellable words p = true →
      Reads item (i.spelled spell) anything fun b => e b = y i)
    (items : List (BodyForm α)) (hitems : items.all (BodyForm.spellable words p) = true) :
    Reads (upTo .curlyClose item)
      (items.flatMap (BodyForm.spelled spell) ++ [Face.mark .curlyClose]) anything
      fun bs => bs.map e = items.map y := by
  refine reads_upTo (m := anything) items trivial fun i hi => ?_
  have hok := List.all_eq_true.mp hitems i hi
  obtain ⟨f, hf, hk⟩ := head_bodyForm hspell i hok
  exact ⟨hitem i hok, f, hf, by simpa using hk, trivial⟩

theorem reads_oneof (c : OneofForm) (hc : c.spellable = true) :
    Reads oneof c.spelled anything fun fs => fs.map FieldTree.erase = c.fields := by
  unfold oneof OneofForm.spelled
  refine (reads_expectWord (by simp)).token fun _ _ => ?_
  refine (reads_identifier c.name).token fun name hname => ?_
  refine (reads_expect rfl).token fun _ _ => ?_
  refine (reads_body (fun f hf => ?_) (reads_oneofItem name.value) c.items hc).andThen
    fun items hitems => Reads.pure ?_
  · obtain ⟨h, hh, hk, -⟩ := head_field f hf
    exact ⟨h, hh, fun heq => by simp [heq] at hk⟩
  · have hfields : (items.reduceOption).map FieldTree.erase =
        (items.map (Option.map FieldTree.erase)).filterMap id := by
      simp only [List.reduceOption, List.map_filterMap, List.filterMap_map]
      rfl
    rw [hfields, hitems, hname, OneofForm.fields, List.map_filterMap, List.filterMap_map]
    rfl

theorem reads_enumItem (i : BodyForm MemberForm)
    (hi : i.spellable ["reserved"] MemberForm.spellable = true) :
    Reads enumItem (i.spelled MemberForm.spelled) anything
      fun b => b.erase MemberTree.erase = i.item MemberForm.tree := by
  unfold enumItem
  cases i with
  | empty => exact reads_emptyStatement (Reads.pure rfl)
  | option o =>
      refine reads_optionItem rfl ?_
      refine (reads_optionStatement o hi).andThen fun os hos => Reads.pure ?_
      exact congrArg BodyItem.options hos
  | skipped word body =>
      simp only [BodyForm.spellable, Bool.and_eq_true, List.contains_eq_mem, List.mem_singleton,
        decide_eq_true_eq] at hi
      obtain ⟨rfl, hbody⟩ := hi
      refine reads_otherStatement (f := Face.word "reserved") rfl (by decide) ?_
      refine Reads.askWord false rfl rfl ?_
      refine Reads.askWord true rfl rfl ?_
      exact (reads_skipStatement hbody).andThen fun _ _ => Reads.pure rfl
  | element m =>
      have hname : m.name ≠ "option" ∧ m.name ≠ "reserved" := by
        simp only [BodyForm.spellable, MemberForm.spellable, Bool.and_eq_true, Bool.not_eq_true',
          List.contains_eq_mem, decide_eq_false_iff_not, List.mem_cons, not_or] at hi
        exact ⟨hi.1.1.1, hi.1.1.2.1⟩
      refine reads_otherStatement (f := Face.word m.name) rfl (by simp) ?_
      refine Reads.askWord false rfl (by simpa using hname.1) ?_
      refine Reads.askWord false rfl (by simpa using hname.2) ?_
      refine (reads_enumMember m hi).andThen fun t ht => Reads.pure ?_
      exact congrArg BodyItem.element ht

theorem reads_enumDefinition (e : EnumForm) (he : e.spellable = true) :
    Reads enumDefinition e.spelled anything (·.erase = e.tree) := by
  unfold enumDefinition EnumForm.spelled
  have hbody := reads_body (fun m _ => ⟨Face.word m.name, rfl, by simp⟩) reads_enumItem e.items he
  refine reads_declaration "enum" e.name hbody fun word name items decl hname hitems => ?_
  simp [EnumTree.erase, EnumForm.tree, hname, elements_of_items hitems,
    allOptions_of_items hitems]

/-! ## Messages -/

def MessageItem.erase : MessageItem → MessageItem
  | .nothing => .nothing
  | .options os => .options (os.map OptionTree.erase)
  | .fields fs => .fields (fs.map FieldTree.erase)
  | .message m => .message m.erase
  | .enum e => .enum e.erase

def ItemForm.item : ItemForm → MessageItem
  | .option o => .options o.entries
  | .field f => .fields [f.tree none]
  | .oneof c => .fields c.fields
  | .enum e => .enum e.tree
  | .message name items => .message (messageOf name items)
  | _ => .nothing

theorem eraseMessages_eq (ms : List MessageTree) : eraseMessages ms = ms.map MessageTree.erase := by
  induction ms with
  | nil => rfl
  | cons m ms ih => simp [eraseMessages, ih]

theorem messagesOf_eq (items : List ItemForm) :
    messagesOf items = items.filterMap ItemForm.message? := by
  induction items with
  | nil => rfl
  | cons i is ih => cases h : i.message? <;> simp [messagesOf, ih, h]

theorem erase_ofItems (origin : Origin) (name : String) (items : List MessageItem) :
    (MessageTree.ofItems origin name items).erase =
      MessageTree.ofItems {} name (items.map MessageItem.erase) := by
  simp only [MessageTree.ofItems, MessageTree.erase, eraseMessages_eq, List.map_flatMap,
    List.map_filterMap, List.flatMap_map, List.filterMap_map]
  congr <;> funext i <;> cases i <;> rfl

theorem ofItems_erase {items : List MessageItem} {forms : List ItemForm} (origin : Origin)
    (name : String) (h : items.map MessageItem.erase = forms.map ItemForm.item) :
    (MessageTree.ofItems origin name items).erase = messageOf name forms := by
  rw [erase_ofItems, h]
  simp only [MessageTree.ofItems, messageOf, messagesOf_eq, List.flatMap_map, List.filterMap_map,
    MessageTree.mk.injEq, true_and]
  refine ⟨?_, ?_, ?_, ?_⟩
  · congr
    funext i
    cases i <;> rfl
  · congr 1
    funext i
    cases i <;> simp [ItemForm.item, ItemForm.message?, messageOf]
  · congr
    funext i
    cases i <;> rfl
  · congr
    funext i
    cases i <;> rfl

theorem spellItems_eq (items : List ItemForm) : spellItems items = items.flatMap ItemForm.spelled := by
  induction items with
  | nil => rfl
  | cons i is ih => simp [spellItems, ih]

theorem spellableItems_eq (items : List ItemForm) :
    spellableItems items = items.all ItemForm.spellable := by
  induction items with
  | nil => rfl
  | cons i is ih => simp [spellableItems, ih]

theorem head_item (i : ItemForm) (hi : i.spellable = true) :
    ∃ f, i.spelled.head? = some f ∧ f.kind ≠ .curlyClose := by
  cases i with
  | empty => exact ⟨Face.mark .semicolon, rfl, by decide⟩
  | option o => exact ⟨Face.word "option", rfl, by decide⟩
  | skipped word body => exact ⟨Face.word word, rfl, by simp⟩
  | extend type body => exact ⟨Face.word "extend", rfl, by decide⟩
  | field f =>
      obtain ⟨h, hh, hk, -⟩ := head_field f hi
      exact ⟨h, hh, fun heq => by simp [heq] at hk⟩
  | oneof c => exact ⟨Face.word "oneof", rfl, by decide⟩
  | enum e => exact ⟨Face.word "enum", rfl, by decide⟩
  | message name items => exact ⟨Face.word "message", rfl, by decide⟩

/-- The items of a message by the words that open them. All others are fields. -/
def messageStatements (nested : Parser MessageTree) : List (List String × Parser MessageItem) :=
  [(["option"], do return .options (← optionStatement)),
   (["message"], do return .message (← nested)),
   (["enum"], do return .enum (← enumDefinition)),
   (["oneof"], do return .fields (← oneof)),
   (["reserved", "extensions"], do skipStatement; return .nothing),
   (["extend"], do skipExtend; return .nothing)]

theorem messageItem_eq (nested : Parser MessageTree) : messageItem nested =
    (accept .semicolon >>= fun b => if b = true then pure .nothing else
      Parser.byWord (do return .fields [← field none]) (messageStatements nested)) := rfl

theorem words_messageStatements {nested : Parser MessageTree}
    {production : List String × Parser MessageItem}
    (h : production ∈ messageStatements nested) : ∀ w ∈ production.1, w ∈ statementWords := by
  -- The words are the same ones for every parser of nested messages.
  have hall : ∀ words ∈ (messageStatements illegal).map Prod.fst, ∀ w ∈ words,
      w ∈ statementWords := by decide
  have hwords : production.1 ∈ (messageStatements nested).map Prod.fst := List.mem_map_of_mem h
  exact hall production.1 hwords

/-- An item that opens with its word is read as that word says. -/
theorem reads_messageStatement {nested : Parser MessageTree} {w : String} {words : List String}
    {p : Parser MessageItem} {s : List Face} {P : MessageItem → Prop}
    (hlisted : (messageStatements nested).find?
      (fun production => (Face.word w).isWord production.1) = some (words, p))
    (h : Reads p (Face.word w :: s) anything P) :
    Reads (messageItem nested) (Face.word w :: s) anything P := by
  rw [messageItem_eq]
  exact reads_otherStatement rfl (by simp) (Reads.byWord rfl hlisted h)

/-- The two words for what is skipped open the same statement. -/
theorem find?_skipped {nested : Parser MessageTree} {word : String}
    (h : word ∈ ["reserved", "extensions"]) :
    (messageStatements nested).find? (fun production => (Face.word word).isWord production.1) =
      some (["reserved", "extensions"], do skipStatement; return .nothing) := by
  rcases List.mem_cons.mp h with rfl | h
  · rfl
  · obtain rfl := List.mem_singleton.mp h
    rfl

theorem reads_messageItem {nested : Parser MessageTree} (i : ItemForm) (hi : i.spellable = true)
    (hnested : ∀ name items, i = .message name items →
      Reads nested i.spelled anything (·.erase = messageOf name items)) :
    Reads (messageItem nested) i.spelled anything (·.erase = i.item) := by
  cases i with
  | empty =>
      rw [messageItem_eq]
      exact reads_emptyStatement (Reads.pure rfl)
  | option o =>
      refine reads_messageStatement rfl ((reads_optionStatement o hi).andThen fun os hos => ?_)
      exact Reads.pure (congrArg MessageItem.options hos)
  | skipped word body =>
      simp only [ItemForm.spellable, Bool.and_eq_true, List.contains_eq_mem,
        decide_eq_true_eq] at hi
      obtain ⟨hword, hbody⟩ := hi
      refine reads_messageStatement (find?_skipped hword) ?_
      exact (reads_skipStatement hbody).andThen fun _ _ => Reads.pure rfl
  | extend type body =>
      refine reads_messageStatement rfl ((reads_skipExtend type hi).andThen fun _ _ => ?_)
      exact Reads.pure rfl
  | field f =>
      obtain ⟨h, hh, hk, hw⟩ := head_field f hi
      have hnone : ∀ production ∈ messageStatements nested, h.isWord production.1 = false :=
        fun production hlisted => Face.isWord_eq_false_mono hw (words_messageStatements hlisted)
      rw [messageItem_eq]
      refine reads_otherStatement hh (fun heq => by simp [heq] at hk) ?_
      refine Reads.byWord_none hh hnone ?_
      refine (reads_field f hi none).andThen fun t ht => Reads.pure ?_
      simp [MessageItem.erase, ItemForm.item, ht]
  | oneof c =>
      refine reads_messageStatement rfl ((reads_oneof c hi).andThen fun fs hfs => ?_)
      exact Reads.pure (congrArg MessageItem.fields hfs)
  | enum e =>
      refine reads_messageStatement rfl ((reads_enumDefinition e hi).andThen fun t ht => ?_)
      exact Reads.pure (congrArg MessageItem.enum ht)
  | message name items =>
      refine reads_messageStatement rfl ((hnested name items rfl).andThen fun m hm => ?_)
      exact Reads.pure (congrArg MessageItem.message hm)

theorem reads_messageAux (fuel : Nat) (name : String) (items : List ItemForm)
    (hitems : spellableItems items = true)
    (hfuel : (ItemForm.message name items).spelled.length < fuel) :
    Reads (messageAux fuel) (ItemForm.message name items).spelled anything
      (·.erase = messageOf name items) := by
  induction fuel generalizing name items with
  | zero => omega
  | succ fuel ih =>
      have hall : ∀ i ∈ items, i.spellable = true := by
        rwa [spellableItems_eq, List.all_eq_true] at hitems
      simp only [ItemForm.spelled, spellItems_eq, List.length_cons, List.length_append]
        at hfuel ⊢
      rw [messageAux]
      refine reads_declaration "message" name (reads_upTo (m := anything) (e := MessageItem.erase)
        (y := ItemForm.item) items trivial fun i hi => ?_) fun word t read decl ht hread => ?_
      · obtain ⟨f, hf, hk⟩ := head_item i (hall i hi)
        refine ⟨reads_messageItem i (hall i hi) ?_, f, hf, by simpa using hk, trivial⟩
        rintro name' items' rfl
        have hle := length_le_flatMap_of_mem ItemForm.spelled hi
        exact ih name' items' (by simpa [ItemForm.spellable] using hall _ hi) (by omega)
      · rw [ht]
        exact ofItems_erase _ name hread

/-- The tokens left are fuel enough for a message. -/
theorem reads_message (name : String) (items : List ItemForm)
    (hitems : spellableItems items = true) :
    Reads message (ItemForm.message name items).spelled anything
      (·.erase = messageOf name items) :=
  reads_fuelled fun fuel => reads_messageAux fuel name items hitems

/-! ## Services -/

theorem reads_rpcEnd (e : EndTree) (he : e.plain = true) :
    Reads rpcEnd e.spelled anything (· = e) := by
  obtain ⟨name, stream⟩ := e
  have hname : firstComponent name ∉ ["stream"] := by simpa [EndTree.plain] using he
  obtain ⟨f, hf, hw, hk⟩ := head_typeName hname
  have htail : ∀ stream : Bool, Reads (do
        let name ← typeName
        let _ ← expect .parenClose
        return { name, stream }) (spellTypeName name ++ [Face.mark .parenClose]) anything
      (· = ({ name, stream } : EndTree)) := by
    intro stream
    refine (reads_typeName name).bind (fun _ _ => avoids_mark (by decide) (by decide)) ?_
    rintro _ rfl
    exact (reads_expect rfl).token fun _ _ => Reads.pure rfl
  unfold rpcEnd EndTree.spelled
  refine (reads_expect rfl).token fun _ _ => ?_
  cases stream with
  | true =>
      refine Reads.lookAhead true (fun c after hc => ?_) ?_
      · have hnext := Cursor.any_peekAt c 1 (· != .parenClose)
        obtain ⟨g, gs, hg⟩ : ∃ g gs, spellTypeName name = g :: gs := by
          cases hs : spellTypeName name with
          | nil => simp [hs] at hf
          | cons g gs => exact ⟨g, gs, rfl⟩
        obtain rfl : g = f := by simpa [hg] using hf
        have hclose : g.kind ≠ .parenClose := fun h => by simp [h] at hk
        simp only [hc, hg] at hnext
        simp [Cursor.isWord_eq, hc, hnext, hclose]
      · exact (reads_advance _).token fun _ _ => htail true
  | false =>
      refine Reads.lookAhead false (fun c after hc => ?_) (htail false)
      have hhead : c.faces.head? = some f := by simp [hc, hf]
      simp [Cursor.isWord_eq, hhead, hw]

theorem reads_rpcItem (i : BodyForm Empty) (hi : i.spellable [] (fun _ => true) = true) :
    Reads rpcItem (i.spelled fun _ => []) anything
      fun os => os.map OptionTree.erase = i.entries := by
  unfold rpcItem
  cases i with
  | empty => exact reads_emptyStatement (Reads.pure rfl)
  | option o =>
      exact reads_optionItem rfl (reads_optionStatement o hi)
  | skipped word body => simp [BodyForm.spellable] at hi
  | element a => exact a.elim

/-- The items in the braces of a remote procedure. -/
theorem reads_rpcItems (items : List (BodyForm Empty))
    (hitems : items.all (BodyForm.spellable [] fun _ => true) = true) :
    Reads (upTo .curlyClose rpcItem)
      (items.flatMap (BodyForm.spelled fun _ => []) ++ [Face.mark .curlyClose]) anything
      fun os => os.flatten.map OptionTree.erase = items.flatMap BodyForm.entries := by
  refine (reads_body (fun a _ => a.elim) reads_rpcItem items hitems).imp fun os hos => ?_
  rw [List.map_flatten, hos, List.flatMap_def]

/-- Without braces a remote procedure ends with its semicolon. -/
theorem reads_rpcBody_none :
    ReadsEntries rpcBody (RpcForm.spellBody none) anything [] := by
  unfold rpcBody
  refine reads_accept_none.ahead (fun _ _ => avoids_mark (by decide) (by decide)) ?_
  rintro _ rfl
  exact (reads_expect rfl).token fun _ _ => Reads.pure rfl

/-- After braces a semicolon is taken if there is one. -/
theorem reads_rpcBody_some (items : List (BodyForm Empty))
    (hitems : items.all (BodyForm.spellable [] fun _ => true) = true) :
    ReadsEntries rpcBody (RpcForm.spellBody (some items)) (avoids [.semicolon] [])
        (items.flatMap BodyForm.entries) ∧
      ReadsEntries rpcBody (RpcForm.spellBody (some items) ++ [Face.mark .semicolon]) anything
        (items.flatMap BodyForm.entries) := by
  unfold rpcBody RpcForm.spellBody
  constructor
  · refine (reads_accept rfl).token ?_
    rintro _ rfl
    refine ((reads_rpcItems items hitems).mono (fun _ _ => trivial) fun _ h => h).andThen
      fun os hos => ?_
    exact reads_accept_none.andThen fun _ _ => Reads.pure hos
  · refine (reads_accept rfl).token ?_
    rintro _ rfl
    refine (reads_rpcItems items hitems).bind (fun _ _ => trivial) fun os hos => ?_
    exact (reads_accept rfl).token fun _ _ => Reads.pure hos

theorem reads_rpc {n : Option Face → Prop} (r : RpcForm) (hr : r.spellable = true)
    (extra : List Face)
    (hbody : ReadsEntries rpcBody (RpcForm.spellBody r.body ++ extra) n r.tree.options) :
    Reads rpc (r.spelled ++ extra) n (·.erase = r.tree) := by
  simp only [RpcForm.spellable, Bool.and_eq_true] at hr
  unfold rpc
  rw [RpcForm.spelled]
  simp only [List.cons_append, List.append_assoc]
  refine reads_place.ahead (m := anything) (fun _ _ => trivial) fun first _ => ?_
  refine (reads_expectWord (by simp)).token fun word _ => ?_
  refine (reads_identifier r.name).token fun name hname => ?_
  refine (reads_rpcEnd r.request hr.1.1).bind (fun _ _ => trivial) ?_
  rintro _ rfl
  refine (reads_expectWord (by simp)).token fun _ _ => ?_
  refine (reads_rpcEnd r.response hr.1.2).bind (fun _ _ => trivial) ?_
  rintro _ rfl
  refine hbody.andThen fun os hos => ?_
  refine (reads_declare first).andThen fun decl _ => Reads.pure ?_
  simp only [RpcTree.erase, hname, hos]
  rfl

/-- A remote procedure as an item of a service. -/
theorem reads_serviceItem_rpc {n : Option Face → Prop} {r : RpcForm} {extra : List Face}
    (hr : r.spellable = true)
    (hbody : ReadsEntries rpcBody (RpcForm.spellBody r.body ++ extra) n r.tree.options) :
    Reads serviceItem (r.spelled ++ extra) n (·.erase RpcTree.erase = .element r.tree) := by
  unfold serviceItem
  refine reads_otherStatement (f := Face.word "rpc") rfl (by decide) ?_
  refine Reads.askWord false rfl rfl ?_
  refine Reads.askWord true rfl rfl ?_
  exact (reads_rpc r hr extra hbody).andThen fun t ht => Reads.pure (congrArg BodyItem.element ht)

/-- Whether an item of a service ends with a brace. -/
def endsWithBrace : BodyForm RpcForm → Bool
  | .element r => r.body.isSome
  | _ => false

theorem reads_serviceItem (i : BodyForm RpcForm) (hi : i.spellable [] RpcForm.spellable = true)
    (hend : endsWithBrace i = false) :
    Reads serviceItem (i.spelled RpcForm.spelled) anything
      (·.erase RpcTree.erase = i.item RpcForm.tree) := by
  cases i with
  | empty => exact reads_emptyStatement (Reads.pure rfl)
  | option o =>
      refine reads_optionItem rfl ?_
      refine (reads_optionStatement o hi).andThen fun os hos => Reads.pure ?_
      exact congrArg BodyItem.options hos
  | skipped word body => simp [BodyForm.spellable] at hi
  | element r =>
      have hbody : r.body = none := by simpa [endsWithBrace] using hend
      have hread : ReadsEntries rpcBody (RpcForm.spellBody r.body ++ []) anything
          r.tree.options := by
        simpa [hbody, RpcForm.tree] using reads_rpcBody_none
      simpa [BodyForm.spelled, BodyForm.item] using reads_serviceItem_rpc hi hread

/-- An item that ends with a brace is read without and with a semicolon after it. -/
theorem reads_serviceItem_brace (i : BodyForm RpcForm)
    (hi : i.spellable [] RpcForm.spellable = true) (hend : endsWithBrace i = true) :
    Reads serviceItem (i.spelled RpcForm.spelled) (avoids [.semicolon] [])
        (·.erase RpcTree.erase = i.item RpcForm.tree) ∧
      Reads serviceItem (i.spelled RpcForm.spelled ++ [Face.mark .semicolon]) anything
        (·.erase RpcTree.erase = i.item RpcForm.tree) := by
  cases i with
  | empty => simp [endsWithBrace] at hend
  | option o => simp [endsWithBrace] at hend
  | skipped word body => simp [endsWithBrace] at hend
  | element r =>
      obtain ⟨items, hbody⟩ := Option.isSome_iff_exists.mp hend
      have hitems : items.all (BodyForm.spellable [] fun _ => true) = true := by
        simp only [BodyForm.spellable, RpcForm.spellable, Bool.and_eq_true, hbody,
          Option.getD_some] at hi
        exact hi.2
      have hoptions : r.tree.options = items.flatMap BodyForm.entries := by
        simp [RpcForm.tree, hbody]
      obtain ⟨hopen, hclosed⟩ := reads_rpcBody_some items hitems
      rw [← hbody, ← hoptions] at hopen hclosed
      refine ⟨?_, reads_serviceItem_rpc hi hclosed⟩
      rw [← List.append_nil (RpcForm.spellBody r.body)] at hopen
      simpa [BodyForm.spelled, BodyForm.item] using reads_serviceItem_rpc hi hopen

/-- What the items of a service are read into. An empty statement after a remote
procedure in braces is read with it, so there may be fewer items than written. -/
def ServiceItems (forms : List (BodyForm RpcForm)) (items : List (BodyItem RpcTree)) : Prop :=
  (BodyItem.elements items).map RpcTree.erase =
      (forms.filterMap BodyForm.element?).map RpcForm.tree ∧
    (BodyItem.allOptions items).map OptionTree.erase = forms.flatMap BodyForm.entries

theorem ServiceItems.cons {i : BodyForm RpcForm} {forms : List (BodyForm RpcForm)}
    {b : BodyItem RpcTree} {items : List (BodyItem RpcTree)}
    (hb : b.erase RpcTree.erase = i.item RpcForm.tree) (h : ServiceItems forms items) :
    ServiceItems (i :: forms) (b :: items) := by
  have hone : [b].map (BodyItem.erase RpcTree.erase) = [i].map (BodyForm.item RpcForm.tree) := by
    simp [hb]
  have helement := elements_of_items hone
  have hoptions := allOptions_of_items hone
  obtain ⟨helements, hall⟩ := h
  constructor
  · rw [← List.singleton_append (l := items), ← List.singleton_append (l := forms),
      BodyItem.elements, List.filterMap_append, List.map_append, List.filterMap_append,
      List.map_append]
    exact congr (congrArg _ helement) helements
  · rw [← List.singleton_append (l := items), ← List.singleton_append (l := forms),
      BodyItem.allOptions, List.flatMap_append, List.map_append, List.flatMap_append]
    exact congr (congrArg _ hoptions) hall

/-- An empty statement adds nothing. -/
theorem ServiceItems.skipEmpty {i : BodyForm RpcForm} {forms : List (BodyForm RpcForm)}
    {items : List (BodyItem RpcTree)} (h : ServiceItems (i :: forms) items) :
    ServiceItems (i :: .empty :: forms) items := by
  have helements : (i :: .empty :: forms).filterMap BodyForm.element? =
      (i :: forms).filterMap BodyForm.element? := by
    cases i <;> rfl
  simpa only [ServiceItems, helements, List.flatMap_cons, BodyForm.entries, List.nil_append] using h

theorem head_serviceItem (i : BodyForm RpcForm) :
    ∃ f, (i.spelled RpcForm.spelled).head? = some f ∧ f.kind ≠ .curlyClose ∧
      (i ≠ .empty → f.kind = .identifier) := by
  cases i with
  | empty => exact ⟨Face.mark .semicolon, rfl, by decide, fun h => absurd rfl h⟩
  | option o => exact ⟨Face.word "option", rfl, by decide, fun _ => rfl⟩
  | skipped word body => exact ⟨Face.word word, rfl, by simp, fun _ => rfl⟩
  | element r => exact ⟨Face.word "rpc", rfl, by decide, fun _ => rfl⟩

/-- One turn of the loop over the items of a service. -/
theorem reads_serviceItems_step {fuel : Nat} {m : Option Face → Prop} {s t : List Face}
    {i : BodyForm RpcForm} {forms : List (BodyForm RpcForm)}
    (hstart : ∃ f, s.head? = some f ∧ f.kind ≠ .curlyClose)
    (hitem : Reads serviceItem s m (·.erase RpcTree.erase = i.item RpcForm.tree))
    (hm : m (t.head?.or (some (Face.mark .curlyClose))))
    (hrest : Reads (whileAux (fun c => !c.is .curlyClose) serviceItem fuel) t
      (· = some (Face.mark .curlyClose)) (ServiceItems forms)) :
    Reads (whileAux (fun c => !c.is .curlyClose) serviceItem (fuel + 1)) (s ++ t)
      (· = some (Face.mark .curlyClose)) (ServiceItems (i :: forms)) := by
  obtain ⟨f, hf, hk⟩ := hstart
  refine (reads_whileAux_step (g := fun o => !o.any fun f => f.kind == .curlyClose) (fun c => ?_)
    ⟨f, hf, by simpa using hk⟩ hitem ?_ hrest).imp ?_
  · rw [Cursor.is_eq]
  · rintro _ rfl
    exact hm
  · rintro _ ⟨b, bs, rfl, hb, hbs⟩
    exact hbs.cons hb

theorem reads_serviceItems (fuel : Nat) (forms : List (BodyForm RpcForm))
    (hforms : ∀ i ∈ forms, i.spellable [] RpcForm.spellable = true)
    (hfuel : forms.length < fuel) :
    Reads (whileAux (fun c => !c.is .curlyClose) serviceItem fuel)
      (forms.flatMap (BodyForm.spelled RpcForm.spelled)) (· = some (Face.mark .curlyClose))
      (ServiceItems forms) := by
  -- The induction is on the fuel because one turn of the loop may read two items.
  induction fuel generalizing forms with
  | zero => omega
  | succ fuel ih =>
      cases forms with
      | nil =>
          refine (reads_whileAux_stop (g := fun o => !o.any fun f => f.kind == .curlyClose)
            (fun c => by rw [Cursor.is_eq]) ?_ fuel).imp ?_
          · rintro _ rfl
            rfl
          · rintro _ rfl
            exact ⟨rfl, rfl⟩
      | cons i rest =>
          have hi := hforms i (by simp)
          obtain ⟨f, hf, hk, -⟩ := head_serviceItem i
          have hrest := ih rest (fun j hj => hforms j (by simp [hj])) (by simpa using hfuel)
          rw [List.flatMap_cons]
          cases hend : endsWithBrace i with
          | false =>
              exact reads_serviceItems_step ⟨f, hf, hk⟩ (reads_serviceItem i hi hend) trivial hrest
          | true =>
              obtain ⟨hopen, hclosed⟩ := reads_serviceItem_brace i hi hend
              cases rest with
              | nil =>
                  exact reads_serviceItems_step ⟨f, hf, hk⟩ hopen
                    (avoids_mark (by decide) (by decide)) hrest
              | cons j rest =>
                  by_cases hempty : j = .empty
                  · subst hempty
                    have hrest' := ih rest (fun j hj => hforms j (by simp [hj]))
                      (by simp at hfuel; omega)
                    rw [List.flatMap_cons, BodyForm.spelled, ← List.append_assoc]
                    exact (reads_serviceItems_step ⟨f, by simp [hf], hk⟩ hclosed trivial
                      hrest').imp fun _ h => h.skipEmpty
                  · obtain ⟨g, hg, -, hword⟩ := head_serviceItem j
                    refine reads_serviceItems_step ⟨f, hf, hk⟩ hopen ?_ hrest
                    rw [List.flatMap_cons, List.head?_append, hg]
                    exact avoids_of_kind (by simp [hword hempty])

theorem reads_serviceDefinition (s : ServiceForm) (hs : s.spellable = true) :
    Reads serviceDefinition s.spelled anything (·.erase = s.tree) := by
  unfold serviceDefinition ServiceForm.spelled
  have hcount : s.items.length ≤
      (s.items.flatMap (BodyForm.spelled RpcForm.spelled)).length := by
    refine length_le_flatMap fun i _ => ?_
    obtain ⟨f, hf, -⟩ := head_serviceItem i
    exact length_pos_of_head hf
  have hbody := reads_upTo_of_loop fun fuel hfuel =>
    reads_serviceItems fuel s.items (List.all_eq_true.mp hs) (by omega)
  refine reads_declaration "service" s.name hbody fun word name items decl hname hitems => ?_
  obtain ⟨hrpcs, hoptions⟩ := hitems
  simp [ServiceTree.erase, ServiceForm.tree, hname, hrpcs, hoptions]

end Proto
end ClientGen
