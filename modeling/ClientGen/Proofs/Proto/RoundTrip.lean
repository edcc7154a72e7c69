import ClientGen.Proofs.Proto.Reading

/-! # Parsing undoes spelling

The parser reads every written Protobuf file back into the tree that it stands
for. Every tree that the grammar can express has a written form, and all of its
forms are read alike.
-/

namespace ClientGen
namespace Proto

open Source
open Source.Parser

/-! ## Files -/

theorem reads_modifier (m : Modifier) :
    Reads modifier m.faces (avoids [] ["weak", "public"]) (· = m) := by
  unfold modifier
  cases m with
  | plain =>
      refine reads_acceptWord_none.ahead (fun _ h => h) ?_
      rintro _ rfl
      exact Reads.pure rfl
  | weak =>
      refine (reads_acceptWord rfl).token ?_
      rintro _ rfl
      exact Reads.pure rfl
  | reexported =>
      refine (reads_acceptWord rfl).token ?_
      rintro _ rfl
      exact Reads.pure rfl

theorem reads_importStatement (m : Modifier) (path : String) :
    Reads importStatement (FileForm.imported m path).spelled anything
      (·.erase = { modifier := m, path }) := by
  unfold importStatement
  refine (reads_expectWord (by simp)).token fun word _ => ?_
  refine (reads_modifier m).bind (fun _ _ => ?_) ?_
  · exact avoids_some.mpr ⟨by simp, Face.isWord_eq_false_of_kind (by simp) _⟩
  rintro _ rfl
  refine (reads_text path).token fun t ht => ?_
  refine (reads_expect rfl).token fun _ _ => Reads.pure ?_
  simp [ImportTree.erase, ht]

def FileItem.erase : FileItem → FileItem
  | .imported i => .imported i.erase
  | .options os => .options (os.map OptionTree.erase)
  | .definition d => .definition d.erase
  | i => i

def FileForm.item : FileForm → FileItem
  | .option o => .options o.entries
  | .edition _ name => .edition name
  | .package name => .package name
  | .imported modifier path => .imported { modifier, path }
  | .message name items => .definition (.message (messageOf name items))
  | .enum e => .definition (.enum e.tree)
  | .service s => .definition (.service s.tree)
  | _ => .nothing

/-! ### Statements at the top of a file -/

def editionStatement : Parser FileItem := do
  advance
  let _ ← expect .equal
  let v ← expect .text
  let _ ← expect .semicolon
  return .edition v.value

def packageStatement : Parser FileItem := do
  advance
  let name ← dottedName
  let _ ← expect .semicolon
  return .package name

/-- The statements at the top of a file by the words that open them. -/
def fileStatements : List (List String × Parser FileItem) :=
  [(["syntax", "edition"], editionStatement),
   (["package"], packageStatement),
   (["import"], do return .imported (← importStatement)),
   (["option"], do return .options (← optionStatement)),
   (["message"], do return .definition (.message (← message))),
   (["enum"], do return .definition (.enum (← enumDefinition))),
   (["service"], do return .definition (.service (← serviceDefinition))),
   (["extend"], do skipExtend; return .nothing)]

theorem fileItem_eq : fileItem =
    (accept .semicolon >>= fun b => if b = true then pure .nothing else
      Parser.byWord illegal fileStatements) := rfl

/-- A statement that opens with its word is read as that word says. -/
theorem reads_fileStatement {w : String} {words : List String} {p : Parser FileItem}
    {s : List Face} {P : FileItem → Prop}
    (hlisted : fileStatements.find? (fun production => (Face.word w).isWord production.1) =
      some (words, p))
    (h : Reads p (Face.word w :: s) anything P) :
    Reads fileItem (Face.word w :: s) anything P := by
  rw [fileItem_eq]
  exact reads_otherStatement rfl (by simp) (Reads.byWord rfl hlisted h)

theorem reads_editionStatement (word name : String) :
    Reads editionStatement (FileForm.edition word name).spelled anything
      (·.erase = .edition name) := by
  unfold editionStatement
  refine (reads_advance _).token fun _ _ => ?_
  refine (reads_expect rfl).token fun _ _ => ?_
  refine (reads_text name).token fun t ht => ?_
  exact (reads_expect rfl).token fun _ _ => Reads.pure (congrArg FileItem.edition ht)

theorem reads_packageStatement (name : String) :
    Reads packageStatement (FileForm.package name).spelled anything (·.erase = .package name) := by
  unfold packageStatement
  refine (reads_advance _).token fun _ _ => ?_
  refine (reads_dottedName name).bind (fun _ _ => avoids_mark (by decide) (by decide)) ?_
  rintro _ rfl
  exact (reads_expect rfl).token fun _ _ => Reads.pure rfl

/-- The two words for the edition open the same statement. -/
theorem find?_edition {word : String} (h : word ∈ ["syntax", "edition"]) :
    fileStatements.find? (fun production => (Face.word word).isWord production.1) =
      some (["syntax", "edition"], editionStatement) := by
  rcases List.mem_cons.mp h with rfl | h
  · rfl
  · obtain rfl := List.mem_singleton.mp h
    rfl

theorem reads_fileItem (i : FileForm) (hi : i.spellable = true) :
    Reads fileItem i.spelled anything (·.erase = i.item) := by
  cases i with
  | empty => exact reads_emptyStatement (Reads.pure rfl)
  | edition word name =>
      have hword : word ∈ ["syntax", "edition"] := by simpa [FileForm.spellable] using hi
      exact reads_fileStatement (find?_edition hword) (reads_editionStatement word name)
  | package name => exact reads_fileStatement rfl (reads_packageStatement name)
  | imported m path =>
      refine reads_fileStatement rfl ((reads_importStatement m path).andThen fun t ht => ?_)
      exact Reads.pure (congrArg FileItem.imported ht)
  | option o =>
      refine reads_fileStatement rfl ((reads_optionStatement o hi).andThen fun os hos => ?_)
      exact Reads.pure (congrArg FileItem.options hos)
  | message name items =>
      refine reads_fileStatement rfl ((reads_message name items hi).andThen fun m hm => ?_)
      exact Reads.pure (congrArg (FileItem.definition ∘ Definition.message) hm)
  | enum e =>
      refine reads_fileStatement rfl ((reads_enumDefinition e hi).andThen fun t ht => ?_)
      exact Reads.pure (congrArg (FileItem.definition ∘ Definition.enum) ht)
  | service s =>
      refine reads_fileStatement rfl ((reads_serviceDefinition s hi).andThen fun t ht => ?_)
      exact Reads.pure (congrArg (FileItem.definition ∘ Definition.service) ht)
  | extend type body =>
      refine reads_fileStatement rfl ((reads_skipExtend type hi).andThen fun _ _ => ?_)
      exact Reads.pure rfl

theorem head_fileForm (i : FileForm) : ∃ f, i.spelled.head? = some f := by
  cases i <;> exact ⟨_, rfl⟩

/-- All items of a file, up to the end of its tokens. -/
theorem reads_fileItems (forms : List FileForm) (hforms : forms.all FileForm.spellable = true) :
    Reads (whileDo (fun c => !c.atEnd) fileItem) (forms.flatMap FileForm.spelled) (· = none)
      fun items => items.map FileItem.erase = forms.map FileForm.item := by
  refine reads_whileDo (m := anything) (g := fun o => !o.isNone) (fun c => ?_) ?_ forms ?_
  · rw [Cursor.atEnd_eq]
  · rintro _ rfl
    exact ⟨rfl, trivial⟩
  · intro i hi
    obtain ⟨f, hf⟩ := head_fileForm i
    exact ⟨reads_fileItem i (List.all_eq_true.mp hforms i hi), f, hf, rfl, trivial⟩

theorem erase_add (t : Tree) (i : FileItem) : (t.add i).erase = t.erase.add i.erase := by
  cases i <;> simp [Tree.add, Tree.erase, FileItem.erase]

theorem erase_foldl_add (items : List FileItem) (t : Tree) :
    (items.foldl Tree.add t).erase = (items.map FileItem.erase).foldl Tree.add t.erase := by
  induction items generalizing t with
  | nil => rfl
  | cons i items ih => rw [List.foldl_cons, ih, erase_add, List.map_cons, List.foldl_cons]

/-- Adding items one by one collects what they state. -/
theorem foldl_add_forms (forms : List FileForm) (t : Tree) :
    (forms.map FileForm.item).foldl Tree.add t =
      { edition := (forms.filterMap FileForm.edition?).getLastD t.edition
        package := (forms.filterMap FileForm.package?).getLastD t.package
        imports := t.imports ++ forms.filterMap FileForm.import?
        options := t.options ++ forms.flatMap FileForm.entries
        definitions := t.definitions ++ forms.filterMap FileForm.definition? } := by
  induction forms generalizing t with
  | nil => simp
  | cons i forms ih =>
      rw [List.map_cons, List.foldl_cons, ih]
      cases i <;> simp only [FileForm.item, Tree.add, List.filterMap_cons, List.flatMap_cons,
        FileForm.edition?, FileForm.package?, FileForm.import?, FileForm.entries,
        FileForm.definition?, List.getLastD_cons, List.nil_append, List.append_assoc,
        List.singleton_append]

/-- A parse that has not failed yet reads its items. -/
theorem run_file {c : Cursor} (h : c.failed = false) :
    file.run c = ((do
      let items ← whileDo (fun c => !c.atEnd) fileItem
      return items.foldl Tree.add {}) : Parser Tree).run c := by
  simp [file, Parser.run, look, h, bind]

/-! ## Trees that can be written -/

def OptionTree.spellable (o : OptionTree) : Bool := scalarSpellable o.value

def FieldTree.spellable (f : FieldTree) : Bool :=
  f.type.plain && decide (InRange f.number) && f.options.all OptionTree.spellable

def MemberTree.spellable (m : MemberTree) : Bool :=
  !(["option", "reserved"].contains m.name) && decide (InRange m.number) &&
    m.options.all OptionTree.spellable

def EnumTree.spellable (e : EnumTree) : Bool :=
  e.members.all MemberTree.spellable && e.options.all OptionTree.spellable

mutual

def MessageTree.spellable : MessageTree → Bool
  | .mk _ _ fields messages enums options =>
    fields.all FieldTree.spellable && spellableMessages messages &&
      enums.all EnumTree.spellable && options.all OptionTree.spellable

def spellableMessages : List MessageTree → Bool
  | [] => true
  | m :: ms => m.spellable && spellableMessages ms

end

def RpcTree.spellable (r : RpcTree) : Bool :=
  r.request.plain && r.response.plain && r.options.all OptionTree.spellable

def ServiceTree.spellable (s : ServiceTree) : Bool :=
  s.rpcs.all RpcTree.spellable && s.options.all OptionTree.spellable

def Definition.spellable : Definition → Bool
  | message m => m.spellable
  | enum e => e.spellable
  | service s => s.spellable

/-- Whether a file can be written: option values are scalars, numbers are in
range, and no name is taken for a word that opens something else. -/
def Tree.spellable (t : Tree) : Bool :=
  t.options.all OptionTree.spellable && t.definitions.all Definition.spellable

/-! ## One way to write a tree -/

section Lists

variable {α β γ : Type} {g : α → β} {h : α → γ}

theorem flatMap_map_single {f : β → List γ} (hf : ∀ a, f (g a) = [h a]) (l : List α) :
    (l.map g).flatMap f = l.map h := by
  induction l with
  | nil => rfl
  | cons a l ih => simp [hf, ih]

theorem flatMap_map_nil {f : β → List γ} (hf : ∀ a, f (g a) = []) (l : List α) :
    (l.map g).flatMap f = [] := by
  induction l with
  | nil => rfl
  | cons a l ih => simp [hf, ih]

theorem filterMap_map_some {f : β → Option γ} (hf : ∀ a, f (g a) = some (h a)) (l : List α) :
    (l.map g).filterMap f = l.map h := by
  induction l with
  | nil => rfl
  | cons a l ih => rw [List.map_cons, List.filterMap_cons_some (hf a), ih, List.map_cons]

theorem filterMap_map_none {f : β → Option γ} (hf : ∀ a, f (g a) = none) (l : List α) :
    (l.map g).filterMap f = [] := by
  induction l with
  | nil => rfl
  | cons a l ih => rw [List.map_cons, List.filterMap_cons_none (hf a), ih]

end Lists

/-- An entry as an option with a plain path. -/
def OptionTree.form (o : OptionTree) : OptionForm :=
  { first := .plain (firstComponent o.name)
    others := (components o.name).tail.map .plain
    value := .scalar o.value }

theorem OptionTree.entries_form (o : OptionTree) : o.form.entries = [o.erase] := by
  have hparts : firstComponent o.name :: (components o.name).tail = components o.name := by
    unfold firstComponent
    cases hc : components o.name with
    | nil => exact absurd hc (components_ne_nil o.name)
    | cons _ _ => rfl
  have hpath : o.form.path = o.name := by
    simp only [OptionForm.path, OptionTree.form, List.map_cons, List.map_map, Function.comp_def,
      NamePart.path, List.map_id', hparts, intercalate_components]
  rw [OptionForm.entries, hpath]
  rfl

theorem flatMap_entries_form (os : List OptionTree) :
    (os.map OptionTree.form).flatMap OptionForm.entries = os.map OptionTree.erase :=
  flatMap_map_single OptionTree.entries_form os

theorem spellable_form_options {os : List OptionTree} (h : os.all OptionTree.spellable = true) :
    (os.map OptionTree.form).all OptionForm.spellable = true := by
  rw [List.all_map]
  exact h

def FieldTree.form (f : FieldTree) : FieldForm :=
  { label := f.label, type := f.type, name := f.name, number := f.number,
    options := f.options.map OptionTree.form }

/-- A field as an item of a message. A field of a choice has the choice around it. -/
def FieldTree.item (f : FieldTree) : ItemForm :=
  match f.oneof with
  | none => .field f.form
  | some name => .oneof { name, items := [.element f.form] }

theorem FieldTree.fields_item (f : FieldTree) : f.item.fields = [f.erase] := by
  obtain ⟨origin, label, type, name, number, oneof, options⟩ := f
  cases oneof <;>
    simp [FieldTree.item, ItemForm.fields, OneofForm.fields, BodyForm.element?, FieldForm.tree,
      FieldTree.form, FieldTree.erase, flatMap_entries_form]

theorem FieldTree.spellable_item (f : FieldTree) (hf : f.spellable = true) :
    f.item.spellable = true := by
  simp only [FieldTree.spellable, Bool.and_eq_true] at hf
  have hform : f.form.spellable = true := by
    simp only [FieldForm.spellable, FieldTree.form, Bool.and_eq_true]
    exact ⟨hf.1, spellable_form_options hf.2⟩
  unfold FieldTree.item
  cases f.oneof with
  | none => exact hform
  | some name => simp [ItemForm.spellable, OneofForm.spellable, BodyForm.spellable, hform]

def MemberTree.form (m : MemberTree) : MemberForm :=
  { name := m.name, number := m.number, options := m.options.map OptionTree.form }

def bodyOf {α β : Type} (form : α → β) (elements : List α) (options : List OptionTree) :
    List (BodyForm β) :=
  elements.map (BodyForm.element ∘ form) ++ options.map (BodyForm.option ∘ OptionTree.form)

section Bodies

variable {α β γ : Type} {form : α → β} {tree : β → γ} {e : α → γ} {words : List String}
  {p : β → Bool} {q : α → Bool}

theorem elements_bodyOf (h : ∀ a, tree (form a) = e a) (elements : List α)
    (options : List OptionTree) :
    ((bodyOf form elements options).filterMap BodyForm.element?).map tree =
      elements.map e := by
  have helements : (elements.map (BodyForm.element ∘ form)).filterMap BodyForm.element? =
      elements.map form :=
    filterMap_map_some (f := BodyForm.element?) (g := .element ∘ form) (fun _ => rfl) elements
  have hoptions : (options.map (BodyForm.option ∘ OptionTree.form)).filterMap
      (BodyForm.element? (α := β)) = [] := filterMap_map_none (fun _ => rfl) options
  simp [bodyOf, helements, hoptions, h]

theorem entries_bodyOf (elements : List α) (options : List OptionTree) :
    (bodyOf form elements options).flatMap BodyForm.entries = options.map OptionTree.erase := by
  have helements : (elements.map (BodyForm.element ∘ form)).flatMap BodyForm.entries = [] :=
    flatMap_map_nil (fun _ => rfl) elements
  have hoptions : (options.map (BodyForm.option ∘ OptionTree.form)).flatMap
      (BodyForm.entries (α := β)) = options.map OptionTree.erase :=
    flatMap_map_single (g := BodyForm.option ∘ OptionTree.form) OptionTree.entries_form options
  rw [bodyOf, List.flatMap_append, helements, hoptions, List.nil_append]

theorem spellable_bodyOf (h : ∀ a, q a = true → p (form a) = true) {elements : List α}
    {options : List OptionTree} (helements : elements.all q = true)
    (hoptions : options.all OptionTree.spellable = true) :
    (bodyOf form elements options).all (BodyForm.spellable words p) = true := by
  simp only [bodyOf, List.all_append, List.all_map, Bool.and_eq_true, List.all_eq_true]
  refine ⟨fun a ha => h a (List.all_eq_true.mp helements a ha), fun o ho => ?_⟩
  exact List.all_eq_true.mp hoptions o ho

end Bodies

def EnumTree.form (e : EnumTree) : EnumForm :=
  { name := e.name, items := bodyOf MemberTree.form e.members e.options }

theorem EnumTree.tree_form (e : EnumTree) : e.form.tree = e.erase := by
  simp only [EnumForm.tree, EnumTree.form, EnumTree.erase, entries_bodyOf]
  rw [elements_bodyOf (e := MemberTree.erase)]
  intro m
  simp [MemberForm.tree, MemberTree.form, MemberTree.erase, flatMap_entries_form]

theorem EnumTree.spellable_form (e : EnumTree) (he : e.spellable = true) :
    e.form.spellable = true := by
  simp only [EnumTree.spellable, Bool.and_eq_true] at he
  refine spellable_bodyOf (fun m hm => ?_) he.1 he.2
  simp only [MemberTree.spellable, Bool.and_eq_true] at hm
  simp only [MemberForm.spellable, MemberTree.form, Bool.and_eq_true]
  exact ⟨hm.1, spellable_form_options hm.2⟩

def MessageTree.name : MessageTree → String
  | .mk _ name _ _ _ _ => name

def MessageTree.fields : MessageTree → List FieldTree
  | .mk _ _ fields _ _ _ => fields

def MessageTree.enums : MessageTree → List EnumTree
  | .mk _ _ _ _ enums _ => enums

def MessageTree.options : MessageTree → List OptionTree
  | .mk _ _ _ _ _ options => options

mutual

def MessageTree.items : MessageTree → List ItemForm
  | .mk _ _ fields messages enums options =>
    fields.map FieldTree.item ++ (itemsOfMessages messages ++
      (enums.map (ItemForm.enum ∘ EnumTree.form) ++
        options.map (ItemForm.option ∘ OptionTree.form)))

def itemsOfMessages : List MessageTree → List ItemForm
  | [] => []
  | m :: ms => .message m.name m.items :: itemsOfMessages ms

end

theorem ItemForm.message?_message (name : String) (items : List ItemForm) :
    (ItemForm.message name items).message? = some (messageOf name items) := by
  rw [ItemForm.message?, messageOf]

theorem FieldTree.item_other (f : FieldTree) :
    f.item.message? = none ∧ f.item.enum? = none ∧ f.item.entries = [] := by
  unfold FieldTree.item
  cases f.oneof <;> simp [ItemForm.message?, ItemForm.enum?, ItemForm.entries]

/-- The items of nested messages are messages. -/
theorem other_of_mem_itemsOfMessages {ms : List MessageTree} {i : ItemForm}
    (h : i ∈ itemsOfMessages ms) : i.fields = [] ∧ i.enum? = none ∧ i.entries = [] := by
  induction ms with
  | nil => simp [itemsOfMessages] at h
  | cons m ms ih =>
      rw [itemsOfMessages] at h
      rcases List.mem_cons.mp h with rfl | h
      · exact ⟨rfl, rfl, rfl⟩
      · exact ih h

theorem fields_items (m : MessageTree) :
    m.items.flatMap ItemForm.fields = m.fields.map FieldTree.erase := by
  obtain ⟨origin, name, fields, messages, enums, options⟩ := m
  have hfields : (fields.map FieldTree.item).flatMap ItemForm.fields =
      fields.map FieldTree.erase := flatMap_map_single FieldTree.fields_item fields
  have hmessages : (itemsOfMessages messages).flatMap ItemForm.fields = [] :=
    List.flatMap_eq_nil_iff.mpr fun i hi => (other_of_mem_itemsOfMessages hi).1
  have henums : (enums.map (ItemForm.enum ∘ EnumTree.form)).flatMap ItemForm.fields = [] :=
    flatMap_map_nil (fun _ => rfl) enums
  have hoptions : (options.map (ItemForm.option ∘ OptionTree.form)).flatMap ItemForm.fields = [] :=
    flatMap_map_nil (fun _ => rfl) options
  rw [MessageTree.items, List.flatMap_append, List.flatMap_append, List.flatMap_append, hfields,
    hmessages, henums, hoptions, List.append_nil, List.append_nil, List.append_nil]
  rfl

theorem enums_items (m : MessageTree) :
    m.items.filterMap ItemForm.enum? = m.enums.map EnumTree.erase := by
  obtain ⟨origin, name, fields, messages, enums, options⟩ := m
  have hfields : (fields.map FieldTree.item).filterMap ItemForm.enum? = [] :=
    filterMap_map_none (fun f => (FieldTree.item_other f).2.1) fields
  have hmessages : (itemsOfMessages messages).filterMap ItemForm.enum? = [] :=
    List.filterMap_eq_nil_iff.mpr fun i hi => (other_of_mem_itemsOfMessages hi).2.1
  have henums : (enums.map (ItemForm.enum ∘ EnumTree.form)).filterMap ItemForm.enum? =
      enums.map EnumTree.erase :=
    filterMap_map_some (f := ItemForm.enum?) (g := ItemForm.enum ∘ EnumTree.form)
      (fun e => congrArg some e.tree_form) enums
  have hoptions : (options.map (ItemForm.option ∘ OptionTree.form)).filterMap ItemForm.enum? = [] :=
    filterMap_map_none (fun _ => rfl) options
  rw [MessageTree.items, List.filterMap_append, List.filterMap_append, List.filterMap_append,
    hfields, hmessages, henums, hoptions, List.append_nil]
  rfl

theorem entries_items (m : MessageTree) :
    m.items.flatMap ItemForm.entries = m.options.map OptionTree.erase := by
  obtain ⟨origin, name, fields, messages, enums, options⟩ := m
  have hfields : (fields.map FieldTree.item).flatMap ItemForm.entries = [] :=
    flatMap_map_nil (fun f => (FieldTree.item_other f).2.2) fields
  have hmessages : (itemsOfMessages messages).flatMap ItemForm.entries = [] :=
    List.flatMap_eq_nil_iff.mpr fun i hi => (other_of_mem_itemsOfMessages hi).2.2
  have henums : (enums.map (ItemForm.enum ∘ EnumTree.form)).flatMap ItemForm.entries = [] :=
    flatMap_map_nil (fun _ => rfl) enums
  have hoptions : (options.map (ItemForm.option ∘ OptionTree.form)).flatMap ItemForm.entries =
      options.map OptionTree.erase :=
    flatMap_map_single (g := ItemForm.option ∘ OptionTree.form) OptionTree.entries_form options
  rw [MessageTree.items, List.flatMap_append, List.flatMap_append, List.flatMap_append, hfields,
    hmessages, henums, hoptions]
  rfl

mutual

theorem MessageTree.messageOf_items (m : MessageTree) : messageOf m.name m.items = m.erase := by
  match m with
  | .mk origin name fields messages enums options =>
      have hfields : (fields.map FieldTree.item).filterMap ItemForm.message? = [] :=
        filterMap_map_none (fun f => (FieldTree.item_other f).1) fields
      have henums : (enums.map (ItemForm.enum ∘ EnumTree.form)).filterMap ItemForm.message? = [] :=
        filterMap_map_none (fun _ => by simp [ItemForm.message?]) enums
      have hoptions : (options.map (ItemForm.option ∘ OptionTree.form)).filterMap
          ItemForm.message? = [] :=
        filterMap_map_none (fun _ => by simp [ItemForm.message?]) options
      have hmessages : messagesOf (MessageTree.mk origin name fields messages enums options).items =
          eraseMessages messages := by
        rw [messagesOf_eq, MessageTree.items, List.filterMap_append, List.filterMap_append,
          List.filterMap_append, hfields, filterMap_itemsOfMessages messages, henums, hoptions,
          List.append_nil, List.append_nil, List.nil_append]
      rw [messageOf, fields_items, enums_items, entries_items, hmessages]
      rfl

theorem filterMap_itemsOfMessages (ms : List MessageTree) :
    (itemsOfMessages ms).filterMap ItemForm.message? = eraseMessages ms := by
  match ms with
  | [] => rfl
  | m :: ms =>
      rw [itemsOfMessages, List.filterMap_cons_some (ItemForm.message?_message _ _),
        m.messageOf_items, filterMap_itemsOfMessages ms, eraseMessages]

end

mutual

theorem MessageTree.spellable_items (m : MessageTree) (hm : m.spellable = true) :
    ∀ i ∈ m.items, i.spellable = true := by
  match m with
  | .mk origin name fields messages enums options =>
      simp only [MessageTree.spellable, Bool.and_eq_true, List.all_eq_true] at hm
      obtain ⟨⟨⟨hfields, hmessages⟩, henums⟩, hoptions⟩ := hm
      intro i hi
      simp only [MessageTree.items, List.mem_append, List.mem_map, Function.comp_apply] at hi
      rcases hi with ⟨f, hf, rfl⟩ | hi | ⟨e, he, rfl⟩ | ⟨o, ho, rfl⟩
      · exact f.spellable_item (hfields f hf)
      · exact spellable_itemsOfMessages messages hmessages i hi
      · exact e.spellable_form (henums e he)
      · exact hoptions o ho

theorem spellable_itemsOfMessages (ms : List MessageTree) (hms : spellableMessages ms = true) :
    ∀ i ∈ itemsOfMessages ms, i.spellable = true := by
  match ms with
  | [] => simp [itemsOfMessages]
  | m :: ms =>
      simp only [spellableMessages, Bool.and_eq_true] at hms
      intro i hi
      rw [itemsOfMessages] at hi
      rcases List.mem_cons.mp hi with rfl | hi
      · rw [ItemForm.spellable, spellableItems_eq, List.all_eq_true]
        exact m.spellable_items hms.1
      · exact spellable_itemsOfMessages ms hms.2 i hi

end

def RpcTree.form (r : RpcTree) : RpcForm :=
  { name := r.name, request := r.request, response := r.response,
    body := some (bodyOf id [] r.options) }

theorem RpcTree.tree_form (r : RpcTree) : r.form.tree = r.erase := by
  simp [RpcForm.tree, RpcTree.form, RpcTree.erase, entries_bodyOf]

def ServiceTree.form (s : ServiceTree) : ServiceForm :=
  { name := s.name, items := bodyOf RpcTree.form s.rpcs s.options }

theorem ServiceTree.tree_form (s : ServiceTree) : s.form.tree = s.erase := by
  simp only [ServiceForm.tree, ServiceTree.form, ServiceTree.erase, entries_bodyOf]
  rw [elements_bodyOf RpcTree.tree_form]

theorem ServiceTree.spellable_form (s : ServiceTree) (hs : s.spellable = true) :
    s.form.spellable = true := by
  simp only [ServiceTree.spellable, Bool.and_eq_true] at hs
  refine spellable_bodyOf (fun r hr => ?_) hs.1 hs.2
  simp only [RpcTree.spellable, Bool.and_eq_true] at hr
  simp only [RpcForm.spellable, RpcTree.form, Bool.and_eq_true, Option.getD_some]
  exact ⟨hr.1, spellable_bodyOf (q := fun _ => true) (fun _ _ => rfl) rfl hr.2⟩

def Definition.form : Definition → FileForm
  | message m => .message m.name m.items
  | enum e => .enum e.form
  | service s => .service s.form

theorem Definition.spellable_form (d : Definition) (hd : d.spellable = true) :
    d.form.spellable = true := by
  cases d with
  | message m =>
      rw [Definition.form, FileForm.spellable, spellableItems_eq, List.all_eq_true]
      exact m.spellable_items hd
  | enum e => exact e.spellable_form hd
  | service s => exact s.spellable_form hd

/-- A file as it is written: its language and package if it has them, then what it
imports, its options and its declarations. -/
def Tree.forms (t : Tree) : List FileForm :=
  (if t.edition = "" then [] else [.edition "syntax" t.edition]) ++
    ((if t.package = "" then [] else [.package t.package]) ++
      (t.imports.map (fun i => .imported i.modifier i.path) ++
        (t.options.map (FileForm.option ∘ OptionTree.form) ++ t.definitions.map Definition.form)))

/-- Items that are a way to write a file. -/
structure Spells (forms : List FileForm) (t : Tree) : Prop where
  spellable : forms.all FileForm.spellable = true
  tree : treeOf forms = t.erase

/-- Adding a list of items of one sort, one by one. -/
theorem foldl_add_imports (imports : List ImportTree) (t : Tree) :
    ((imports.map fun i => FileForm.imported i.modifier i.path).map FileForm.item).foldl Tree.add t =
      { t with imports := t.imports ++ imports.map ImportTree.erase } := by
  induction imports generalizing t with
  | nil => simp
  | cons i imports ih =>
      rw [List.map_cons, List.map_cons, List.foldl_cons, ih]
      simp [Tree.add, FileForm.item, ImportTree.erase]

theorem foldl_add_options (options : List OptionTree) (t : Tree) :
    ((options.map (FileForm.option ∘ OptionTree.form)).map FileForm.item).foldl Tree.add t =
      { t with options := t.options ++ options.map OptionTree.erase } := by
  induction options generalizing t with
  | nil => simp
  | cons o options ih =>
      rw [List.map_cons, List.map_cons, List.foldl_cons, ih]
      simp [Tree.add, FileForm.item, OptionTree.entries_form]

theorem foldl_add_definitions (definitions : List Definition) (t : Tree) :
    ((definitions.map Definition.form).map FileForm.item).foldl Tree.add t =
      { t with definitions := t.definitions ++ definitions.map Definition.erase } := by
  induction definitions generalizing t with
  | nil => simp
  | cons d definitions ih =>
      have hitem : d.form.item = .definition d.erase := by
        cases d with
        | message m => exact congrArg (FileItem.definition ∘ Definition.message) m.messageOf_items
        | enum e => exact congrArg (FileItem.definition ∘ Definition.enum) e.tree_form
        | service s => exact congrArg (FileItem.definition ∘ Definition.service) s.tree_form
      rw [List.map_cons, List.map_cons, List.foldl_cons, ih, hitem]
      simp [Tree.add]

theorem Tree.treeOf_forms (t : Tree) : treeOf t.forms = t.erase := by
  have hfold : treeOf t.forms = (t.forms.map FileForm.item).foldl Tree.add {} :=
    (foldl_add_forms t.forms {}).symm
  rw [hfold, Tree.forms, List.map_append, List.map_append, List.map_append, List.map_append,
    List.foldl_append, List.foldl_append, List.foldl_append, List.foldl_append, foldl_add_imports,
    foldl_add_options, foldl_add_definitions]
  by_cases hedition : t.edition = "" <;> by_cases hpackage : t.package = "" <;>
    simp [hedition, hpackage, FileForm.item, Tree.add, Tree.erase]

/-- Every tree that can be written has a way to write it. -/
theorem Tree.spells_forms (t : Tree) (ht : t.spellable = true) : Spells t.forms t := by
  refine ⟨?_, t.treeOf_forms⟩
  simp only [Tree.spellable, Bool.and_eq_true, List.all_eq_true] at ht
  simp only [Tree.forms, List.all_append, Bool.and_eq_true, List.all_eq_true, List.mem_map,
    Function.comp_apply]
  refine ⟨?_, ?_, ?_, ?_, ?_⟩
  · split <;> simp [FileForm.spellable]
  · split <;> simp [FileForm.spellable]
  · rintro _ ⟨i, -, rfl⟩
    rfl
  · rintro _ ⟨o, ho, rfl⟩
    exact ht.1 o ho
  · rintro _ ⟨d, hd, rfl⟩
    exact d.spellable_form (ht.2 d hd)

/-- Parsing undoes spelling: a tree that can be written is read back from each of
the ways to write it. A parse that starts at its tokens reports nothing, consumes
them all and gives the tree. -/
theorem run_file_written (t : Tree) (ht : t.spellable = true) :
    (∃ forms, Spells forms t) ∧
      ∀ forms, Spells forms t → ∀ c : Cursor, c.faces = forms.flatMap FileForm.spelled →
        c.failed = false →
          ∃ t' c', file.run c = (some t', c') ∧ t'.erase = t.erase ∧ c'.rest = [] ∧
            c'.reporter = c.reporter ∧ c'.failed = false := by
  refine ⟨⟨t.forms, t.spells_forms ht⟩, fun forms hforms c hc hok => ?_⟩
  have hread : Reads (do
      let items ← whileDo (fun c => !c.atEnd) fileItem
      return items.foldl Tree.add {}) (forms.flatMap FileForm.spelled) (· = none)
      fun t' : Tree => t'.erase = t.erase := by
    refine (reads_fileItems forms hforms.spellable).andThen fun items hitems => Reads.pure ?_
    rw [erase_foldl_add, hitems, foldl_add_forms, ← hforms.tree]
    rfl
  obtain ⟨t', c', hrun, ht', hrest, hreporter, hfailed⟩ := hread c [] (by simpa using hc) rfl
  refine ⟨t', c', ?_, ht', ?_, hreporter, hfailed.trans hok⟩
  · rw [run_file hok]
    exact hrun
  · simpa [Cursor.faces] using hrest

/-- A file in which names look like keywords, an empty statement follows a remote
procedure in braces, and a block with braces in it is passed over. -/
def crowdedForms : List FileForm :=
  [.empty, .edition "edition" "2023", .package "a.b", .imported .reexported "x.proto",
   .extend ".google.protobuf.FieldOptions"
     [Face.word "group", Face.mark .curlyOpen, Face.mark .semicolon, Face.mark .curlyClose],
   .option
     { first := .extension true "api.file", others := [.plain "x"],
       value := .aggregate
         [.mk (.plain "k") true (.list [.scalar (.scalar .int "-1"), .texts "a" ["b"]] true) .none,
          .mk (.extension "e.f") false (.aggregate []) .semicolon] },
   .message "message"
     [.skipped "reserved" [Face.word "option"], .empty,
      .message "Inner" [.field { type := .map "string" ".Inner", name := "map", number := -7 }],
      .oneof { name := "oneof", items := [.empty, .element
        { type := .name "stream", name := "rpc", number := 1,
          options := [{ first := .plain "d", value := .scalar (.scalar .double "-inf") }] }] },
      .enum { name := "E", items :=
        [.skipped "reserved" [], .element { name := "enum", number := 0 }] }],
   .service
     { name := "S", items :=
        [.element { name := "rpc", request := { name := "A.stream", stream := false },
                    response := { name := ".B", stream := true }, body := some [] },
         .empty, .empty] }]

theorem run_file_crowded :
    ∃ t' c', file.run (Cursor.ofTokens "crowded.proto"
        ((crowdedForms.flatMap FileForm.spelled).map Face.token) {} 0) = (some t', c') ∧
      t'.erase = treeOf crowdedForms ∧ c'.rest = [] ∧ c'.reporter.reported = [] := by
  obtain ⟨-, hread⟩ := run_file_written (treeOf crowdedForms) (by decide +kernel)
  obtain ⟨t', c', hrun, ht', hrest, hreporter, -⟩ := hread crowdedForms ⟨by decide +kernel, rfl⟩
    (Cursor.ofTokens "crowded.proto" ((crowdedForms.flatMap FileForm.spelled).map Face.token) {} 0)
    (by decide +kernel) (by decide +kernel)
  exact ⟨t', c', hrun, ht', hrest, by rw [hreporter]; rfl⟩

end Proto
end ClientGen
