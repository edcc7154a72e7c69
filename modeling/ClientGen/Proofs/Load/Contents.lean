import ClientGen.Proofs.Load.Names
import ClientGen.Proofs.Load.Resolution
import ClientGen.Proofs.Source.Spelling
import ClientGen.Proofs.Value.Encoding

/-! # Types and constants of documents

What the declarations of a loaded document can be made of. Types are scalars of the
document model, names, and containers of such types. A number token starts with a digit,
so the constants of Thrift name no infinity and no not-a-number. Those of Protobuf do so
with the words that its grammar has for them, and such a constant can only be the default
of a field (`sound_of_loadAll`).
-/

namespace ClientGen

open Source

/-! ## What documents are made of -/

/-- A type of scalars of the document model and of names. -/
def FieldType.Known : FieldType → Prop
  | void => True
  | base name => name ∈ scalars
  | identifier _ => True
  | list e => e.Known
  | set e => e.Known
  | map k v => k.Known ∧ v.Known
  | other _ _ => False

/-- One of the words for what is no finite number. -/
def Const.NonFinite (c : Const) : Prop :=
  ∃ word ∈ ["inf", "-inf", "nan"], c = .scalar .double word

instance (c : Const) : Decidable c.NonFinite :=
  match c with
  | .scalar .double word =>
    decidable_of_iff (word ∈ ["inf", "-inf", "nan"]) (by simp [Const.NonFinite])
  | .scalar .int _ | .scalar .string _ | .scalar .bool _ | .scalar .identifier _
  | .scalar (.other _) _ | .absent | .list _ | .map _ => .isFalse fun ⟨_, _, h⟩ => by cases h

/-- A field whose type is known and whose default names a number that is not finite only if
its language has words for that. -/
structure Field.Sound (dialect : Dialect) (f : Field) : Prop where
  type : f.type.Known
  default : f.default.Plain ∨ dialect = .protobuf ∧ f.default.NonFinite

def Statement.Sound (dialect : Dialect) : Statement → Prop
  | .service s => ∀ f ∈ s.functions, f.returns.Known ∧ ∀ p ∈ f.params, p.type.Known
  | .struct s => ∀ f ∈ s.fields, f.Sound dialect
  | .enum _ => True
  | .typedef t => t.type.Known
  | .const c => c.type.Known ∧ c.value.Plain

def Document.Sound (d : Document) : Prop := ∀ st ∈ d.statements, st.Sound d.dialect

theorem Document.Sound.service {d : Document} (h : d.Sound) {s : Service} (hs : s ∈ d.services) :
    ∀ f ∈ s.functions, f.returns.Known ∧ ∀ p ∈ f.params, p.type.Known := by
  obtain ⟨st, hst, heq⟩ := List.mem_filterMap.mp hs
  cases st with
  | service x =>
      obtain rfl := Option.some.inj heq
      exact h (.service x) hst
  | struct x => cases heq
  | enum x => cases heq
  | typedef x => cases heq
  | const x => cases heq

/-! ## Numbers in tokens -/

/-- A number with a point or an exponent starts with a digit. -/
def Source.Token.Numeric (t : Token) : Prop :=
  t.kind = .floatDecimal → ∃ c cs, c.isDigit = true ∧ t.value = String.ofList (c :: cs)

namespace Source.Lexer

theorem numeric_readDecimal {c : Char} (h : c.isDigit = true) (p : Position) (rest : List Char) :
    (readDecimal c p rest).All Token.Numeric := by
  unfold readDecimal
  split
  · intro _
    exact ⟨c, _, h, rfl⟩
  · trivial

theorem numeric_readToken (o : Options) (c : Char) (p : Position) (rest : List Char) :
    (readToken o c p rest).All Token.Numeric := by
  refine all_readToken ?_ ?_ ?_ o c p rest
  · intro c p rest _ hkind
    cases hkind
  · intro c p rest hdigit
    exact numeric_readDecimal hdigit p rest
  · intro t ht hkind
    exact absurd hkind (by simp_all)

end Source.Lexer

theorem Source.Cursor.numeric_ofSource (o : Lexer.Options) (uri source : String) (r : Reporter) :
    ∀ t ∈ (Cursor.ofSource o uri source r).rest, t.Numeric :=
  Cursor.forall_ofSource (Lexer.numeric_readToken o) uri source r

namespace Number

/-- The words for what is no finite number, in lower case. -/
def specialWords : List String :=
  ["nan", "inf", "+inf", "infinity", "+infinity", "-inf", "-infinity"]

theorem special?_eq_none {s : String}
    (h : String.ofList (s.toList.map Char.toLower) ∉ specialWords) : special? s = none := by
  simp only [specialWords, List.mem_cons, List.not_mem_nil, not_or] at h
  unfold special?
  generalize String.ofList (s.toList.map Char.toLower) = word at h
  simp [h]

/-- No word for a number starts with a digit, or with a digit after a minus sign. -/
theorem special?_digits {c : Char} (h : c.isDigit = true) (cs : List Char) {sign : String}
    (hsign : sign ∈ ["", "-"]) : special? (sign ++ String.ofList (c :: cs)) = none := by
  have hlower : ∀ d ∈ asciiDigits, d.toLower ≠ 'n' ∧ d.toLower ≠ 'i' ∧ d.toLower ≠ '+' ∧
      d.toLower ≠ '-' := forall_of_all (by decide)
  have hc := hlower c (mem_asciiDigits h)
  have hlist : (sign ++ String.ofList (c :: cs)).toList.map Char.toLower =
      sign.toList ++ c.toLower :: cs.map Char.toLower := by
    simp only [List.mem_cons, List.not_mem_nil, or_false] at hsign
    rcases hsign with rfl | rfl <;> simp
  apply special?_eq_none
  intro hword
  rw [hlist] at hword
  simp only [List.mem_cons, List.not_mem_nil, or_false] at hsign
  have hspelled := List.mem_map_of_mem (f := String.toList) hword
  rcases hsign with rfl | rfl <;> simp_all [specialWords]
end Number

theorem Const.plain_ofNumber {t : Token} (ht : t.Numeric) {sign : String}
    (hsign : sign ∈ ["", "-"]) : (Const.ofNumber sign t).Plain := by
  unfold Const.ofNumber
  split
  · rename_i hkind
    obtain ⟨c, cs, hc, hvalue⟩ := ht hkind
    intro text htext
    obtain rfl := List.mem_singleton.mp htext
    rw [hvalue]
    exact Number.special?_digits hc cs hsign
  · exact plain_scalar _ nofun

/-! ## Thrift -/

namespace Thrift

open Parser

theorem plain_nameConst (name : String) : (nameConst name).Plain := by
  unfold nameConst
  split
  · exact Const.plain_scalar _ nofun
  · exact Const.plain_scalar _ nofun

theorem plain_constValue (fuel : Nat) : Among Token.Numeric Const.Plain (constValue fuel) := by
  induction fuel with
  | zero => exact .illegal
  | succ fuel ih =>
      have hnumber : ∀ {sign : String}, sign ∈ ["", "-"] →
          Among Token.Numeric Const.Plain (expectOf [.integerDecimal, .integerHex, .floatDecimal]
            >>= fun t => pure (Const.ofNumber sign t)) :=
        fun hsign => .bind .expectOf fun _ ht => .pure (Const.plain_ofNumber ht.2 hsign)
      unfold constValue
      refine .skip fun kind => ?_
      split
      · exact .skip fun _ => hnumber (by decide)
      · exact .skip fun _ => hnumber (by decide)
      · exact hnumber (by decide)
      · exact hnumber (by decide)
      · exact hnumber (by decide)
      · exact .skip fun _ => .pure (Const.plain_scalar _ (by decide))
      · exact .skip fun name => .pure (plain_nameConst name)
      · exact .skip fun _ => .bind (.upTo (.bind ih fun _ h => .skip fun _ => .pure h))
          fun _ hitems => .pure (Const.plain_list hitems)
      · refine .skip fun _ => .bind (.upTo (Q := fun pair => pair.2.Plain) ?_) fun _ hpairs =>
          .pure (Const.plain_map hpairs)
        exact .skip fun _ => .skip fun _ => .bind ih fun _ h => .skip fun _ => .pure h
      · exact .illegal

theorem plain_const : Among Token.Numeric Const.Plain const := .fuelled plain_constValue

/-- Constants and the defaults of fields name no number that is not finite. -/
def Definition.Plain : Definition → Prop
  | .const c => c.value.Plain
  | .struct s => ∀ f ∈ s.fields, f.default.Plain
  | _ => True

theorem plain_fieldDefault : Among Token.Numeric Const.Plain fieldDefault := by
  unfold fieldDefault
  exact .skip fun _ => .branch plain_const (.pure nofun)

theorem plain_field : Among Token.Numeric (fun f => f.default.Plain) field := by
  unfold field
  exact .skip fun _ => .skip fun _ => .skip fun _ => .skip fun _ => .skip fun _ => .skip fun _ =>
    .bind plain_fieldDefault fun _ hdefault => .skip fun _ => .skip fun _ => .skip fun _ =>
      .pure hdefault

theorem plain_structDefinition :
    Among Token.Numeric (fun s => ∀ f ∈ s.fields, f.default.Plain) structDefinition := by
  unfold structDefinition
  exact .skip fun _ => .skip fun _ => .skip fun _ => .skip fun _ => .skip fun _ =>
    .bind (.upTo plain_field) fun _ hfields => .skip fun _ => .skip fun _ => .skip fun _ =>
      .pure hfields

theorem plain_constDefinition : Among Token.Numeric (fun c => c.value.Plain) constDefinition := by
  unfold constDefinition
  exact .skip fun _ => .skip fun _ => .skip fun _ => .skip fun _ => .skip fun _ =>
    .bind plain_const fun _ hvalue => .skip fun _ => .skip fun _ => .pure hvalue

theorem plain_definition : Among Token.Numeric Definition.Plain definition := by
  unfold definition
  exact .skip fun _ => .branch (.bind plain_constDefinition fun _ h => .pure h) (.skip fun _ =>
    .branch (.skip fun _ => .pure trivial) (.skip fun _ =>
    .branch (.skip fun _ => .pure trivial) (.skip fun _ =>
    .branch (.bind plain_structDefinition fun _ h => .pure h) (.skip fun _ =>
    .branch (.skip fun _ => .pure trivial) .illegal))))

theorem plain_item :
    Among Token.Numeric (fun i => ∀ d, Sum.getRight? i = some d → d.Plain) item := by
  unfold item
  exact .skip fun _ => .branch (.skip fun _ => .pure (by simp)) (.skip fun _ =>
    .branch (.skip fun _ => .pure (by simp))
      (.bind plain_definition fun _ h => .pure (by simpa using h)))

theorem plain_file : Among Token.Numeric (fun t => ∀ d ∈ t.definitions, d.Plain) file := by
  have hmade : Made true (whileDo (fun c => !c.atEnd) item) :=
    .whileDo (fun _ _ _ => rfl) inferInstance
  refine Among.file grammar (.bind (.whileDo plain_item) fun items hitems => .pure ?_)
  intro d hd
  obtain ⟨i, hi, heq⟩ := List.mem_filterMap.mp hd
  exact hitems i hi d heq

/-! ### Lowering -/

theorem TypeTree.known_fieldType (t : TypeTree) : t.fieldType.Known := by
  induction t with
  | name position n annotations =>
      unfold fieldType
      split
      · rename_i hscalar
        exact List.contains_iff_mem.mp hscalar
      · trivial
  | list position e annotations ih => exact ih
  | set position e annotations ih => exact ih
  | map position k v annotations ihk ihv => exact ⟨ihk, ihv⟩

theorem mem_fieldsFrom {comments : CommentsOf} {next : Int} {trees : List FieldTree} {f : Field}
    (h : f ∈ fieldsFrom comments next trees) :
    ∃ tree ∈ trees, f.type = tree.type.fieldType ∧ f.default = tree.default := by
  induction trees generalizing next with
  | nil => cases h
  | cons tree trees ih =>
      rcases List.mem_cons.mp h with rfl | h
      · exact ⟨tree, List.mem_cons_self, rfl, rfl⟩
      · obtain ⟨other, hother, heq⟩ := ih h
        exact ⟨other, List.mem_cons_of_mem tree hother, heq⟩

theorem Definition.Plain.lower {d : Definition} (h : d.Plain) (comments : CommentsOf) :
    (d.lower comments).Sound .thrift := by
  cases d with
  | const c => exact ⟨c.type.known_fieldType, h⟩
  | typedef t => exact t.type.known_fieldType
  | enum e => trivial
  | struct s =>
      intro f hf
      obtain ⟨tree, htree, htype, hdefault⟩ := mem_fieldsFrom hf
      exact ⟨htype ▸ tree.type.known_fieldType, .inl (hdefault ▸ h tree htree)⟩
  | service s =>
      intro f hf
      obtain ⟨tree, -, rfl⟩ := List.mem_map.mp hf
      constructor
      · unfold FunctionTree.lower
        cases tree.returns with
        | none => trivial
        | some t => exact t.known_fieldType
      · intro p hp
        obtain ⟨param, -, htype, -⟩ := mem_fieldsFrom hp
        exact htype ▸ param.type.known_fieldType

end Thrift

/-! ## Protobuf -/

namespace Proto

open Parser

def Admitted (c : Const) : Prop := c.Plain ∨ c.NonFinite

theorem admitted_scalar {kind : ConstKind} (text : String) (h : kind ≠ .double) :
    Admitted (.scalar kind text) := .inl (Const.plain_scalar text h)

theorem admitted_word {word : String} (h : word ∈ ["inf", "-inf", "nan"]) :
    Admitted (.scalar .double word) := .inr ⟨word, h, rfl⟩

theorem admitted_nameConst (name : String) : Admitted (nameConst name) := by
  unfold nameConst
  dsimp only
  split
  · exact admitted_scalar _ nofun
  · split
    · rename_i hword
      rcases hword with rfl | rfl <;> exact admitted_word (by decide)
    · exact admitted_scalar _ nofun

theorem admitted_ofNumber {t : Token} (ht : t.Numeric) {sign : String}
    (hsign : sign ∈ ["", "-"]) : Admitted (Const.ofNumber sign t) :=
  .inl (Const.plain_ofNumber ht hsign)

/-- There is no word for a negative not-a-number. -/
theorem admitted_signed {sign word : String} (hsign : sign ∈ ["", "-"])
    (hword : word ∈ ["inf", "nan"]) : Admitted (.scalar .double (sign ++ word)) := by
  simp only [List.mem_cons, List.not_mem_nil, or_false] at hsign hword
  rcases hsign with rfl | rfl <;> rcases hword with rfl | rfl
  · exact admitted_word (by decide)
  · exact admitted_word (by decide)
  · exact admitted_word (by decide)
  · refine .inl fun text htext => ?_
    obtain rfl := List.mem_singleton.mp htext
    exact Number.special?_eq_none (by decide)

theorem admitted_signedConst {sign : String} (hsign : sign ∈ ["", "-"]) :
    Among Token.Numeric Admitted (signedConst sign) := by
  unfold signedConst
  refine .skip fun _ => .bind .acceptWord fun word? hword => ?_
  cases word? with
  | some word => exact .pure (admitted_signed hsign (hword word rfl))
  | none => exact .bind .expectOf fun _ ht => .pure (admitted_ofNumber ht.2 hsign)

theorem admitted_scalarConst : Among Token.Numeric Admitted scalarConst := by
  have hnumber : Among Token.Numeric Admitted (expectOf [.integerDecimal, .integerHex,
      .floatDecimal] >>= fun t => pure (Const.ofNumber "" t)) :=
    .bind .expectOf fun _ ht => .pure (admitted_ofNumber ht.2 (by decide))
  have htexts : Made true (whileDo (fun c => c.is .text) (expect .text)) :=
    .whileDo (fun _ _ _ => rfl) inferInstance
  unfold scalarConst
  refine .skip fun kind => ?_
  split
  · exact .skip fun _ => .pure (admitted_scalar _ (by decide))
  · exact admitted_signedConst (by decide)
  · exact admitted_signedConst (by decide)
  · exact hnumber
  · exact hnumber
  · exact hnumber
  · exact .skip fun name => .pure (admitted_nameConst name)
  · exact .illegal

/-! ### Options -/

def AllAdmitted (os : List OptionTree) : Prop := ∀ o ∈ os, Admitted o.value

theorem allAdmitted_flatten {leaves : List (List OptionTree)} (h : ∀ os ∈ leaves, AllAdmitted os) :
    AllAdmitted leaves.flatten := by
  intro o ho
  obtain ⟨os, hos, ho⟩ := List.mem_flatten.mp ho
  exact h os hos o ho

theorem among_listItems {α : Type} {P : Token → Prop} {Q : α → Prop} {item : Parser α}
    [Made true item] (h : Among P Q item) (fuel : Nat) :
    Among P (fun xs => ∀ x ∈ xs, Q x) (listItems item fuel) := by
  induction fuel with
  | zero => exact .illegal
  | succ fuel ih =>
      unfold listItems
      exact .skip fun _ => .branch (.pure nofun) (.bind h fun x hx => .skip fun _ =>
        .branch (.bind ih fun xs hxs => .pure (List.forall_mem_cons.mpr ⟨hx, hxs⟩))
          (.pure (by simpa using hx)))

theorem among_aggregateField {α : Type} {P : Token → Prop} {Q : α → Prop}
    {value : String → Parser α} [∀ name, Made true (value name)]
    (h : ∀ name, Among P Q (value name)) (name : String) :
    Among P Q (aggregateField value name) := by
  have hvalue : ∀ key, Among P Q (do
      let leaf ← value (name ++ "." ++ key)
      separator
      return leaf) := fun key => .bind (h _) fun _ hleaf => .skip fun _ => .pure hleaf
  unfold aggregateField
  exact .skip fun key => .skip fun _ => .skip fun _ => .skip fun _ =>
    .branch (hvalue key) (.skip fun _ => hvalue key)

theorem admitted_optionValueAux (position : Position) (fuel : Nat) (name : String) :
    Among Token.Numeric AllAdmitted (optionValueAux position fuel name) := by
  induction fuel generalizing name with
  | zero => exact .illegal
  | succ fuel ih =>
      unfold optionValueAux
      refine .skip fun kind => ?_
      split
      · exact .skip fun _ => .bind (.upTo (among_aggregateField ih name)) fun _ hleaves =>
          .pure (allAdmitted_flatten hleaves)
      · exact .skip fun _ => .bind (among_listItems (ih name) (fuel + 1)) fun _ hleaves =>
          .skip fun _ => .pure (allAdmitted_flatten hleaves)
      · refine .bind admitted_scalarConst fun value hvalue => .pure ?_
        intro o ho
        obtain rfl := List.mem_singleton.mp ho
        exact hvalue

theorem admitted_option : Among Token.Numeric AllAdmitted option := by
  unfold option
  exact .skip fun position => .skip fun name => .skip fun _ =>
    .fuelled (p := fun fuel => optionValueAux position fuel name) fun fuel =>
      admitted_optionValueAux position fuel name

theorem admitted_bracketOptions : Among Token.Numeric AllAdmitted bracketOptions := by
  unfold bracketOptions
  exact .skip fun _ => .branch (.bind (.sepBy1 admitted_option) fun _ hos => .skip fun _ =>
    .pure (allAdmitted_flatten hos)) (.pure nofun)

/-! ### Messages -/

mutual

/-- A message whose fields, and those of all messages in it, have admitted options. -/
def MessageTree.Admitted : MessageTree → Prop
  | .mk _ _ fields messages _ _ => (∀ f ∈ fields, AllAdmitted f.options) ∧ MessagesAdmitted messages

def MessagesAdmitted : List MessageTree → Prop
  | [] => True
  | m :: ms => m.Admitted ∧ MessagesAdmitted ms

end

theorem messagesAdmitted_iff {ms : List MessageTree} :
    MessagesAdmitted ms ↔ ∀ m ∈ ms, m.Admitted := by
  induction ms with
  | nil => simp [MessagesAdmitted]
  | cons m ms ih => simp [MessagesAdmitted, ih]

def MessageItem.Admitted : MessageItem → Prop
  | .fields fs => ∀ f ∈ fs, AllAdmitted f.options
  | .message m => m.Admitted
  | _ => True

theorem admitted_field (oneof : Option String) :
    Among Token.Numeric (fun f => AllAdmitted f.options) (field oneof) := by
  unfold field
  exact .skip fun _ => .skip fun _ => .skip fun _ => .skip fun _ => .skip fun _ => .skip fun _ =>
    .skip fun _ => .bind admitted_bracketOptions fun _ hoptions => .skip fun _ => .skip fun _ =>
      .pure hoptions

theorem admitted_oneof :
    Among Token.Numeric (fun fs => ∀ f ∈ fs, AllAdmitted f.options) oneof := by
  have hitem : ∀ name, Among Token.Numeric (fun f? => ∀ f ∈ f?, AllAdmitted f.options)
      (oneofItem name) := by
    intro name
    unfold oneofItem
    exact .skip fun _ => .branch (.pure (by simp)) (.skip fun _ =>
      .branch (.skip fun _ => .pure (by simp)) (.bind (admitted_field _) fun f hf =>
        .pure (by simpa using hf)))
  unfold oneof
  refine .skip fun _ => .skip fun _ => .skip fun _ => .bind (.upTo (hitem _)) fun items hitems =>
    .pure ?_
  intro f hf
  exact hitems _ (List.reduceOption_mem_iff.mp hf) f rfl

theorem admitted_messageItem {nested : Parser MessageTree} [Made true nested]
    (h : Among Token.Numeric MessageTree.Admitted nested) :
    Among Token.Numeric MessageItem.Admitted (messageItem nested) := by
  unfold messageItem
  exact .skip fun _ => .branch (.pure trivial) (.skip fun _ =>
    .branch (.skip fun _ => .pure trivial) (.skip fun _ =>
    .branch (.bind h fun _ hm => .pure hm) (.skip fun _ =>
    .branch (.skip fun _ => .pure trivial) (.skip fun _ =>
    .branch (.bind admitted_oneof fun _ hfs => .pure hfs) (.skip fun _ =>
    .branch (.skip fun _ => .pure trivial) (.skip fun _ =>
    .branch (.skip fun _ => .pure trivial) (.bind (admitted_field _) fun f hf =>
      .pure (by simpa [MessageItem.Admitted] using hf))))))))

theorem MessageTree.admitted_ofItems {items : List MessageItem} (h : ∀ i ∈ items, i.Admitted)
    (origin : Origin) (name : String) : (ofItems origin name items).Admitted := by
  constructor
  · intro f hf
    obtain ⟨i, hi, hf⟩ := List.mem_flatMap.mp hf
    have hi := h i hi
    cases i with
    | fields fs => exact hi f hf
    | nothing => cases hf
    | options os => cases hf
    | message m => cases hf
    | enum e => cases hf
  · refine messagesAdmitted_iff.mpr fun m hm => ?_
    obtain ⟨i, hi, hm⟩ := List.mem_filterMap.mp hm
    have hi := h i hi
    cases i with
    | message m' =>
        obtain rfl := Option.some.inj hm
        exact hi
    | nothing => cases hm
    | options os => cases hm
    | fields fs => cases hm
    | enum e => cases hm

theorem admitted_messageAux (fuel : Nat) :
    Among Token.Numeric MessageTree.Admitted (messageAux fuel) := by
  induction fuel with
  | zero => exact .illegal
  | succ fuel ih =>
      unfold messageAux
      exact .skip fun _ => .skip fun _ => .skip fun _ => .skip fun _ =>
        .bind (.upTo (admitted_messageItem ih)) fun _ hitems => .skip fun _ =>
          .pure (MessageTree.admitted_ofItems hitems _ _)

/-! ### Files -/

def Definition.Admitted : Definition → Prop
  | .message m => m.Admitted
  | _ => True

def FileItem.Admitted : FileItem → Prop
  | .definition d => d.Admitted
  | _ => True

theorem admitted_fileItem : Among Token.Numeric FileItem.Admitted fileItem := by
  have hmessage : Among Token.Numeric MessageTree.Admitted message := .fuelled admitted_messageAux
  unfold fileItem
  exact .skip fun _ => .branch (.pure trivial) (.skip fun _ =>
    .branch (.skip fun _ => .skip fun _ => .skip fun _ => .skip fun _ => .pure trivial)
    (.skip fun _ => .branch (.skip fun _ => .skip fun _ => .skip fun _ => .pure trivial)
    (.skip fun _ => .branch (.skip fun _ => .pure trivial)
    (.skip fun _ => .branch (.skip fun _ => .pure trivial)
    (.skip fun _ => .branch (.bind hmessage fun _ hm => .pure hm)
    (.skip fun _ => .branch (.skip fun _ => .pure trivial)
    (.skip fun _ => .branch (.skip fun _ => .pure trivial)
    (.skip fun _ => .branch (.skip fun _ => .pure trivial) .illegal))))))))

theorem admitted_file : Among Token.Numeric (fun t => ∀ d ∈ t.definitions, d.Admitted) file := by
  have hmade : Made true (whileDo (fun c => !c.atEnd) fileItem) :=
    .whileDo (fun _ _ _ => rfl) inferInstance
  refine Among.file grammar (.bind (.whileDo admitted_fileItem) fun items hitems => .pure ?_)
  intro d hd
  rcases mem_definitions_foldl_add hd with hd | hd
  · cases hd
  · exact hitems _ hd

/-! ### Lowering -/

theorem known_resolveType (declared scope : List String) (name : String) :
    (resolveType declared scope name).Known := by
  unfold resolveType
  cases hscalar : scalars.lookup name with
  | some base =>
      obtain ⟨before, after, hsplit, -⟩ := List.lookup_eq_some_iff.mp hscalar
      have hmem : (name, base) ∈ scalars := by simp [hsplit]
      have hall : ∀ entry ∈ scalars, entry.2 ∈ FieldType.scalars := by decide
      exact hall _ hmem
  | none =>
      dsimp only
      split <;> trivial

theorem TypeTree.known_fieldType (declared scope : List String) (repeated : Bool) (t : TypeTree) :
    (t.fieldType declared scope repeated).Known := by
  have hname := known_resolveType declared scope
  unfold fieldType
  split
  · exact ⟨hname _, hname _⟩
  · repeat' split
    · exact ⟨hname _, hname _⟩
    · exact hname _
    · exact hname _

theorem FieldTree.sound_lower {f : FieldTree} (h : AllAdmitted f.options)
    (declared scope : List String) (comments : CommentsOf) :
    (f.lower declared scope comments).Sound .protobuf := by
  refine ⟨f.type.known_fieldType declared scope _, ?_⟩
  unfold FieldTree.lower
  dsimp only
  cases hfound : f.options.reverse.find? fun o => o.name == "default" with
  | none => exact .inl nofun
  | some o =>
      have ho := h o (List.mem_reverse.mp (List.mem_of_find?_eq_some hfound))
      exact ho.imp id fun hnon => ⟨rfl, hnon⟩

mutual

theorem MessageTree.Admitted.sound (declared scope : List String) (comments : CommentsOf) :
    (m : MessageTree) → m.Admitted → ∀ st ∈ m.lower declared scope comments, st.Sound .protobuf
  | .mk origin name fields messages enums options, h, st, hst => by
      rcases List.mem_append.mp hst with hst | hst
      · rcases List.mem_cons.mp hst with rfl | hst
        · intro f hf
          obtain ⟨tree, htree, rfl⟩ := List.mem_map.mp hf
          exact tree.sound_lower (h.1 tree htree) declared _ comments
        · obtain ⟨e, -, rfl⟩ := List.mem_map.mp hst
          trivial
      · exact messagesSound declared (scope ++ [name]) comments messages h.2 st hst

theorem messagesSound (declared scope : List String) (comments : CommentsOf) :
    (ms : List MessageTree) → MessagesAdmitted ms →
      ∀ st ∈ lowerAll declared scope comments ms, st.Sound .protobuf
  | [], _, st, hst => by cases hst
  | m :: ms, h, st, hst => by
      rcases List.mem_append.mp hst with hst | hst
      · exact MessageTree.Admitted.sound declared scope comments m h.1 st hst
      · exact messagesSound declared scope comments ms h.2 st hst

end

theorem Definition.Admitted.lower {d : Definition} (h : d.Admitted) (declared : List String)
    (comments : CommentsOf) : ∀ st ∈ d.lower declared comments, st.Sound .protobuf := by
  intro st hst
  cases d with
  | message m => exact MessageTree.Admitted.sound declared [] comments m h st hst
  | enum e =>
      obtain rfl := List.mem_singleton.mp hst
      trivial
  | service s =>
      obtain rfl := List.mem_singleton.mp hst
      intro f hf
      obtain ⟨r, -, rfl⟩ := List.mem_map.mp hf
      refine ⟨known_resolveType declared [] _, fun p hp => ?_⟩
      obtain rfl := List.mem_singleton.mp hp
      exact known_resolveType declared [] _

end Proto

/-! ## Documents -/

namespace Load

open Files (SourceFile)

theorem sound_of_parseText {dialect : Dialect} {path text : String} {revise : Bool} {r : Reporter}
    {d : Document} (h : (parseText dialect path text revise r).1 = .ok d) : d.Sound := by
  rw [parseText_eq] at h
  simp only [Language.conclude] at h
  split at h
  · rename_i tree htree hfailed
    obtain rfl := Except.ok.inj h
    intro st hst
    cases dialect with
    | thrift =>
        obtain ⟨t, ht, rfl⟩ := List.mem_map.mp hst
        exact (Thrift.plain_file (Cursor.numeric_ofSource _ path text r) (Prod.ext htree rfl) t
          ht).lower _
    | protobuf =>
        obtain ⟨t, ht, hst⟩ := List.mem_flatMap.mp hst
        exact (Proto.admitted_file (Cursor.numeric_ofSource _ path text r) (Prod.ext htree rfl) t
          ht).lower _ _ st hst
  · cases h

/-- What a file declares is made of known types and of constants that its language can
write. -/
theorem sound_of_compileFile {f : SourceFile} {revise : Bool} {r : Reporter} {d : Document}
    (h : (compileFile f revise r).1 = .ok (some d)) : d.Sound := by
  obtain ⟨dialect, text, hparse⟩ := compileFile_eq_some (Prod.ext h rfl)
  exact sound_of_parseText (congrArg Prod.fst hparse)

theorem sound_of_loadAll {l : Loader} {size : Nat} {entries : List String} {r : Reporter}
    {docs : List Document} (h : (l.loadAll size entries r).docs = .ok docs) :
    ∀ d ∈ docs, d.Sound := by
  intro d hd
  obtain ⟨-, hloaded⟩ := documentAt_of_loadAll h
  obtain ⟨uri, hfound⟩ := hloaded d hd
  obtain ⟨f, fs, -, hcompile⟩ := Loader.documentAt_eq_ok hfound
  have hsound : d.unmarked.Sound := sound_of_compileFile hcompile
  exact hsound

end Load
end ClientGen
