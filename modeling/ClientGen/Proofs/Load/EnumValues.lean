import ClientGen.Proofs.Document.Numerals
import ClientGen.Proofs.Load.Surroundings
import Mathlib.Data.List.Forall2

/-! # Enumeration values

An enumeration in a file of either language, with the values of its members as they are
written. The parse gives exactly these values if all of them can be read, and otherwise
fails at the first one that cannot (`parseText_enumValues`): every number of 64 bits can
be read but the lowest one (`lowest_value_refused`).
-/

namespace ClientGen

open Source

/-! ## Where reading stops -/

section Stops

variable {X : Type} {numeral? : X → Option Numeral}

/-- The first of some parts whose value cannot be read, between those in front of it and
those behind. -/
structure StopsAt (numeral? : X → Option Numeral) (xs good : List X) (x : X) (n : Numeral)
    (rest : List X) : Prop where
  parts : xs = good ++ x :: rest
  readable : ∀ y ∈ good, ∀ k ∈ numeral? y, InRange k.value
  own : numeral? x = some n
  outside : ¬ InRange n.value

/-- Among parts that cannot all be read there is a first one that cannot. -/
theorem exists_stopsAt {xs : List X}
    (hunreadable : ¬ ∀ x ∈ xs, ∀ n ∈ numeral? x, InRange n.value) :
    ∃ good x n rest, StopsAt numeral? xs good x n rest := by
  induction xs with
  | nil => exact absurd nofun hunreadable
  | cons x xs ih =>
    by_cases hx : ∀ n ∈ numeral? x, InRange n.value
    · obtain ⟨good, y, n, rest, hstops⟩ :=
        ih fun hxs => hunreadable (List.forall_mem_cons.mpr ⟨hx, hxs⟩)
      exact ⟨x :: good, y, n, rest, congrArg (x :: ·) hstops.parts,
        List.forall_mem_cons.mpr ⟨hx, hstops.readable⟩, hstops.own, hstops.outside⟩
    · obtain ⟨n, hown, houtside⟩ : ∃ n, numeral? x = some n ∧ ¬ InRange n.value := by
        simpa using hx
      exact ⟨[], x, n, xs, rfl, nofun, hown, houtside⟩

end Stops

/-- A member of a document has the name and the value that are written. -/
def Agrees (w : String × Option Numeral) (m : EnumMember) : Prop :=
  m.name = w.1 ∧ ∀ n ∈ w.2, m.value = n.value

/-- Trees that are what some forms are read into, one by one. -/
theorem forall₂_of_map_eq {X T U : Type} {read : X → U} {erase : T → U} {xs : List X}
    {trees : List T} (hsame : trees.map erase = xs.map read) :
    List.Forall₂ (fun x t => erase t = read x) xs trees := by
  have hpaired : List.Forall₂ (fun u v => v = u) (xs.map read) (trees.map erase) := by
    rw [hsame]
    exact List.forall₂_same.mpr fun _ _ => rfl
  rwa [List.forall₂_map_left_iff, List.forall₂_map_right_iff] at hpaired

/-! ## Thrift -/

namespace Thrift

structure WrittenMember where
  name : String
  numeral : Option Numeral
  annotations : List Annotation := []
  layout : Layout := fun _ => .none

structure WrittenEnum where
  name : String
  members : List WrittenMember
  annotations : List Annotation := []
  layout : Layout := fun _ => .none

def valueFaces : Option Numeral → List Face
  | none => []
  | some n => Face.mark .equal :: n.faces

def WrittenMember.faces (m : WrittenMember) : List Face :=
  Face.word m.name :: (valueFaces m.numeral ++
    (spellAnnotations (m.layout.part 0) m.annotations ++ m.layout.separator))

def WrittenEnum.faces (e : WrittenEnum) : List Face :=
  Face.word "enum" :: Face.word e.name :: Face.mark .curlyOpen ::
    (e.members.flatMap WrittenMember.faces ++ [Face.mark .curlyClose] ++
      (spellAnnotations (e.layout.part 0) e.annotations ++ e.layout.separator))

def WrittenMember.tree (m : WrittenMember) : MemberTree :=
  { name := m.name, value := m.numeral.map Numeral.value,
    annotations := m.annotations.map annotationErased }

def WrittenEnum.tree (e : WrittenEnum) : EnumTree :=
  { name := e.name, members := e.members.map WrittenMember.tree,
    annotations := e.annotations.map annotationErased }

theorem reads_valueFaces {value : Option Numeral} (hinRange : ∀ n ∈ value, InRange n.value) :
    Reads memberValue (valueFaces value) (avoids [.equal] []) (· = value.map Numeral.value) := by
  unfold memberValue
  cases value with
  | none =>
    refine reads_accept_none.ahead (fun o hlimit => hlimit) ?_
    rintro _ rfl
    exact Reads.pure rfl
  | some n =>
    refine (reads_accept rfl).token ?_
    rintro _ rfl
    have hnumber : Reads Parser.integer n.faces (avoids [.equal] []) (· = n.value) :=
      (Numeral.reads (hinRange n rfl)).mono (fun _ _ => trivial) fun _ h => h
    exact hnumber.map fun k hsame => congrArg some hsame

theorem reads_writtenMember {m : WrittenMember} (hinRange : ∀ n ∈ m.numeral, InRange n.value) :
    Reads enumMember m.faces (avoids continuations []) (·.erase = m.tree) := by
  unfold enumMember WrittenMember.faces
  refine reads_place.ahead (m := anything) (fun _ _ => trivial) fun first _ => ?_
  refine (reads_identifier m.name).token fun name hnamed => ?_
  refine (reads_valueFaces hinRange).bind ?_ fun value hsame => ?_
  · exact fun o hlimit => avoids_or (avoids_ending _ m.layout _ (by decide) (by decide) (by decide))
      (avoids_of_continuations hlimit (by decide) (by simp))
  refine reads_ending _ m.layout m.annotations first fun bs decl hnoted => ?_
  simp [MemberTree.erase, WrittenMember.tree, hnamed, hsame, hnoted]

theorem refuses_writtenMember {m : WrittenMember} {n : Numeral} (hown : m.numeral = some n)
    (houtside : ¬ InRange n.value) :
    Refuses enumMember m.faces Code.invalidNumber n.magnitude.refusal := by
  have hvalue : Refuses memberValue (Face.mark .equal :: n.faces) Code.invalidNumber
      n.magnitude.refusal := by
    unfold memberValue
    refine Refuses.token (reads_accept rfl) ?_
    rintro _ rfl
    exact (Numeral.refuses houtside).first
  unfold enumMember WrittenMember.faces
  refine Refuses.ahead reads_place (m := anything) (fun _ => trivial) fun first _ => ?_
  refine Refuses.token (reads_identifier m.name) fun name _ => ?_
  rw [hown]
  exact (hvalue.append _).first

theorem loopItem_writtenMember {m : WrittenMember} (hinRange : ∀ n ∈ m.numeral, InRange n.value) :
    LoopItem enumMember WrittenMember.faces MemberTree.erase WrittenMember.tree
      (fun o => !o.any fun f => f.kind == .curlyClose) (avoids continuations []) m :=
  ⟨reads_writtenMember hinRange, Face.word m.name, rfl, by simp, avoids_word (by decide) rfl⟩

section Enum

variable {e : WrittenEnum}

theorem reads_writtenEnum (hreadable : ∀ m ∈ e.members, ∀ n ∈ m.numeral, InRange n.value) :
    Reads enumDefinition e.faces (avoids continuations []) fun t =>
      (Definition.enum t).erase = .enum e.tree := by
  unfold enumDefinition WrittenEnum.faces
  refine reads_place.ahead (m := anything) (fun _ _ => trivial) fun first _ => ?_
  refine (reads_expectWord (by simp)).token fun word _ => ?_
  refine (reads_identifier e.name).token fun name hnamed => ?_
  refine (reads_expect rfl).token fun _ _ => ?_
  have hbody := reads_upTo e.members (avoids_mark (by decide) (by decide))
    fun m h => loopItem_writtenMember (hreadable m h)
  refine hbody.bind (fun _ _ => trivial) fun members hsame => ?_
  refine reads_ending _ e.layout e.annotations first fun bs decl hnoted => ?_
  simp [Definition.erase, WrittenEnum.tree, hnamed, hsame, hnoted]

theorem loopItem_writtenEnum (hreadable : ∀ m ∈ e.members, ∀ n ∈ m.numeral, InRange n.value) :
    LoopItem item Prod.fst eraseItem Prod.snd (fun o => !o.isNone) (avoids continuations [])
      (e.faces, .inr (.enum e.tree)) := by
  refine ⟨?_, Face.word "enum", rfl, rfl, avoids_word (by decide) rfl⟩
  have hdeclaration : Reads definition e.faces (avoids continuations []) fun d =>
      d.erase = .enum e.tree := by
    rw [definition_eq]
    refine Reads.byWord (f := Face.word "enum") rfl rfl ?_
    exact (reads_writtenEnum hreadable).andThen fun _ hsame => Reads.pure hsame
  rw [item_eq]
  refine Reads.byWord_none rfl (not_isWord_headerStatements (w := "enum") (by decide)) ?_
  exact hdeclaration.andThen fun d hsame => Reads.pure (congrArg Sum.inr hsame)

variable {good rest : List WrittenMember} {m : WrittenMember} {n : Numeral}

theorem refuses_writtenEnum (hstops : StopsAt WrittenMember.numeral e.members good m n rest) :
    Refuses enumDefinition e.faces Code.invalidNumber n.magnitude.refusal := by
  unfold enumDefinition WrittenEnum.faces
  refine Refuses.ahead reads_place (m := anything) (fun _ => trivial) fun first _ => ?_
  refine Refuses.token (reads_expectWord (by simp)) fun word _ => ?_
  refine Refuses.token (reads_identifier e.name) fun name _ => ?_
  refine Refuses.token (reads_expect rfl) fun _ _ => ?_
  have hstart : ∃ f ∈ m.faces.head?, f.kind ≠ .curlyClose ∧ avoids continuations [] (some f) :=
    ⟨_, rfl, by simp, avoids_word (by decide) rfl⟩
  have hbody := refuses_upTo good (fun m h => loopItem_writtenMember (hstops.readable m h)) hstart
    (refuses_writtenMember hstops.own hstops.outside)
  rw [hstops.parts, List.flatMap_append, List.flatMap_cons]
  simp only [List.append_assoc]
  rw [← List.append_assoc]
  exact (hbody.append _).first

theorem refuses_item (hstops : StopsAt WrittenMember.numeral e.members good m n rest) :
    Refuses item e.faces Code.invalidNumber n.magnitude.refusal := by
  rw [item_eq]
  refine Refuses.byWord_none rfl (not_isWord_headerStatements (w := "enum") (by decide)) ?_
  refine Refuses.first ?_
  rw [definition_eq]
  refine Refuses.byWord (f := Face.word "enum") rfl rfl ?_
  exact (refuses_writtenEnum hstops).first

end Enum

theorem membersFrom_agree (comments : CommentsOf) {trees : List MemberTree}
    {members : List WrittenMember}
    (hsame : trees.map MemberTree.erase = members.map WrittenMember.tree) (next : Int) :
    List.Forall₂ Agrees (members.map fun m => (m.name, m.numeral))
      (membersFrom comments next trees) := by
  have hpaired := forall₂_of_map_eq hsame
  clear hsame
  rw [List.forall₂_map_left_iff]
  induction hpaired generalizing next with
  | nil => exact .nil
  | @cons m t members trees hown hothers ih =>
    have hname : t.name = m.name := congrArg MemberTree.name hown
    have hvalue : t.value = m.numeral.map Numeral.value := congrArg MemberTree.value hown
    refine .cons ⟨hname, fun n hwritten => ?_⟩ (ih _)
    have hwritten' : m.numeral = some n := hwritten
    simp [hvalue, hwritten']

end Thrift

/-! ## Protobuf -/

namespace Proto

structure WrittenMember where
  name : String
  numeral : Numeral
  options : List OptionForm := []

structure WrittenEnum where
  name : String
  items : List (BodyForm WrittenMember)

namespace WrittenMember

def faces (m : WrittenMember) : List Face :=
  Face.word m.name :: Face.mark .equal ::
    (m.numeral.faces ++ (spellBrackets m.options ++ [Face.mark .semicolon]))

/-- Whether a member can be written: its name opens no other statement. -/
def spellable (m : WrittenMember) : Bool :=
  !(["option", "reserved"].contains m.name) && m.options.all OptionForm.spellable

def tree (m : WrittenMember) : MemberTree :=
  { name := m.name, number := m.numeral.value, options := m.options.flatMap OptionForm.entries }

end WrittenMember

/-- The value in an item of an enumeration, if it is a member. -/
def numeralOf (i : BodyForm WrittenMember) : Option Numeral := i.element?.map (·.numeral)

namespace WrittenEnum

def faces (e : WrittenEnum) : List Face :=
  Face.word "enum" :: Face.word e.name :: Face.mark .curlyOpen ::
    (e.items.flatMap (BodyForm.spelled WrittenMember.faces) ++ [Face.mark .curlyClose])

def spellable (e : WrittenEnum) : Bool :=
  e.items.all (BodyForm.spellable ["reserved"] WrittenMember.spellable)

def members (e : WrittenEnum) : List WrittenMember := e.items.filterMap BodyForm.element?

def tree (e : WrittenEnum) : EnumTree :=
  { name := e.name, members := e.members.map WrittenMember.tree,
    options := e.items.flatMap BodyForm.entries }

end WrittenEnum

theorem reads_writtenMember {m : WrittenMember} (hspellable : m.spellable = true)
    (hinRange : InRange m.numeral.value) :
    Reads enumMember m.faces anything (·.erase = m.tree) := by
  simp only [WrittenMember.spellable, Bool.and_eq_true, List.all_eq_true] at hspellable
  unfold enumMember WrittenMember.faces
  refine reads_place.ahead (m := anything) (fun _ _ => trivial) fun first _ => ?_
  refine (reads_identifier m.name).token fun name hnamed => ?_
  refine (reads_expect rfl).token fun _ _ => ?_
  refine (Numeral.reads hinRange).bind (fun _ _ => trivial) fun number hsame => ?_
  refine (reads_bracketOptions m.options hspellable.2).bind ?_ fun os hnoted => ?_
  · exact fun _ _ => avoids_mark (by decide) (by decide)
  refine (reads_expect rfl).token fun _ _ => ?_
  refine (reads_declare first).andThen fun decl _ => Reads.pure ?_
  simp [MemberTree.erase, WrittenMember.tree, hnamed, hsame, hnoted]

theorem refuses_writtenMember {m : WrittenMember} (houtside : ¬ InRange m.numeral.value) :
    Refuses enumMember m.faces Code.invalidNumber m.numeral.magnitude.refusal := by
  unfold enumMember WrittenMember.faces
  refine Refuses.ahead reads_place (m := anything) (fun _ => trivial) fun first _ => ?_
  refine Refuses.token (reads_identifier m.name) fun name _ => ?_
  refine Refuses.token (reads_expect rfl) fun _ _ => ?_
  exact ((Numeral.refuses houtside).append _).first

/-- A statement that does not start with a semicolon. -/
theorem refuses_otherStatement {β : Type} {p q : Parser β} {f : Face} {s : List Face}
    {code : Code} {message : String} (hhead : s.head? = some f) (hother : f.kind ≠ .semicolon)
    (hrefused : Refuses q s code message) :
    Refuses (Parser.accept .semicolon >>= fun b => if b = true then p else q) s code message := by
  refine Refuses.ahead reads_accept_none (fun o => ?_) ?_
  · rw [hhead, Option.some_or]
    exact avoids_of_kind (by simpa using hother)
  · rintro _ rfl
    exact hrefused

theorem WrittenMember.name_ne {m : WrittenMember} (hspellable : m.spellable = true) :
    m.name ≠ "option" ∧ m.name ≠ "reserved" := by
  simp only [WrittenMember.spellable, Bool.and_eq_true, Bool.not_eq_true', List.contains_eq_mem,
    decide_eq_false_iff_not, List.mem_cons, not_or] at hspellable
  exact ⟨hspellable.1.1, hspellable.1.2.1⟩

theorem reads_writtenItem {i : BodyForm WrittenMember}
    (hspellable : i.spellable ["reserved"] WrittenMember.spellable = true)
    (hinRange : ∀ n ∈ numeralOf i, InRange n.value) :
    Reads enumItem (i.spelled WrittenMember.faces) anything
      fun b => b.erase MemberTree.erase = i.item WrittenMember.tree := by
  cases i with
  | empty => exact reads_enumItem .empty rfl
  | option o => exact reads_enumItem (.option o) hspellable
  | skipped word body => exact reads_enumItem (.skipped word body) hspellable
  | element m =>
    have hnamed := WrittenMember.name_ne hspellable
    unfold enumItem
    refine reads_otherStatement (f := Face.word m.name) rfl (by simp) ?_
    refine Reads.askWord false rfl (by simpa using hnamed.1) ?_
    refine Reads.askWord false rfl (by simpa using hnamed.2) ?_
    exact (reads_writtenMember hspellable (hinRange _ rfl)).andThen fun t hsame =>
      Reads.pure (congrArg BodyItem.element hsame)

theorem refuses_enumItem {m : WrittenMember} (hspellable : m.spellable = true)
    (houtside : ¬ InRange m.numeral.value) :
    Refuses enumItem m.faces Code.invalidNumber m.numeral.magnitude.refusal := by
  have hnamed := WrittenMember.name_ne hspellable
  unfold enumItem
  refine refuses_otherStatement (f := Face.word m.name) rfl (by simp) ?_
  refine Refuses.askWord false rfl (by simpa using hnamed.1) ?_
  refine Refuses.askWord false rfl (by simpa using hnamed.2) ?_
  exact (refuses_writtenMember houtside).first

theorem loopItem_writtenItem {i : BodyForm WrittenMember}
    (hspellable : i.spellable ["reserved"] WrittenMember.spellable = true)
    (hinRange : ∀ n ∈ numeralOf i, InRange n.value) :
    LoopItem enumItem (BodyForm.spelled WrittenMember.faces) (BodyItem.erase MemberTree.erase)
      (BodyForm.item WrittenMember.tree) (fun o => !o.any fun f => f.kind == .curlyClose) anything
      i := by
  obtain ⟨f, hhead, hopen'⟩ : ∃ f, (i.spelled WrittenMember.faces).head? = some f ∧
      f.kind ≠ .curlyClose :=
    head_bodyForm (fun m _ => ⟨Face.word m.name, rfl, by simp⟩) i hspellable
  exact ⟨reads_writtenItem hspellable hinRange, f, hhead, by simpa using hopen', trivial⟩

section Enum

variable {e : WrittenEnum}

theorem reads_writtenEnum (hspellable : e.spellable = true)
    (hreadable : ∀ i ∈ e.items, ∀ n ∈ numeralOf i, InRange n.value) :
    Reads enumDefinition e.faces anything (·.erase = e.tree) := by
  unfold enumDefinition WrittenEnum.faces
  have hbody := reads_upTo (m := anything) e.items trivial
    fun i h => loopItem_writtenItem (List.all_eq_true.mp hspellable i h) (hreadable i h)
  refine reads_declaration "enum" e.name hbody fun word name items decl hsame hread => ?_
  simp [EnumTree.erase, WrittenEnum.tree, WrittenEnum.members, hsame, elements_of_items hread,
    allOptions_of_items hread]

theorem loopItem_writtenEnum (hspellable : e.spellable = true)
    (hreadable : ∀ i ∈ e.items, ∀ n ∈ numeralOf i, InRange n.value) :
    LoopItem fileItem Prod.fst FileItem.erase Prod.snd (fun o => !o.isNone) anything
      (e.faces, .definition (.enum e.tree)) := by
  refine ⟨?_, Face.word "enum", rfl, rfl, trivial⟩
  refine reads_fileStatement rfl ?_
  exact (reads_writtenEnum hspellable hreadable).andThen fun t hsame =>
    Reads.pure (congrArg (FileItem.definition ∘ Definition.enum) hsame)

variable {good rest : List (BodyForm WrittenMember)} {i : BodyForm WrittenMember} {n : Numeral}

theorem refuses_writtenEnum (hspellable : e.spellable = true)
    (hstops : StopsAt numeralOf e.items good i n rest) :
    Refuses enumDefinition e.faces Code.invalidNumber n.magnitude.refusal := by
  have hall : ∀ j ∈ good ++ i :: rest, j.spellable ["reserved"] WrittenMember.spellable = true :=
    hstops.parts ▸ List.all_eq_true.mp hspellable
  obtain ⟨m, rfl, rfl⟩ : ∃ m, i = .element m ∧ m.numeral = n := by
    have hown := hstops.own
    cases i with
    | element m => exact ⟨m, rfl, Option.some.inj hown⟩
    | empty => cases hown
    | option o => cases hown
    | skipped word body => cases hown
  unfold enumDefinition WrittenEnum.faces
  refine Refuses.ahead reads_place (m := anything) (fun _ => trivial) fun first _ => ?_
  refine Refuses.token (reads_expectWord (by simp)) fun word _ => ?_
  refine Refuses.token (reads_identifier e.name) fun name _ => ?_
  refine Refuses.token (reads_expect rfl) fun _ _ => ?_
  have hstart : ∃ f ∈ m.faces.head?, f.kind ≠ .curlyClose ∧ anything (some f) :=
    ⟨_, rfl, by simp, trivial⟩
  have hgood : ∀ j ∈ good, LoopItem enumItem (BodyForm.spelled WrittenMember.faces)
      (BodyItem.erase MemberTree.erase) (BodyForm.item WrittenMember.tree)
      (fun o => !o.any fun f => f.kind == .curlyClose) anything j := fun j h =>
    loopItem_writtenItem (hall j (List.mem_append_left _ h)) (hstops.readable j h)
  have hbody := refuses_upTo good hgood hstart
    (refuses_enumItem (hall (.element m) (by simp)) hstops.outside)
  rw [hstops.parts, List.flatMap_append, List.flatMap_cons, BodyForm.spelled]
  simp only [List.append_assoc]
  rw [← List.append_assoc]
  exact (hbody.append _).first

theorem refuses_fileItem (hspellable : e.spellable = true)
    (hstops : StopsAt numeralOf e.items good i n rest) :
    Refuses fileItem e.faces Code.invalidNumber n.magnitude.refusal := by
  rw [fileItem_eq]
  refine refuses_otherStatement (f := Face.word "enum") rfl (by decide) ?_
  refine Refuses.byWord (f := Face.word "enum") rfl rfl ?_
  exact (refuses_writtenEnum hspellable hstops).first

end Enum

theorem members_agree {trees : List MemberTree} {members : List WrittenMember}
    (hsame : trees.map MemberTree.erase = members.map WrittenMember.tree)
    {lower : MemberTree → EnumMember}
    (hkept : ∀ t, (lower t).name = t.name ∧ (lower t).value = t.number) :
    List.Forall₂ Agrees (members.map fun m => (m.name, some m.numeral)) (trees.map lower) := by
  rw [List.forall₂_map_left_iff, List.forall₂_map_right_iff]
  refine (forall₂_of_map_eq hsame).imp fun m t hown => ⟨?_, ?_⟩
  · exact (hkept t).1.trans (congrArg MemberTree.name hown)
  · rintro n ⟨⟩
    exact (hkept t).2.trans (congrArg MemberTree.number hown)

end Proto

/-! ## Both languages -/

inductive WrittenEnum where
  | thrift (e : Thrift.WrittenEnum)
  | protobuf (e : Proto.WrittenEnum)

namespace WrittenEnum

def dialect : WrittenEnum → Dialect
  | thrift _ => .thrift
  | protobuf _ => .protobuf

def name : WrittenEnum → String
  | thrift e => e.name
  | protobuf e => e.name

def faces : WrittenEnum → List Face
  | thrift e => e.faces
  | protobuf e => e.faces

def spellable : WrittenEnum → Bool
  | thrift _ => true
  | protobuf e => e.spellable

def members : WrittenEnum → List (String × Option Numeral)
  | thrift e => e.members.map fun m => (m.name, m.numeral)
  | protobuf e => e.members.map fun m => (m.name, some m.numeral)

def Readable (e : WrittenEnum) : Prop := ∀ m ∈ e.members, ∀ n ∈ m.2, InRange n.value

def Describes (e : WrittenEnum) (d : Document) : Prop :=
  ∃ st, .enum st ∈ d.statements ∧ st.name = e.name ∧
    List.Forall₂ Agrees e.members st.members

end WrittenEnum

theorem Thrift.describes_document {t : Tree} {e : WrittenEnum} {d : Definition}
    (hlisted : d ∈ t.definitions) (herased : d.erase = .enum e.tree) (path : String)
    (comments : CommentsOf) : (ClientGen.WrittenEnum.thrift e).Describes
      (t.document path comments) := by
  cases d with
  | enum tree =>
    have hsame := Definition.enum.inj herased
    have hmembers := congrArg EnumTree.members hsame
    exact ⟨_, List.mem_map_of_mem hlisted, congrArg EnumTree.name hsame,
      membersFrom_agree comments hmembers 0⟩
  | const c => cases herased
  | typedef c => cases herased
  | struct c => cases herased
  | service c => cases herased

theorem Proto.describes_document {t : Tree} {e : WrittenEnum} {d : Definition}
    (hlisted : d ∈ t.definitions) (herased : d.erase = .enum e.tree) (path : String)
    (comments : CommentsOf) : (ClientGen.WrittenEnum.protobuf e).Describes
      (t.document path comments) := by
  cases d with
  | enum tree =>
    have hsame := Definition.enum.inj herased
    have hname : tree.name = e.name := congrArg EnumTree.name hsame
    have hmembers : tree.members.map MemberTree.erase = e.members.map WrittenMember.tree :=
      congrArg EnumTree.members hsame
    refine ⟨tree.lower [] comments,
      List.mem_flatMap.mpr ⟨_, hlisted, List.mem_singleton.mpr rfl⟩, ?_, ?_⟩
    · simp [EnumTree.lower, flatName, hname, ClientGen.WrittenEnum.name]
    · exact members_agree hmembers fun _ => ⟨rfl, rfl⟩
  | message m => cases herased
  | service s => cases herased

/-! ## Texts -/

namespace Load

section Enum

variable {before after : List Face} {e : WrittenEnum}

theorem reads_enumAmong (hwritten₁ : DeclarationRow e.dialect before)
    (hwritten₂ : DeclarationRow e.dialect after) (hspellable : e.spellable = true)
    (hreadable : e.Readable) :
    Reads (language e.dialect).grammar.items (before ++ e.faces ++ after) (· = none)
      fun t => ∀ path comments, e.Describes ((language e.dialect).document path comments t) := by
  cases e with
  | thrift e =>
    have hall : ∀ m ∈ e.members, ∀ n ∈ m.numeral, InRange n.value :=
      fun m h => hreadable (m.name, m.numeral) (List.mem_map_of_mem h)
    refine (Thrift.reads_among hwritten₁ hwritten₂ (Thrift.loopItem_writtenEnum hall)).imp
      fun t hfound => ?_
    obtain ⟨d, hlisted, herased⟩ := hfound
    exact Thrift.describes_document hlisted herased
  | protobuf e =>
    have hall : ∀ i ∈ e.items, ∀ n ∈ Proto.numeralOf i, InRange n.value := by
      intro i h n hwritten
      obtain ⟨m, helement, rfl⟩ := Option.map_eq_some_iff.mp hwritten
      exact hreadable (m.name, some m.numeral)
        (List.mem_map_of_mem (List.mem_filterMap.mpr ⟨i, h, helement⟩)) _ rfl
    refine (Proto.reads_among hwritten₁ hwritten₂ (Proto.loopItem_writtenEnum hspellable hall)).imp
      fun t hfound => ?_
    obtain ⟨d, hlisted, herased⟩ := hfound
    exact Proto.describes_document hlisted herased

theorem refuses_enumAmong (hwritten : DeclarationRow e.dialect before)
    (hspellable : e.spellable = true) (hunreadable : ¬ e.Readable) :
    ∃ m ∈ e.members, ∃ n ∈ m.2, ¬ InRange n.value ∧
      Refuses (language e.dialect).grammar.items (before ++ e.faces) Code.invalidNumber
        n.magnitude.refusal := by
  cases e with
  | thrift e =>
    have hunread : ¬ ∀ m ∈ e.members, ∀ n ∈ m.numeral, InRange n.value := by
      intro hall
      refine hunreadable fun m h => ?_
      obtain ⟨m', hlisted, rfl⟩ := List.mem_map.mp h
      exact hall m' hlisted
    obtain ⟨good, m, n, rest, hstops⟩ := exists_stopsAt hunread
    have hlisted : m ∈ e.members := by simp [hstops.parts]
    exact ⟨_, List.mem_map_of_mem hlisted, n, hstops.own, hstops.outside,
      Thrift.refuses_among hwritten rfl (avoids_word (by decide) rfl) (Thrift.refuses_item hstops)⟩
  | protobuf e =>
    have hunread : ¬ ∀ i ∈ e.items, ∀ n ∈ Proto.numeralOf i, InRange n.value := by
      intro hall
      refine hunreadable fun m h => ?_
      obtain ⟨m', hlisted, rfl⟩ := List.mem_map.mp h
      obtain ⟨i, hmember, helement⟩ := List.mem_filterMap.mp hlisted
      rintro n ⟨⟩
      exact hall i hmember _ (by simp [Proto.numeralOf, helement])
    obtain ⟨good, i, n, rest, hstops⟩ := exists_stopsAt hunread
    obtain ⟨m, helement, rfl⟩ := Option.map_eq_some_iff.mp hstops.own
    have hlisted : m ∈ e.members := List.mem_filterMap.mpr ⟨i, by simp [hstops.parts], helement⟩
    exact ⟨_, List.mem_map_of_mem hlisted, m.numeral, rfl, hstops.outside,
      Proto.refuses_among hwritten rfl (Proto.refuses_fileItem hspellable hstops)⟩

end Enum

/-- The values of an enumeration, for every text of either language that has it among any
declarations. If all values can be read, the parse gives a document with the enumeration
and exactly these values; if not, it fails and names the digits of one that cannot. -/
theorem parseText_enumValues (e : WrittenEnum) (hspellable : e.spellable = true)
    (path text : String) (revise : Bool) (r : Reporter) (hcodes : r.nonfatal = Code.harmless)
    (hsilent : (lexText e.dialect path text r).2.reported = r.reported)
    {before after : List Face} (hwritten : DeclarationRow e.dialect before)
    (hspelled : significant (lexText e.dialect path text r).1 = before ++ e.faces ++ after) :
    (e.Readable → DeclarationRow e.dialect after →
      ∃ d, parseText e.dialect path text revise r = (.ok d, r) ∧ e.Describes d) ∧
    (¬ e.Readable → ∃ m ∈ e.members, ∃ n ∈ m.2, ¬ InRange n.value ∧
      ∃ d, parseText e.dialect path text revise r = (.error (.diagnostic d), r.report d) ∧
        d.code = Code.invalidNumber ∧ d.message = n.magnitude.refusal) := by
  refine ⟨fun hreadable hwritten' => ?_, fun hunreadable => ?_⟩
  · obtain ⟨t, comments, hparsed, hdescribes⟩ := parseText_of_reads hsilent hspelled
      (reads_enumAmong hwritten hwritten' hspellable hreadable) revise
    exact ⟨_, hparsed, hdescribes _ _⟩
  · obtain ⟨m, hlisted, n, hown, houtside, hrefuses⟩ :=
      refuses_enumAmong hwritten hspellable hunreadable
    obtain ⟨d, hfailure, hcode, hmessage⟩ :=
      parseText_of_refuses hcodes hsilent hspelled hrefuses revise
    exact ⟨m, hlisted, n, hown, houtside, d, hfailure, hcode, hmessage⟩

/-- A value in each spelling, and at the upper end of the range. -/
def spelledEnum : WrittenEnum :=
  .protobuf {
    name := "E"
    items :=
      [.element { name := "A", numeral := { negative := true, magnitude := .decimal 1 } },
        .skipped "reserved" [{ kind := .integerDecimal, value := "5" }],
        .element { name := "B", numeral := {
          negative := false,
          magnitude := .hex "7fffffffffffffff".toList (by decide) (forall_of_all (by decide)) } }] }

/-- A member without a value, one with a value above the range, and one with a value below it. -/
def excessiveEnum : WrittenEnum :=
  .thrift {
    name := "E"
    members :=
      [{ name := "Z", numeral := none },
        { name := "A", numeral := some { negative := false, magnitude := .decimal (2 ^ 63) },
          annotations := [{ key := "k", value := "v" }] },
        { name := "B",
          numeral := some { negative := true, magnitude := .decimal (2 ^ 63 + 1) } }] }

theorem parseText_enumValues_spelled :
    (∃ d, parseText .protobuf "a" "enum E \x7b A = -1; reserved 5; B = 0x7fffffffffffffff; \x7d"
        true {} = (.ok d, {}) ∧ spelledEnum.Describes d) ∧
      ∃ m ∈ excessiveEnum.members, ∃ n ∈ m.2, ¬ InRange n.value ∧
        ∃ d, parseText .thrift "a"
            "enum E \x7b Z A = 9223372036854775808 (k = 'v') B = -9223372036854775809 \x7d"
            true {} =
          (.error (.diagnostic d), Reporter.report {} d) ∧
          d.code = Code.invalidNumber ∧ d.message = n.magnitude.refusal := by
  have hthrift : DeclarationRow .thrift [] := .thrift (fun _ => .none) [] (by simp)
  have hprotobuf : DeclarationRow .protobuf [] := .protobuf [] rfl
  have hreadable : spelledEnum.Readable := by
    unfold WrittenEnum.Readable InRange
    decide +kernel
  have hunreadable : ¬ excessiveEnum.Readable := by
    unfold WrittenEnum.Readable InRange
    decide +kernel
  have hfaces : significant (lexText .protobuf "a"
      "enum E \x7b A = -1; reserved 5; B = 0x7fffffffffffffff; \x7d" {}).1 =
        [] ++ spelledEnum.faces ++ [] := by decide +kernel
  have hfaces' : significant (lexText .thrift "a"
      "enum E \x7b Z A = 9223372036854775808 (k = 'v') B = -9223372036854775809 \x7d" {}).1 =
        [] ++ excessiveEnum.faces ++ [] := by decide +kernel
  exact ⟨(parseText_enumValues spelledEnum (by decide) "a" _ true {} rfl (by decide +kernel)
      hprotobuf hfaces).1 hreadable hprotobuf,
    (parseText_enumValues excessiveEnum rfl "a" _ true {} rfl (by decide +kernel) hthrift
      hfaces').2 hunreadable⟩

/-- The lowest number of 64 bits is refused in both languages: the digits are read without
their sign, and they stand for a number above the range. As the value of a constant the same
digits are read behind their sign. -/
theorem lowest_value_refused :
    (∀ dialect,
      let parsed := parseText dialect "a" "enum E \x7b A = -9223372036854775808; \x7d" true {}
      parsed.1.isOk = false ∧ parsed.2.reported.map Diagnostic.notice =
        [(Code.invalidNumber, "invalid integer 9223372036854775808")]) ∧
      Number.int64? "-9223372036854775808" = some (-2 ^ 63) := by
  refine ⟨fun dialect => ?_, by decide +kernel⟩
  cases dialect with
  | thrift => decide +kernel
  | protobuf => decide +kernel

end Load

end ClientGen
