import ClientGen.Proofs.Load.Parsing
import ClientGen.Proofs.Proto.Nesting
import ClientGen.Proofs.Source.Values

/-! # The language of a text

A text of no known kind is read in the language that its first telling word
suggests, or as Thrift. Where only one of the two languages can read the text, this
finds its document or shows what the other language has against it
(`compileFile_suggested`). The guess can go wrong: a telling word may be a mere name,
and Protobuf need not use any (`guessed_wrong`). A Protobuf text without telling
words has little to say (`bare_of_parseText`).
-/

namespace ClientGen
namespace Source

/-! ## Hashes

Only behind a hash do the lexers of the two languages differ. -/

def Token.IsHash (t : Token) : Prop := t.kind = .unknown ∧ t.value = "#"

instance (t : Token) : Decidable t.IsHash := inferInstanceAs (Decidable (_ ∧ _))

namespace Lexer

theorem step_of_hash {s : Scan} {rest : List Char} (h : s.rest = '#' :: rest) :
    ∃ t next, step {} s = .token t next ∧ t.IsHash := by
  unfold step
  rw [h]
  exact ⟨_, _, rfl, rfl, rfl⟩

theorem step_hashComments {s : Scan} (h : ∀ t next, step {} s = .token t next → ¬ t.IsHash) :
    step { hashComments := true } s = step {} s := by
  cases hrest : s.rest with
  | nil => simp [step, hrest]
  | cons c rest =>
      by_cases hc : c = '#'
      · subst hc
        obtain ⟨t, next, hstep, hhash⟩ := step_of_hash hrest
        exact absurd hhash (h t next hstep)
      · simp [step, hrest, dispatch, readToken, hc]

theorem runAux_hashComments (fuel : Nat) (s : Scan)
    (h : ∀ t ∈ (runAux {} fuel s).1, ¬ t.IsHash) :
    runAux { hashComments := true } fuel s = runAux {} fuel s := by
  induction fuel generalizing s with
  | zero => rfl
  | succ fuel ih =>
      unfold runAux at h ⊢
      have hstep : step { hashComments := true } s = step {} s := by
        apply step_hashComments
        intro t next hnext
        rw [hnext] at h
        exact h t List.mem_cons_self
      rw [hstep]
      cases hs : step {} s with
      | stop => rfl
      | fault f => rfl
      | skip next =>
          rw [hs] at h
          exact ih next h
      | token t next =>
          rw [hs] at h
          have hnext := ih next fun u hu => h u (List.mem_cons_of_mem t hu)
          simp only [hnext]

end Lexer

end Source

open Source

namespace Load

theorem lexText_of_no_hash {path text : String} {r : Reporter}
    (h : ∀ t ∈ (lexText .protobuf path text r).1, ¬ t.IsHash) :
    (lexText .thrift path text r).1 = (lexText .protobuf path text r).1 := by
  unfold lexText at h ⊢
  rw [Lexer.fst_lex] at h
  rw [Lexer.fst_lex, Lexer.fst_lex]
  exact congrArg Prod.fst (Lexer.runAux_hashComments _ _ h)

/-! ## Telling words -/

/-- The language that some tokens suggest: that of the first telling word, or Thrift
if there is none. -/
inductive Suggests (tokens : List Token) : Dialect → Prop where
  | word {before after : List Token} {t : Token} {dialect : Dialect}
      (htokens : tokens = before ++ t :: after) (hbefore : ∀ u ∈ before, dialectOfWord? u = none)
      (ht : dialectOfWord? t = some dialect) : Suggests tokens dialect
  | silence (h : ∀ t ∈ tokens, dialectOfWord? t = none) : Suggests tokens .thrift

theorem suggests_iff {tokens : List Token} {dialect : Dialect} :
    Suggests tokens dialect ↔ (tokens.findSome? dialectOfWord?).getD .thrift = dialect := by
  constructor
  · intro h
    cases h with
    | word htokens hbefore ht =>
        have hfound := List.findSome?_eq_some_iff.mpr ⟨_, _, _, htokens, ht, hbefore⟩
        rw [hfound, Option.getD_some]
    | silence h => rw [List.findSome?_eq_none_iff.mpr h, Option.getD_none]
  · intro h
    cases hfound : tokens.findSome? dialectOfWord? with
    | none =>
        rw [hfound, Option.getD_none] at h
        subst h
        exact .silence (List.findSome?_eq_none_iff.mp hfound)
    | some found =>
        rw [hfound, Option.getD_some] at h
        subst h
        obtain ⟨before, t, after, htokens, ht, hbefore⟩ := List.findSome?_eq_some_iff.mp hfound
        exact .word htokens hbefore ht

theorem suggests_iff_sniff {path text : String} {r : Reporter} {dialect : Dialect} :
    Suggests (lexText .thrift path text r).1 dialect ↔ sniff text = dialect := by
  rw [suggests_iff]
  unfold lexText sniff
  rw [Lexer.fst_lex]
  rfl

/-- A token that does not tell Protobuf. -/
def Untold (t : Token) : Prop := dialectOfWord? t ≠ some .protobuf

theorem Untold.value_notMem {words : List String} (hwords : words ⊆ protobufWords) (t : Token)
    (ht : Untold t) (hkind : t.kind = .identifier) : t.value ∉ words := by
  intro hmem
  have hword : t.value ∈ protobufWords := hwords hmem
  exact ht (by simp [dialectOfWord?, hkind, hword])

end Load

/-! ## Protobuf without its words -/

/-- A declaration that Protobuf makes without any of its words: an enumeration, or a
service without functions, and without annotations either way. -/
def Statement.Bare : Statement → Prop
  | .enum e => e.annotations = []
  | .service s => s.functions = [] ∧ s.annotations = []
  | _ => False

/-- A document with bare declarations only, in no package and without imports. -/
structure Document.Bare (d : Document) : Prop where
  namespaceName : d.namespaceName = ""
  includes : d.includes = []
  statements : ∀ s ∈ d.statements, s.Bare

namespace Proto

open Load (Untold)

/-- An enumeration without options, or a service without options and procedures. -/
def Definition.Bare : Definition → Prop
  | .message _ => False
  | .enum e => e.options = []
  | .service s => s.rpcs = [] ∧ s.options = []

def FileItem.Bare : FileItem → Prop
  | .nothing => True
  | .definition d => d.Bare
  | _ => False

structure Tree.Bare (t : Tree) : Prop where
  package : t.package = ""
  imports : t.imports = []
  definitions : ∀ d ∈ t.definitions, d.Bare

theorem among_enumItem : Among Untold (fun i => ∀ os, i ≠ .options os) enumItem := by
  unfold enumItem
  exact .skip fun _ => .branch (.pure nofun) (.absent (Untold.value_notMem (by decide))
    (.skip fun _ => .branch (.skip fun _ => .pure nofun) (.skip fun _ => .pure nofun)))

theorem BodyItem.allOptions_eq_nil {α : Type} {items : List (BodyItem α)}
    (h : ∀ i ∈ items, ∀ os, i ≠ .options os) : allOptions items = [] := by
  apply List.flatMap_eq_nil_iff.mpr
  intro i hi
  cases i with
  | nothing => rfl
  | options os => exact absurd rfl (h _ hi os)
  | element a => rfl

theorem among_enumDefinition : Among Untold (fun e => e.options = []) enumDefinition := by
  unfold enumDefinition
  exact .skip fun _ => .skip fun _ => .skip fun _ => .skip fun _ =>
    .bind (.upTo among_enumItem) fun _ hitems => .skip fun _ =>
      .pure (BodyItem.allOptions_eq_nil hitems)

theorem among_serviceItem : Among Untold (fun i => i = .nothing) serviceItem := by
  unfold serviceItem
  exact .skip fun _ => .branch (.pure rfl) (.absent (Untold.value_notMem (by decide))
    (.absent (Untold.value_notMem (by decide)) .illegal))

theorem among_serviceDefinition :
    Among Untold (fun s => s.rpcs = [] ∧ s.options = []) serviceDefinition := by
  unfold serviceDefinition
  refine .skip fun _ => .skip fun _ => .skip fun _ => .skip fun _ =>
    .bind (.upTo among_serviceItem) fun items hitems => .skip fun _ => .pure ⟨?_, ?_⟩
  · apply List.filterMap_eq_nil_iff.mpr
    intro i hi
    rw [hitems i hi]
  · apply BodyItem.allOptions_eq_nil
    intro i hi os
    rw [hitems i hi]
    exact nofun

theorem among_fileItem : Among Untold FileItem.Bare fileItem := by
  unfold fileItem
  exact .skip fun _ => .branch (.pure trivial)
    (.absent (Untold.value_notMem (by decide)) (.absent (Untold.value_notMem (by decide))
    (.absent (Untold.value_notMem (by decide)) (.absent (Untold.value_notMem (by decide))
    (.absent (Untold.value_notMem (by decide))
    (.skip fun _ => .branch (.bind among_enumDefinition fun _ h => .pure h)
    (.skip fun _ => .branch (.bind among_serviceDefinition fun _ h => .pure h)
    (.skip fun _ => .branch (.skip fun _ => .pure trivial) .illegal))))))))

theorem Tree.Bare.add {t : Tree} (ht : t.Bare) {i : FileItem} (hi : i.Bare) : (t.add i).Bare := by
  cases i with
  | nothing => exact ht
  | definition d =>
      refine ⟨ht.package, ht.imports, ?_⟩
      intro e he
      rcases List.mem_append.mp he with he | he
      · exact ht.definitions e he
      · obtain rfl := List.mem_singleton.mp he
        exact hi
  | edition name => exact hi.elim
  | package name => exact hi.elim
  | imported i => exact hi.elim
  | options os => exact hi.elim

theorem Tree.Bare.foldl_add {t : Tree} (ht : t.Bare) {items : List FileItem}
    (h : ∀ i ∈ items, i.Bare) : (items.foldl Tree.add t).Bare := by
  induction items generalizing t with
  | nil => exact ht
  | cons i items ih =>
      exact ih (ht.add (h i List.mem_cons_self)) fun j hj => h j (List.mem_cons_of_mem i hj)

theorem among_file : Among Untold Tree.Bare file := by
  have hmade : Made true (Parser.whileDo (fun c => !c.atEnd) fileItem) :=
    .whileDo (fun _ _ _ => rfl) inferInstance
  have hempty : Tree.Bare {} := ⟨rfl, rfl, nofun⟩
  exact Among.file grammar
    (.bind (.whileDo among_fileItem) fun items hitems => .pure (hempty.foldl_add hitems))

theorem Tree.Bare.document {t : Tree} (h : t.Bare) (path : String) (comments : CommentsOf) :
    (t.document path comments).Bare := by
  refine ⟨h.package, by simp [Tree.document, h.imports], ?_⟩
  intro s hs
  obtain ⟨d, hd, hs⟩ := List.mem_flatMap.mp hs
  have hbare := h.definitions d hd
  cases d with
  | message m => exact hbare.elim
  | enum e =>
      obtain rfl := List.mem_singleton.mp hs
      exact congrArg annotations hbare
  | service x =>
      obtain rfl := List.mem_singleton.mp hs
      exact ⟨congrArg (List.map _) hbare.1, congrArg annotations hbare.2⟩

end Proto

namespace Load

/-- A Protobuf text that has a document and no telling word of Protobuf declares
enumerations and empty services only. -/
theorem bare_of_parseText {path text : String} {revise : Bool} {r : Reporter} {d : Document}
    (h : (parseText .protobuf path text revise r).1 = .ok d)
    (hwords : ∀ t ∈ (lexText .protobuf path text r).1, Untold t) : d.Bare := by
  rw [parseText_eq] at h
  simp only [Language.conclude] at h
  split at h
  · rename_i tree htree hfailed
    obtain rfl := Except.ok.inj h
    have hbare : Proto.Tree.Bare tree :=
      Proto.among_file (fun t ht => hwords t (Cursor.mem_of_mem_ofSource ht)) (Prod.ext htree rfl)
    exact hbare.document path _
  · cases h

/-! ## Guessing -/

/-- Why the language of a text may be guessed wrong: some word of it tells another
language, or it is a Protobuf text with a hash in it or with nothing to tell. -/
inductive Misleading (dialect : Dialect) (tokens : List Token) (d : Document) : Prop where
  | word {t : Token} {other : Dialect} (ht : t ∈ tokens) (htells : dialectOfWord? t = some other)
      (hother : other ≠ dialect)
  | hash {t : Token} (hdialect : dialect = .protobuf) (ht : t ∈ tokens) (hhash : t.IsHash)
  | bare (hdialect : dialect = .protobuf) (hbare : d.Bare)

theorem misleading_of_not_suggests {dialect : Dialect} {path text : String} {revise : Bool}
    {r : Reporter} {d : Document} (h : (parseText dialect path text revise r).1 = .ok d)
    (hnot : ¬ Suggests (lexText .thrift path text r).1 dialect) :
    Misleading dialect (lexText dialect path text r).1 d := by
  by_cases hhash : ∃ t ∈ (lexText dialect path text r).1, dialect = .protobuf ∧ t.IsHash
  · obtain ⟨t, ht, hdialect, hhash⟩ := hhash
    exact .hash hdialect ht hhash
  · have hsame : (lexText .thrift path text r).1 = (lexText dialect path text r).1 := by
      cases dialect with
      | thrift => rfl
      | protobuf => exact lexText_of_no_hash fun t ht his => hhash ⟨t, ht, rfl, his⟩
    have hguess : Suggests (lexText dialect path text r).1 (sniff text) :=
      hsame ▸ suggests_iff_sniff.mpr rfl
    have hwrong : sniff text ≠ dialect := fun heq => hnot (suggests_iff_sniff.mpr heq)
    generalize sniff text = guess at hguess hwrong
    cases hguess with
    | word htokens _ ht => exact .word (by simp [htokens]) ht hwrong
    | silence hnone =>
        cases dialect with
        | thrift => exact absurd rfl hwrong
        | protobuf =>
            refine .bare rfl (bare_of_parseText h ?_)
            intro t ht
            simp [Untold, hnone t ht]

/-- A text that only one language can read has the document of that language exactly
if its tokens suggest it. Otherwise the text is misleading, and the error is the
first thing that the other language has against it. The words that tell a language are
those of the two tables: `extend`, `extensions`, `reserved` and `extends` tell none. -/
theorem compileFile_suggested {dialect other : Dialect} (hother : other ≠ dialect)
    {path text : String} {revise : Bool} {r : Reporter} {d : Document}
    (hr : r.nonfatal = Code.harmless) (hok : (parseText dialect path text revise r).1 = .ok d)
    (hno : ∀ d', (parseText other path text revise r).1 ≠ .ok d') :
    ((compileFile (.ofText path text .none) revise r).1 = .ok (some d) ↔
        Suggests (lexText .thrift path text r).1 dialect) ∧
      (¬ Suggests (lexText .thrift path text r).1 dialect →
        Misleading dialect (lexText dialect path text r).1 d ∧
          ∃ e es, (compileFile (.ofText path text .none) revise r).1 = .error (.diagnostic e) ∧
            (parseText other path text revise r).2.reported = r.reported ++ e :: es) := by
  have hcompile : (compileFile (.ofText path text .none) revise r).1 =
      (parseText (sniff text) path text revise r).1.map some := rfl
  by_cases hguess : sniff text = dialect
  · have hsuggests : Suggests (lexText .thrift path text r).1 dialect :=
      suggests_iff_sniff.mpr hguess
    refine ⟨⟨fun _ => hsuggests, fun _ => ?_⟩, fun hnot => absurd hsuggests hnot⟩
    rw [hcompile, hguess, hok]
    rfl
  · have hnot : ¬ Suggests (lexText .thrift path text r).1 dialect :=
      fun h => hguess (suggests_iff_sniff.mp h)
    have hsniff : sniff text = other := by
      cases hs : sniff text <;> cases dialect <;> cases other <;> simp_all
    obtain ⟨new, hnew, -, hcases⟩ := parseText_cases other path text revise r hr
    rcases hcases with ⟨-, -, d', hd'⟩ | ⟨e, es, rfl, herror⟩
    · exact absurd hd' (hno d')
    · have hfails : (compileFile (.ofText path text .none) revise r).1 =
          .error (.diagnostic e) := by
        rw [hcompile, hsniff, herror]
        rfl
      refine ⟨⟨fun h => ?_, fun h => absurd h hnot⟩, fun _ => ?_⟩
      · rw [hfails] at h
        cases h
      · exact ⟨misleading_of_not_suggests hok hnot, e, es, hfails, hnew⟩

/-- A service of Protobuf, told by the word in front of its procedure. -/
def procedureText : String :=
  "service S \x7b rpc Get(Q) returns (R) \x7b option (api.uri) = '/struct'; \x7d \x7d"

theorem compileFile_suggested_procedure :
    ∃ d, (parseText .protobuf "source" procedureText true {}).1 = .ok d ∧
      (∀ d', (parseText .thrift "source" procedureText true {}).1 ≠ .ok d') ∧
      (compileFile (.ofText "source" procedureText .none) true {}).1 = .ok (some d) := by
  have hread : (parseText .protobuf "source" procedureText true {}).1.isOk = true := by
    decide +kernel
  have hunread : (parseText .thrift "source" procedureText true {}).1.isOk = false := by
    decide +kernel
  have hno : ∀ d', (parseText .thrift "source" procedureText true {}).1 ≠ .ok d' := by
    intro d' hd'
    rw [hd'] at hunread
    cases hunread
  have hsniff : sniff procedureText = .protobuf := by decide +kernel
  cases hparse : (parseText .protobuf "source" procedureText true {}).1 with
  | error e =>
      rw [hparse] at hread
      cases hread
  | ok d =>
      have hmain := compileFile_suggested (by decide) rfl hparse hno
      exact ⟨d, rfl, hno, hmain.1.mpr (suggests_iff_sniff.mpr hsniff)⟩

/-- An enumeration with an option at its member, which Thrift does not have. -/
def optionText : String := "enum E \x7b A = 0 [deprecated = true]; \x7d"

/-- An enumeration without numbers, which Protobuf does not have, and its name. -/
def nameText : String := "enum message \x7b A \x7d"

/-- Protobuf that uses none of its words is read as Thrift, and Thrift with a word of
Protobuf as a name is read as Protobuf; neither text has a document then. -/
theorem guessed_wrong :
    ((parseText .protobuf "source" optionText true {}).1.isOk = true ∧
        (parseText .thrift "source" optionText true {}).1.isOk = false ∧
        (compileFile (.ofText "source" optionText .none) true {}).1.isOk = false) ∧
      (parseText .thrift "source" nameText true {}).1.isOk = true ∧
        (parseText .protobuf "source" nameText true {}).1.isOk = false ∧
        (compileFile (.ofText "source" nameText .none) true {}).1.isOk = false := by
  decide +kernel

end Load
end ClientGen
