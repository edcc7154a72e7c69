import ClientGen.Proofs.Load.History
import ClientGen.Proofs.Proto.Nesting
import ClientGen.Proofs.Source.Values
import ClientGen.Proofs.Thrift.Nesting

/-! # Names of services

The name of a service is a word: one token of letters, digits and underscores. What
a parser makes of such tokens is followed through both grammars by one judgment
(`Yields`), up to the services of every document that can be loaded
(`word_of_compileFile`).
-/

namespace ClientGen
namespace Source

/-- A text that is one identifier. -/
structure IsWord (s : String) : Prop where
  ne_empty : s ≠ ""
  part : ∀ c ∈ s.toList, Lexer.isIdentifierPart c = true

def Token.Worded (t : Token) : Prop := t.kind = .identifier → IsWord t.value

/-! ## Tokens -/

namespace Lexer

theorem worded_readIdentifier {c : Char} (h : isIdentifierStart c = true) (p : Position)
    (rest : List Char) : (readIdentifier c p rest).All Token.Worded := by
  intro _
  constructor
  · simp
  · intro x hx
    have hx : x ∈ c :: rest.takeWhile isIdentifierPart := by simpa using hx
    rcases List.mem_cons.mp hx with rfl | hx
    · rcases Bool.or_eq_true_iff.mp h with hletter | hline
      · simp [isIdentifierPart, hletter]
      · simp [isIdentifierPart, hline]
    · exact List.all_eq_true.mp List.all_takeWhile x hx

theorem worded_readDecimal (c : Char) (p : Position) (rest : List Char) :
    (readDecimal c p rest).All Token.Worded := by
  unfold readDecimal
  split
  · intro hkind
    dsimp only at hkind
    split at hkind <;> cases hkind
  · trivial

theorem worded_readToken (o : Options) (c : Char) (p : Position) (rest : List Char) :
    (readToken o c p rest).All Token.Worded := by
  refine all_readToken ?_ ?_ ?_ o c p rest
  · intro c p rest hstart
    exact worded_readIdentifier hstart p rest
  · intro c p rest _
    exact worded_readDecimal c p rest
  · intro t ht hkind
    exact absurd hkind (by simp_all)

end Lexer

theorem Cursor.worded_ofSource (o : Lexer.Options) (uri source : String) (r : Reporter) :
    ∀ t ∈ (Cursor.ofSource o uri source r).rest, t.Worded :=
  Cursor.forall_ofSource (Lexer.worded_readToken o) uri source r

/-! ## What parsers make of words -/

/-- Where identifiers are words, every value that a parser gives satisfies `Q`. -/
def Yields {α : Type} (Q : α → Prop) (p : Parser α) : Prop :=
  ∀ ⦃c : Cursor⦄ ⦃a : α⦄ ⦃c' : Cursor⦄, (∀ t ∈ c.rest, t.Worded) → p.run c = (some a, c') → Q a

namespace Yields

variable {α β : Type} {Q : α → Prop} {R : β → Prop} {p : Parser α} {f : α → Parser β}

theorem pure {a : α} (h : Q a) : Yields Q (Pure.pure a : Parser α) := Among.pure h

theorem bind [Made true p] (hp : Yields Q p) (hf : ∀ a, Q a → Yields R (f a)) :
    Yields R (p >>= f) := Among.bind hp hf

/-- A part whose value does not matter. -/
theorem skip [Made true p] (hf : ∀ a, Yields R (f a)) : Yields R (p >>= f) := Among.skip hf

theorem branch {b : Prop} [Decidable b] {q : Parser α} (hp : Yields Q p) (hq : Yields Q q) :
    Yields Q (if b then p else q) := Among.branch hp hq

theorem illegal : Yields Q (Parser.illegal : Parser α) := Among.illegal

theorem identifier : Yields (fun t => IsWord t.value) Parser.identifier := by
  intro c t c' hc hrun
  obtain ⟨hkind, hword⟩ := Among.expect hc hrun
  exact hword hkind

theorem whileDo {again : Cursor → Bool} [Made true p] (hp : Yields Q p) :
    Yields (fun xs => ∀ x ∈ xs, Q x) (Parser.whileDo again p) := Among.whileDo hp

end Yields

end Source

open Source

/-! ## The two grammars -/

namespace Thrift

open Parser

def Definition.Worded : Definition → Prop
  | .service s => IsWord s.name
  | _ => True

theorem yields_serviceDefinition : Yields (fun s => IsWord s.name) serviceDefinition := by
  unfold serviceDefinition
  exact .skip fun _ => .skip fun _ => .bind .identifier fun _ hname => .skip fun _ =>
    .skip fun _ => .skip fun _ => .skip fun _ => .skip fun _ => .skip fun _ => .pure hname

theorem yields_definition : Yields Definition.Worded definition := by
  unfold definition
  exact .skip fun _ => .branch (.skip fun _ => .pure trivial) (.skip fun _ =>
    .branch (.skip fun _ => .pure trivial) (.skip fun _ =>
    .branch (.skip fun _ => .pure trivial) (.skip fun _ =>
    .branch (.skip fun _ => .pure trivial) (.skip fun _ =>
    .branch (.bind yields_serviceDefinition fun _ h => .pure h) .illegal))))

theorem yields_item : Yields (fun i => ∀ d, Sum.getRight? i = some d → d.Worded) item := by
  unfold item
  exact .skip fun _ => .branch (.skip fun _ => .pure nofun) (.skip fun _ =>
    .branch (.skip fun _ => .pure nofun)
      (.bind yields_definition fun _ h => .pure fun _ heq => Option.some.inj heq ▸ h))

theorem yields_file : Yields (fun t => ∀ d ∈ t.definitions, d.Worded) file := by
  have hmade : Made true (whileDo (fun c => !c.atEnd) item) :=
    .whileDo (fun _ _ _ => rfl) inferInstance
  have hitems : Yields (fun t => ∀ d ∈ t.definitions, d.Worded) grammar.items := by
    refine .bind (.whileDo yields_item) fun items hitems => .pure ?_
    intro d hd
    obtain ⟨i, hi, heq⟩ := List.mem_filterMap.mp hd
    exact hitems i hi d heq
  exact Among.file grammar hitems

end Thrift

namespace Proto

open Parser

def Definition.Worded : Definition → Prop
  | .service s => IsWord s.name
  | _ => True

def FileItem.Worded : FileItem → Prop
  | .definition d => d.Worded
  | _ => True

theorem yields_serviceDefinition : Yields (fun s => IsWord s.name) serviceDefinition := by
  unfold serviceDefinition
  exact .skip fun _ => .skip fun _ => .bind .identifier fun _ hname => .skip fun _ =>
    .skip fun _ => .skip fun _ => .pure hname

theorem yields_fileItem : Yields FileItem.Worded fileItem := by
  unfold fileItem
  exact .skip fun _ => .branch (.pure trivial) (.skip fun _ =>
    .branch (.skip fun _ => .skip fun _ => .skip fun _ => .skip fun _ => .pure trivial)
    (.skip fun _ => .branch (.skip fun _ => .skip fun _ => .skip fun _ => .pure trivial)
    (.skip fun _ => .branch (.skip fun _ => .pure trivial)
    (.skip fun _ => .branch (.skip fun _ => .pure trivial)
    (.skip fun _ => .branch (.skip fun _ => .pure trivial)
    (.skip fun _ => .branch (.skip fun _ => .pure trivial)
    (.skip fun _ => .branch (.bind yields_serviceDefinition fun _ h => .pure h)
    (.skip fun _ => .branch (.skip fun _ => .pure trivial) .illegal))))))))

/-- The declarations of a file are those of its items. -/
theorem mem_definitions_foldl_add {items : List FileItem} {t : Tree} {d : Definition}
    (h : d ∈ (items.foldl Tree.add t).definitions) :
    d ∈ t.definitions ∨ .definition d ∈ items := by
  induction items generalizing t with
  | nil => exact .inl h
  | cons i items ih =>
      rcases ih h with hd | hd
      · cases i with
        | definition e =>
            rcases List.mem_append.mp hd with hd | hd
            · exact .inl hd
            · obtain rfl := List.mem_singleton.mp hd
              exact .inr List.mem_cons_self
        | nothing => exact .inl hd
        | edition name => exact .inl hd
        | package name => exact .inl hd
        | imported i => exact .inl hd
        | options os => exact .inl hd
      · exact .inr (List.mem_cons_of_mem i hd)

theorem yields_file : Yields (fun t => ∀ d ∈ t.definitions, d.Worded) file := by
  have hmade : Made true (whileDo (fun c => !c.atEnd) fileItem) :=
    .whileDo (fun _ _ _ => rfl) inferInstance
  refine Among.file grammar (.bind (.whileDo yields_fileItem) fun items hitems => .pure ?_)
  intro d hd
  rcases mem_definitions_foldl_add hd with hd | hd
  · cases hd
  · exact hitems _ hd

end Proto

/-! ## Documents -/

namespace Thrift

theorem mem_services_document {t : Tree} {path : String} {comments : CommentsOf} {s : Service}
    (h : s ∈ (t.document path comments).services) :
    ∃ tree, .service tree ∈ t.definitions ∧ s.name = tree.name := by
  obtain ⟨st, hst, hs⟩ := List.mem_filterMap.mp h
  obtain ⟨d, hd, rfl⟩ := List.mem_map.mp hst
  cases d with
  | service tree =>
      obtain rfl := Option.some.inj hs
      exact ⟨tree, hd, rfl⟩
  | const c => cases hs
  | typedef t => cases hs
  | enum e => cases hs
  | struct s => cases hs

end Thrift

namespace Proto

mutual

/-- A message declares no services. -/
theorem MessageTree.services_lower (declared scope : List String) (comments : CommentsOf) :
    (m : MessageTree) → ∀ s, .service s ∉ m.lower declared scope comments
  | .mk origin name fields messages enums options => by
      intro s hs
      rcases List.mem_append.mp hs with hs | hs
      · rcases List.mem_cons.mp hs with hs | hs
        · cases hs
        · obtain ⟨e, -, he⟩ := List.mem_map.mp hs
          cases he
      · exact services_lowerAll declared (scope ++ [name]) comments messages s hs

theorem services_lowerAll (declared scope : List String) (comments : CommentsOf) :
    (ms : List MessageTree) → ∀ s, .service s ∉ lowerAll declared scope comments ms
  | [] => by simp [lowerAll]
  | m :: ms => by
      intro s hs
      rcases List.mem_append.mp hs with hs | hs
      · exact m.services_lower declared scope comments s hs
      · exact services_lowerAll declared scope comments ms s hs

end

theorem mem_services_document {t : Tree} {path : String} {comments : CommentsOf} {s : Service}
    (h : s ∈ (t.document path comments).services) :
    ∃ tree, .service tree ∈ t.definitions ∧ s.name = tree.name := by
  obtain ⟨st, hst, hs⟩ := List.mem_filterMap.mp h
  obtain ⟨d, hd, hst⟩ := List.mem_flatMap.mp hst
  cases st with
  | service x =>
      obtain rfl := Option.some.inj hs
      cases d with
      | service tree =>
          obtain hx := List.mem_singleton.mp hst
          injection hx with hx
          exact ⟨tree, hd, congrArg Service.name hx⟩
      | message m => exact absurd hst (m.services_lower t.declared [] comments x)
      | enum e =>
          have hx := List.mem_singleton.mp hst
          cases hx
  | struct x => cases hs
  | enum x => cases hs
  | typedef x => cases hs
  | const x => cases hs

end Proto

namespace Load

open Files (SourceFile)

theorem word_of_parseText {dialect : Dialect} {path text : String} {revise : Bool} {r : Reporter}
    {d : Document} (h : (parseText dialect path text revise r).1 = .ok d) :
    ∀ s ∈ d.services, IsWord s.name := by
  intro s hs
  rw [parseText_eq] at h
  simp only [Language.conclude] at h
  split at h
  · rename_i tree htree hfailed
    obtain rfl := Except.ok.inj h
    cases dialect with
    | thrift =>
        obtain ⟨t, ht, hname⟩ := Thrift.mem_services_document hs
        rw [hname]
        exact Thrift.yields_file (Cursor.worded_ofSource _ path text r) (Prod.ext htree rfl) _ ht
    | protobuf =>
        obtain ⟨t, ht, hname⟩ := Proto.mem_services_document hs
        rw [hname]
        exact Proto.yields_file (Cursor.worded_ofSource _ path text r) (Prod.ext htree rfl) _ ht
  · cases h

/-- The services of a document have words as names. -/
theorem word_of_compileFile {f : SourceFile} {revise : Bool} {r : Reporter} {d : Document}
    (h : (compileFile f revise r).1 = .ok (some d)) : ∀ s ∈ d.services, IsWord s.name := by
  obtain ⟨dialect, text, hparse⟩ := compileFile_eq_some (Prod.ext h rfl)
  exact word_of_parseText (congrArg Prod.fst hparse)

end Load
end ClientGen
