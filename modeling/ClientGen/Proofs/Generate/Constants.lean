import ClientGen.Generate.Types
import ClientGen.Proofs.Json.Reading
import ClientGen.Proofs.Load.Surroundings
import ClientGen.Proofs.Source.Integers
import ClientGen.Proofs.Thrift.Nesting

/-! # Integer constants

The constants of Thrift that are integers, from their tokens to their literals in the types
module. A constant that is written as an integer becomes one of the document
(`parseText_writtenInteger`), and a document has no other ones (`verbatim_of_parseText`). It
keeps the digits as they are written, and they are read when the literal is made. The literal
denotes the number that is written if this has 64 bits and no leading zero, unless it is below
eight (`declarationOf_integer`).
-/

namespace ClientGen

open Source

/-! ## From tokens to documents -/

namespace Thrift

open Parser

/-- A constant as it is written whose value is an integer: a token of decimal or hexadecimal
digits, perhaps behind a sign. -/
structure WrittenInteger where
  type : TypeTree
  layout : Layout := fun _ => .none
  name : String
  sign : Option TokenKind := none
  number : Face
  separator : Separator := .none

namespace WrittenInteger

structure Legal (w : WrittenInteger) : Prop where
  plain : w.type.plain = true
  sign : ∀ k ∈ w.sign, k ∈ [TokenKind.plus, .minus]
  number : w.number.kind ∈ [TokenKind.integerDecimal, .integerHex]

def digits (w : WrittenInteger) : List Face := (w.sign.map Face.mark).toList ++ [w.number]

def faces (w : WrittenInteger) : List Face :=
  Face.word "const" :: (w.type.spelled w.layout ++ (Face.word w.name :: Face.mark .equal ::
    (w.digits ++ w.separator.faces)))

def negative (w : WrittenInteger) : Bool := w.sign == some .minus

/-- What is kept of the value: its digits behind a minus sign, or without a sign. -/
def spelling (w : WrittenInteger) : String := (if w.negative then "-" else "") ++ w.number.value

variable {w : WrittenInteger}

theorem toList_spelling :
    w.spelling.toList = Number.signed w.negative w.number.value.toList := by
  unfold spelling
  cases w.negative <;> simp [Number.signed]

theorem reads_number (hlegal : w.Legal) (sign : String) :
    Reads (expectOf [.integerDecimal, .integerHex, .floatDecimal] >>= fun t =>
      (pure (Const.ofNumber sign t) : Parser Const)) [w.number] anything
      (· = .scalar .int (sign ++ w.number.value)) := by
  have hinteger := hlegal.number
  have hlisted : w.number.kind ∈ [TokenKind.integerDecimal, .integerHex, .floatDecimal] := by
    simp only [List.mem_cons] at hinteger ⊢
    tauto
  refine (reads_expectOf hlisted).token fun t hface => Reads.pure ?_
  have hkind : t.kind = w.number.kind := congrArg Face.kind hface
  have hvalue : t.value = w.number.value := congrArg Face.value hface
  have hwhole : t.kind ≠ .floatDecimal := by
    intro hfloat
    rw [← hkind, hfloat] at hinteger
    simp at hinteger
  rw [Const.ofNumber, if_neg hwhole, hvalue]

theorem reads_constValue (hlegal : w.Legal) (fuel : Nat) :
    Reads (constValue (fuel + 1)) w.digits anything (· = .scalar .int w.spelling) := by
  rw [constValue]
  unfold digits spelling negative
  cases hsigned : w.sign with
  | none =>
    refine (reads_kind (some w.number.kind)).ahead (fun o _ => by simp) ?_
    rintro _ rfl
    rcases List.mem_cons.mp hlegal.number with hdecimal | hhex
    · rw [hdecimal]
      exact reads_number hlegal ""
    · rw [List.mem_singleton.mp hhex]
      exact reads_number hlegal ""
  | some k =>
    refine (reads_kind (some k)).ahead (fun o _ => by simp) ?_
    rintro _ rfl
    rcases List.mem_cons.mp (hlegal.sign k hsigned) with rfl | hminus
    · exact (reads_advance _).token fun _ _ => reads_number hlegal ""
    · obtain rfl := List.mem_singleton.mp hminus
      exact (reads_advance _).token fun _ _ => reads_number hlegal "-"

theorem reads_const (hlegal : w.Legal) :
    Reads const w.digits anything (· = .scalar .int w.spelling) :=
  reads_fuelled fun fuel henough => by
    cases fuel with
    | zero => omega
    | succ fuel => exact reads_constValue hlegal fuel

theorem reads_constDefinition (hlegal : w.Legal) :
    Reads constDefinition w.faces (avoids continuations []) fun t =>
      (Definition.const t).erase = .const
        { name := w.name, type := w.type.erase, value := .scalar .int w.spelling } := by
  unfold constDefinition faces
  refine reads_place.ahead (m := anything) (fun _ _ => trivial) fun first _ => ?_
  refine (reads_expectWord (by simp)).token fun word _ => ?_
  refine (reads_type w.type w.layout hlegal.plain).bind ?_ fun type hsame => ?_
  · exact fun o _ => avoids_word (by decide) rfl
  refine (reads_identifier w.name).token fun name hnamed => ?_
  refine (reads_expect rfl).token fun _ _ => ?_
  have hvalue : Reads const w.digits (avoids [] []) (· = .scalar .int w.spelling) :=
    (reads_const hlegal).mono (fun _ _ => trivial) fun _ h => h
  refine reads_closed (fun _ => w.separator) hvalue (by simp) fun value hkept => ?_
  refine (reads_declare first).andThen fun decl _ => Reads.pure ?_
  simp [Definition.erase, hsame, hnamed, hkept]

theorem loopItem (hlegal : w.Legal) :
    LoopItem item Prod.fst eraseItem Prod.snd (fun o => !o.isNone) (avoids continuations [])
      (w.faces, .inr (.const
        { name := w.name, type := w.type.erase, value := .scalar .int w.spelling })) := by
  refine ⟨?_, Face.word "const", rfl, rfl, avoids_word (by decide) rfl⟩
  have hdeclaration : Reads definition w.faces (avoids continuations []) fun d =>
      d.erase = .const
        { name := w.name, type := w.type.erase, value := .scalar .int w.spelling } := by
    rw [definition_eq]
    refine Reads.byWord (f := Face.word "const") rfl rfl ?_
    exact (reads_constDefinition hlegal).andThen fun _ hsame => Reads.pure hsame
  rw [item_eq]
  refine Reads.byWord_none rfl (not_isWord_headerStatements (w := "const") (by decide)) ?_
  exact hdeclaration.andThen fun d hsame => Reads.pure (congrArg Sum.inr hsame)

/-- A constant of a document has the name, the type and the value of the written one. -/
structure Describes (w : WrittenInteger) (c : Constant) : Prop where
  name : c.name = w.name
  type : c.type = w.type.fieldType
  value : c.value = .scalar .int w.spelling

theorem exists_describes {t : Tree} {d : Definition} (hlisted : d ∈ t.definitions)
    (herased : d.erase = .const
      { name := w.name, type := w.type.erase, value := .scalar .int w.spelling })
    (path : String) (comments : CommentsOf) :
    ∃ c, .const c ∈ (t.document path comments).statements ∧ w.Describes c := by
  cases d with
  | const tree =>
    have hsame := Definition.const.inj herased
    have htype : tree.type.erase = w.type.erase := congrArg ConstTree.type hsame
    refine ⟨_, List.mem_map_of_mem hlisted, congrArg ConstTree.name hsame, ?_,
      congrArg ConstTree.value hsame⟩
    rw [← TypeTree.fieldType_erase w.type, ← htype, TypeTree.fieldType_erase]
  | typedef t => cases herased
  | enum e => cases herased
  | struct s => cases herased
  | service s => cases herased

end WrittenInteger

end Thrift

/-- A constant that is written as an integer, among any declarations, is a constant of the
document. -/
theorem Load.parseText_writtenInteger {path text : String} {r : Reporter}
    (hsilent : (lexText .thrift path text r).2.reported = r.reported) {before after : List Face}
    (hwritten₁ : DeclarationRow .thrift before) (hwritten₂ : DeclarationRow .thrift after)
    {w : Thrift.WrittenInteger} (hlegal : w.Legal)
    (hspelled : significant (lexText .thrift path text r).1 = before ++ w.faces ++ after)
    (revise : Bool) :
    ∃ d c, parseText .thrift path text revise r = (.ok d, r) ∧ .const c ∈ d.statements ∧
      w.Describes c := by
  obtain ⟨t, comments, hparsed, d, hlisted, herased⟩ := parseText_of_reads hsilent hspelled
    (Thrift.reads_among hwritten₁ hwritten₂ (Thrift.WrittenInteger.loopItem hlegal)) revise
  obtain ⟨c, hmember, hdescribes⟩ :=
    Thrift.WrittenInteger.exists_describes hlisted herased path comments
  exact ⟨_, c, hparsed, hmember, hdescribes⟩

/-! ## From documents to tokens -/

/-- An integer is the digits of one of the tokens behind its sign. -/
def Const.Verbatim (tokens : List Token) (c : Const) : Prop :=
  ∀ text, c = .scalar .int text → ∃ negative, ∃ t ∈ tokens,
    t.kind ∈ [TokenKind.integerDecimal, .integerHex] ∧
      text.toList = Number.signed negative t.value.toList

theorem Const.verbatim_scalar {tokens : List Token} {kind : ConstKind} (hother : kind ≠ .int)
    (text : String) : (Const.scalar kind text).Verbatim tokens :=
  fun _ hsame => absurd (Const.scalar.inj hsame).1 hother

theorem Const.verbatim_list {tokens : List Token} (items : List Const) :
    (Const.list items).Verbatim tokens := by
  intro text hsame
  cases hsame

theorem Const.verbatim_map {tokens : List Token} (pairs : List (Const × Const)) :
    (Const.map pairs).Verbatim tokens := by
  intro text hsame
  cases hsame

theorem Const.verbatim_ofNumber {tokens : List Token} {t : Token} (hlisted : t ∈ tokens)
    (hkind : t.kind ∈ [TokenKind.integerDecimal, .integerHex, .floatDecimal]) (negative : Bool) :
    (Const.ofNumber (if negative then "-" else "") t).Verbatim tokens := by
  intro text hsame
  unfold Const.ofNumber at hsame
  split at hsame
  · cases hsame
  · rename_i hwhole
    obtain ⟨-, rfl⟩ := Const.scalar.inj hsame
    refine ⟨negative, t, hlisted, by simp_all, ?_⟩
    cases negative <;> simp [Number.signed]

namespace Thrift

open Parser

variable {tokens : List Token}

theorem verbatim_constValue (fuel : Nat) :
    Among (· ∈ tokens) (Const.Verbatim tokens) (constValue fuel) := by
  cases fuel with
  | zero => exact .illegal
  | succ fuel =>
    have hnumber (negative : Bool) : Among (· ∈ tokens) (Const.Verbatim tokens)
        (expectOf [.integerDecimal, .integerHex, .floatDecimal] >>= fun t =>
          pure (Const.ofNumber (if negative then "-" else "") t)) :=
      .bind .expectOf fun t hfound => .pure (Const.verbatim_ofNumber hfound.2 hfound.1 negative)
    unfold constValue
    refine .skip fun kind => ?_
    split
    · exact .skip fun _ => hnumber true
    · exact .skip fun _ => hnumber false
    · exact hnumber false
    · exact hnumber false
    · exact hnumber false
    · exact .skip fun t => .pure (Const.verbatim_scalar (by decide) t.value)
    · refine .skip fun name => .pure (Const.verbatim_scalar ?_ name)
      split <;> decide
    · exact .skip fun _ => .skip fun items => .pure (Const.verbatim_list items)
    · exact .skip fun _ => .skip fun pairs => .pure (Const.verbatim_map pairs)
    · exact .illegal

def Definition.Verbatim (tokens : List Token) : Definition → Prop
  | .const c => c.value.Verbatim tokens
  | _ => True

theorem verbatim_constDefinition :
    Among (· ∈ tokens) (fun c => c.value.Verbatim tokens) constDefinition := by
  unfold constDefinition
  exact .skip fun _ => .skip fun _ => .skip fun _ => .skip fun _ => .skip fun _ =>
    .bind (.fuelled verbatim_constValue) fun _ hverbatim => .skip fun _ => .skip fun _ =>
      .pure hverbatim

theorem verbatim_definition :
    Among (· ∈ tokens) (Definition.Verbatim tokens) definition := by
  unfold definition
  exact .skip fun _ => .branch (.bind verbatim_constDefinition fun _ h => .pure h) (.skip fun _ =>
    .branch (.skip fun _ => .pure trivial) (.skip fun _ =>
    .branch (.skip fun _ => .pure trivial) (.skip fun _ =>
    .branch (.skip fun _ => .pure trivial) (.skip fun _ =>
    .branch (.skip fun _ => .pure trivial) .illegal))))

theorem verbatim_item :
    Among (· ∈ tokens) (fun i => ∀ d, Sum.getRight? i = some d → d.Verbatim tokens) item := by
  unfold item
  exact .skip fun _ => .branch (.skip fun _ => .pure (by simp)) (.skip fun _ =>
    .branch (.skip fun _ => .pure (by simp))
      (.bind verbatim_definition fun _ h => .pure (by simpa using h)))

theorem verbatim_file :
    Among (· ∈ tokens) (fun t => ∀ d ∈ t.definitions, d.Verbatim tokens) file := by
  have hmade : Made true (whileDo (fun c => !c.atEnd) item) :=
    .whileDo (fun _ _ _ => rfl) inferInstance
  refine Among.file grammar (.bind (.whileDo verbatim_item) fun items hall => .pure ?_)
  intro d hlisted
  obtain ⟨i, hmember, hright⟩ := List.mem_filterMap.mp hlisted
  exact hall i hmember d hright

end Thrift

theorem Load.verbatim_of_parseText {path text : String} {revise : Bool} {r : Reporter}
    {d : Document} (hparsed : (parseText .thrift path text revise r).1 = .ok d) {c : Constant}
    (hlisted : .const c ∈ d.statements) :
    c.value.Verbatim (lexText .thrift path text r).1 := by
  rw [parseText_eq] at hparsed
  simp only [Language.conclude] at hparsed
  split at hparsed
  · rename_i tree hread hunfailed
    obtain rfl := Except.ok.inj hparsed
    obtain ⟨t, hmember, hsame⟩ := List.mem_map.mp hlisted
    have hamong : Among (· ∈ (lexText .thrift path text r).1) _ Thrift.file :=
      Thrift.verbatim_file
    have hverbatim := hamong (fun t hleft => Cursor.mem_of_mem_ofSource hleft)
      (Prod.ext hread rfl) t hmember
    cases t with
    | const tree =>
      obtain rfl := Statement.const.inj hsame
      exact hverbatim
    | typedef t => cases hsame
    | enum e => cases hsame
    | struct s => cases hsame
    | service s => cases hsame
  · cases hparsed

/-! ## From documents to literals -/

namespace Generate

open Load (parseText lexText)
open Number (signedValue)
open Typescript (typeName)

/-- The literal of an integer denotes what its text is read as, and a text that cannot be read
is a string. -/
theorem constText_integer (text : String) : ∃ literal,
    constText (.scalar .int text) = .ok literal ∧
      ∀ n, Json.Denotes literal n ↔ Number.int64? text = some n := by
  cases hread : Number.int64? text with
  | some m =>
    have hvalue : Value.ofConst (.scalar .int text) = .int m := by simp [Value.ofConst, hread]
    refine ⟨Text.ofInt m, congrArg Value.literal hvalue, fun n => ?_⟩
    rw [Json.denotes_ofInt_iff, Option.some.injEq]
  | none =>
    have hvalue : Value.ofConst (.scalar .int text) = .string text := by simp [Value.ofConst, hread]
    refine ⟨Json.spellString .kept text, congrArg Value.literal hvalue, fun n => ?_⟩
    exact iff_of_false (Json.not_denotes_spellString .kept text n) (Option.some_ne_none n).symm

/-- What becomes of a constant with the digits of an integer token behind its sign. It is
declared with a literal, as soon as its type has a name. The literal is a JSON number that
denotes the written integer exactly if this has 64 bits and is hexadecimal, has no leading zero
or is below eight. -/
def Emits (c : Constant) (negative : Bool) (number : Face) : Prop :=
  ∃ literal, constText c.value = .ok literal ∧
    (∀ g style source, declarationOf g style source (.const c) =
      Failure.within ("const " ++ c.name) do
        let type ← typeName g.types (g.symbols.resolver source) style.enumKeysAsNumbers c.type
        return some (.const c.name (commentLines c.comments) type literal)) ∧
    (Json.Denotes literal (signedValue negative number.written) ↔
      (-2 ^ 63 ≤ signedValue negative number.written ∧
        signedValue negative number.written < 2 ^ 63) ∧
      (number.kind = .integerHex ∨ number.value.toList.head? ≠ some '0' ∨ number.written < 8))

theorem emits_of_integral {c : Constant} {number : Face} (hintegral : number.Integral)
    (hkind : number.kind ∈ [TokenKind.integerDecimal, .integerHex]) {spelling : String}
    (hinteger : c.value = .scalar .int spelling) {negative : Bool}
    (hspelled : spelling.toList = Number.signed negative number.value.toList) :
    Emits c negative number := by
  obtain ⟨first, rest, hcons, hlegal⟩ := hintegral.exists_cons hkind
  obtain ⟨literal, hwritten, hdenotes⟩ := constText_integer spelling
  rw [← hinteger] at hwritten
  refine ⟨literal, hwritten, fun g style source => ?_, ?_⟩
  · rw [declarationOf, hwritten]
    rfl
  · have htext : spelling = String.ofList (Number.signed negative number.value.toList) :=
      String.toList_inj.mp (by rw [hspelled, String.toList_ofList])
    rw [hdenotes, htext, hcons, Number.int64?_signed_iff negative hlegal, ← hcons,
      hintegral.magnitude?_written_iff hkind]
    exact And.comm

/-- Integer constants, from the tokens of a text to the literals in the types module. A constant
that is written as an integer, among any declarations, is one of the document, and is declared
with its literal. And in whatever text they stand, the integer constants of a document have the
digits of integer tokens behind their signs, and are declared with their literals. -/
theorem declarationOf_integer (path text : String) (revise : Bool) (r : Reporter) :
    (∀ (before after : List Face) (w : Thrift.WrittenInteger),
      (lexText .thrift path text r).2.reported = r.reported →
      DeclarationRow .thrift before → DeclarationRow .thrift after → w.Legal →
      significant (lexText .thrift path text r).1 = before ++ w.faces ++ after →
      ∃ d c, parseText .thrift path text revise r = (.ok d, r) ∧ .const c ∈ d.statements ∧
        w.Describes c ∧ Emits c w.negative w.number) ∧
    (∀ d c spelling, (parseText .thrift path text revise r).1 = .ok d →
      .const c ∈ d.statements → c.value = .scalar .int spelling →
      ∃ negative, ∃ t ∈ (lexText .thrift path text r).1,
        t.kind ∈ [TokenKind.integerDecimal, .integerHex] ∧
        spelling.toList = Number.signed negative t.value.toList ∧
        Emits c negative t.face) := by
  have hintegral : ∀ t ∈ (lexText .thrift path text r).1, t.face.Integral := fun t hmember =>
    integral_of_mem_lex (Load.lexText_eq .thrift path text r ▸ hmember)
  constructor
  · intro before after w hsilent hwritten₁ hwritten₂ hlegal hspelled
    obtain ⟨d, c, hparsed, hlisted, hdescribes⟩ :=
      Load.parseText_writtenInteger hsilent hwritten₁ hwritten₂ hlegal hspelled revise
    have hseen : w.number ∈ significant (lexText .thrift path text r).1 := by
      simp [hspelled, Thrift.WrittenInteger.faces, Thrift.WrittenInteger.digits]
    obtain ⟨t, hmember, hface⟩ := List.mem_map.mp hseen
    have hown : w.number.Integral := hface ▸ hintegral t (List.mem_filter.mp hmember).1
    exact ⟨d, c, hparsed, hlisted, hdescribes, emits_of_integral hown hlegal.number hdescribes.value
      Thrift.WrittenInteger.toList_spelling⟩
  · intro d c spelling hparsed hlisted hinteger
    obtain ⟨negative, t, hmember, hkind, hspelled⟩ :=
      Load.verbatim_of_parseText hparsed hlisted _ hinteger
    exact ⟨negative, t, hmember, hkind, hspelled,
      emits_of_integral (hintegral t hmember) hkind hinteger hspelled⟩

def lowestInteger : Thrift.WrittenInteger where
  type := .name {} "i64" []
  name := "LOWEST"
  sign := some .minus
  number := { kind := .integerHex, value := "0x8000000000000000" }

theorem declarationOf_integer_lowest :
    ∃ d c, parseText .thrift "a" "const i64 LOWEST = -0x8000000000000000" true {} = (.ok d, {}) ∧
      .const c ∈ d.statements ∧ lowestInteger.Describes c ∧
      (∃ literal, constText c.value = .ok literal ∧ Json.Denotes literal (-2 ^ 63)) ∧
      ∃ negative, ∃ t ∈ (lexText .thrift "a" "const i64 LOWEST = -0x8000000000000000" {}).1,
        Emits c negative t.face := by
  have hnone : DeclarationRow .thrift [] := .thrift (fun _ => .none) [] (by simp)
  have hlegal : lowestInteger.Legal := ⟨by decide, by decide, by decide⟩
  have hfaces : significant (lexText .thrift "a" "const i64 LOWEST = -0x8000000000000000" {}).1 =
      [] ++ lowestInteger.faces ++ [] := by decide +kernel
  have hlowest : signedValue lowestInteger.negative lowestInteger.number.written = -2 ^ 63 := by
    decide +kernel
  obtain ⟨d, c, hparsed, hlisted, hdescribes, literal, hwritten, -, hdenotes⟩ :=
    (declarationOf_integer "a" _ true {}).1 [] [] lowestInteger (by decide +kernel) hnone hnone
      hlegal hfaces
  obtain ⟨negative, t, hmember, -, -, hemits⟩ :=
    (declarationOf_integer "a" _ true {}).2 d c _ (congrArg Prod.fst hparsed) hlisted
      hdescribes.value
  rw [hlowest] at hdenotes
  exact ⟨d, c, hparsed, hlisted, hdescribes,
    ⟨literal, hwritten, hdenotes.mpr ⟨by decide, .inl rfl⟩⟩, negative, t, hmember, hemits⟩

/-- Decimal digits behind a leading zero denote another number or none, and so do digits that
stand for a number above the range. -/
theorem constant_misread :
    ((parseText .thrift "a" "const i32 A = 010 const i32 B = 08 const i64 C = 9223372036854775808"
        true {}).1.toOption.map fun d => d.statements.map fun
          | .const c => (c.name, (constText c.value).toOption)
          | st => (st.name, none)) =
        some [("A", some "8"), ("B", some "\"08\""), ("C", some "\"9223372036854775808\"")] ∧
      ¬ Json.Denotes "8" 10 ∧ ¬ Json.Denotes "\"08\"" 8 ∧
        ¬ Json.Denotes "\"9223372036854775808\"" (2 ^ 63) := by
  have height : Text.ofInt 8 = "8" := by decide +kernel
  have hquoted : Json.spellString .kept "08" = "\"08\"" := by decide +kernel
  have hquoted' : Json.spellString .kept "9223372036854775808" = "\"9223372036854775808\"" := by
    decide +kernel
  refine ⟨by decide +kernel, ?_, ?_, ?_⟩
  · rw [← height, Json.denotes_ofInt_iff]
    decide
  · rw [← hquoted]
    exact Json.not_denotes_spellString _ _ _
  · rw [← hquoted']
    exact Json.not_denotes_spellString _ _ _

end Generate

end ClientGen
