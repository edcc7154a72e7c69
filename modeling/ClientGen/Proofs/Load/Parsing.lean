import ClientGen.Load.Compile
import ClientGen.Proofs.Proto.Lockstep
import ClientGen.Proofs.Proto.Lowering
import ClientGen.Proofs.Source.Session
import ClientGen.Proofs.Thrift.Lockstep
import ClientGen.Proofs.Thrift.Lowering

/-! # Parsing texts

What parsing a text owes to its caller, in either language. The layout of a text
leaves no trace but positions and comments (`parseText_layout`). A document comes
with no report, and an error is the first report (`parseText_reported`). A parse
that fails reports once (`parseText_reportsOnce`), but for the two places where
Thrift drops a failure: there it may report again (`reported_twice`).
-/

namespace ClientGen

open Source

/-! ## The two grammars -/

/-- Thrift files. Two productions drop failures. -/
def Thrift.grammar : Grammar Thrift.Tree where
  file := Thrift.file
  items := do
    let items ← Parser.whileDo (fun c => !c.atEnd) Thrift.item
    return { headers := items.filterMap Sum.getLeft?,
             definitions := items.filterMap Sum.getRight? }
  erase := Thrift.Tree.erase
  ok := Thrift.forthright
  run_of_failed h := by simp [Thrift.file, Parser.run, Parser.look, Parser.giveUp, h, bind]
  run_of_unfailed := Thrift.run_file
  steps := Thrift.steps_items
  rest_of_value := Parser.rest_of_whileDo

/-- Protobuf files. No production drops a failure. -/
def Proto.grammar : Grammar Proto.Tree where
  file := Proto.file
  items := do
    let items ← Parser.whileDo (fun c => !c.atEnd) Proto.fileItem
    return items.foldl Proto.Tree.add {}
  erase := Proto.Tree.erase
  ok _ := true
  run_of_failed h := by simp [Proto.file, Parser.run, Parser.look, Parser.giveUp, h, bind]
  run_of_unfailed := Proto.run_file
  steps := Proto.steps_items
  rest_of_value := Parser.rest_of_whileDo

namespace Load

/-- What parsing in a language is made of: a grammar, the document of a tree, which
keeps nothing of the layout but places and comments, and what is said of a parse
that has no diagnostic to show. -/
structure Language where
  Tree : Type
  options : Lexer.Options
  grammar : Grammar Tree
  document : String → (Nat → List Comment) → Tree → Document
  complaint : String
  erase_document : ∀ {path : String} {k k' : Nat → List Comment} {t t' : Tree},
    grammar.erase t = grammar.erase t' → (document path k t).erase = (document path k' t').erase

def language : Dialect → Language
  | .thrift =>
    { Tree := Thrift.Tree, options := { hashComments := true }, grammar := Thrift.grammar,
      document := Thrift.Tree.document, complaint := "failed to parse thrift",
      erase_document := fun {path k k' t t'} h => by
        have ht : t.erase = t'.erase := h
        rw [Thrift.Tree.erase_document, Thrift.Tree.erase_document, ht] }
  | .protobuf =>
    { Tree := Proto.Tree, options := {}, grammar := Proto.grammar,
      document := Proto.Tree.document, complaint := "failed to parse protobuf",
      erase_document := fun {path k k' t t'} h => by
        have ht : t.erase = t'.erase := h
        rw [Proto.Tree.erase_document, Proto.Tree.erase_document, ht] }

namespace Language

variable (l : Language) (path text : String) (revise : Bool) (r : Reporter)

def session : Option l.Tree × Cursor := l.grammar.session l.options path text r

/-- The end of a session: the document of its tree with the comments, or the first
fatal diagnostic. -/
def conclude (x : Option l.Tree × Cursor) : Except Failure Document :=
  match x.1, x.2.failed with
  | some t, false => .ok (l.document path (attached (attachments x.2 revise)) t)
  | _, _ => .error (.diagnostic (x.2.error?.getD
      { location := { uri := path }, code := Code.unknownFatal, message := l.complaint }))

end Language

theorem thrift_finish_eq (path : String) (revise : Bool) (tree : Option Thrift.Tree) (c : Cursor) :
    Thrift.finish path revise tree c = (language .thrift).conclude path revise (tree, c) := by
  unfold Thrift.finish Language.conclude
  dsimp only
  cases tree <;> cases c.failed <;> cases c.error? <;> rfl

theorem proto_finish_eq (path : String) (revise : Bool) (tree : Option Proto.Tree) (c : Cursor) :
    Proto.finish path revise tree c = (language .protobuf).conclude path revise (tree, c) := by
  unfold Proto.finish Language.conclude
  dsimp only
  cases tree <;> cases c.failed <;> rfl

/-- Parsing a text is a session and its end. -/
theorem parseText_eq (dialect : Dialect) (path text : String) (revise : Bool) (r : Reporter) :
    parseText dialect path text revise r =
      ((language dialect).conclude path revise ((language dialect).session path text r),
        ((language dialect).session path text r).2.reporter) := by
  cases dialect with
  | thrift =>
      obtain ⟨tree, c, hrun⟩ : ∃ tree c, (language .thrift).session path text r = (tree, c) :=
        ⟨_, _, rfl⟩
      have hfile : Thrift.file.run (Cursor.ofSource { hashComments := true } path text r) =
          (tree, c) := hrun
      rw [hrun]
      simp only [parseText, Thrift.parse, hfile]
      exact congrArg (·, c.reporter) (thrift_finish_eq path revise tree c)
  | protobuf =>
      obtain ⟨tree, c, hrun⟩ : ∃ tree c, (language .protobuf).session path text r = (tree, c) :=
        ⟨_, _, rfl⟩
      have hfile : Proto.file.run (Cursor.ofSource {} path text r) = (tree, c) := hrun
      rw [hrun]
      simp only [parseText, Proto.parse, hfile]
      exact congrArg (·, c.reporter) (proto_finish_eq path revise tree c)

/-- The tokens of a text in a language; only Thrift has comments behind a hash. -/
def lexText (dialect : Dialect) (path text : String) (r : Reporter) : List Token × Reporter :=
  Lexer.lex { hashComments := dialect == .thrift } path text r

theorem lexText_eq (dialect : Dialect) (path text : String) (r : Reporter) :
    lexText dialect path text r = Lexer.lex (language dialect).options path text r := by
  cases dialect <;> rfl

/-! ## Layout -/

/-- Two results agree apart from the layout of their sources: they are documents
that are equal without positions and comments, or diagnostics that say the same. -/
def AgreeApartLayout (x y : Except Failure Document) : Prop :=
  (∃ d d', x = .ok d ∧ y = .ok d' ∧ d.erase = d'.erase) ∨
    ∃ e e', x = .error (.diagnostic e) ∧ y = .error (.diagnostic e') ∧ e.notice = e'.notice

/-- Sessions that agree up to places end alike, whichever comments trail. -/
theorem Language.conclude_agree (l : Language) {path : String} {revise revise' : Bool}
    {x x' : Option l.Tree × Cursor} (htree : x.1.map l.grammar.erase = x'.1.map l.grammar.erase)
    (hfailed : x.2.failed = x'.2.failed)
    (herror : x.2.error?.map Diagnostic.notice = x'.2.error?.map Diagnostic.notice) :
    AgreeApartLayout (l.conclude path revise x) (l.conclude path revise' x') := by
  obtain ⟨tree, c⟩ := x
  obtain ⟨tree', c'⟩ := x'
  have hnotice : ∀ fallback : Diagnostic,
      (c.error?.getD fallback).notice = (c'.error?.getD fallback).notice := by
    intro fallback
    rw [← Option.getD_map Diagnostic.notice, ← Option.getD_map Diagnostic.notice, herror]
  simp only at htree hfailed
  unfold conclude
  simp only [hfailed]
  cases tree with
  | none =>
      have hnone : tree' = none := by simpa using htree.symm
      subst hnone
      exact .inr ⟨_, _, rfl, rfl, hnotice _⟩
  | some t =>
      obtain ⟨t', rfl, ht⟩ : ∃ t', tree' = some t' ∧ l.grammar.erase t' = l.grammar.erase t := by
        simpa using htree.symm
      cases c'.failed with
      | true => exact .inr ⟨_, _, rfl, rfl, hnotice _⟩
      | false => exact .inl ⟨_, _, rfl, rfl, l.erase_document ht.symm⟩

/-- Layout does not matter: two texts that lex silently to the same significant
tokens, parsed with either handling of trailing comments, both have documents,
which are equal without positions and comments, or both fail and say the same. -/
theorem parseText_layout (dialect : Dialect) (path text text' : String) (revise revise' : Bool)
    (r r' : Reporter) (hcodes : r.nonfatal = r'.nonfatal)
    (h : (lexText dialect path text r).2.reported = r.reported)
    (h' : (lexText dialect path text' r').2.reported = r'.reported)
    (hsame : significant (lexText dialect path text r).1 =
      significant (lexText dialect path text' r').1) :
    AgreeApartLayout (parseText dialect path text revise r).1
      (parseText dialect path text' revise' r').1 := by
  rw [lexText_eq] at h h'
  rw [lexText_eq, lexText_eq] at hsame
  rw [parseText_eq, parseText_eq]
  obtain ⟨htree, hfailed, herror⟩ :=
    (language dialect).grammar.session_eq hcodes h h' hsame
  exact (language dialect).conclude_agree htree hfailed herror

/-- A declaration on one line with a comment after each token it may trail. -/
def denseText : String := "struct A \x7b 1: i32 b = 2 (c = 'd') # e\n \x7d // f"

/-- The same tokens, one on a line, behind a block comment. -/
def looseText : String := "/* g\n*/struct A\r\x7b\n\n1\n:\ni32 b\t=\n2 // h\n(c = \"d\") \x7d"

theorem parseText_layout_loose :
    (lexText .thrift "a" denseText {}).2.reported = [] ∧
      (lexText .thrift "a" looseText {}).2.reported = [] ∧
      significant (lexText .thrift "a" denseText {}).1 =
        significant (lexText .thrift "a" looseText {}).1 ∧
      (parseText .thrift "a" denseText true {}).1.isOk = true ∧
      AgreeApartLayout (parseText .thrift "a" denseText true {}).1
        (parseText .thrift "a" looseText false {}).1 := by
  have hdense : (lexText .thrift "a" denseText {}).2.reported = [] := by decide +kernel
  have hloose : (lexText .thrift "a" looseText {}).2.reported = [] := by decide +kernel
  have hsame : significant (lexText .thrift "a" denseText {}).1 =
      significant (lexText .thrift "a" looseText {}).1 := by decide +kernel
  exact ⟨hdense, hloose, hsame, by decide +kernel,
    parseText_layout .thrift "a" denseText looseText true false {} {} rfl hdense hloose hsame⟩

/-! ## Reports -/

def lastCursor (dialect : Dialect) (path text : String) (r : Reporter) : Cursor :=
  match dialect with
  | .thrift => (Thrift.file.run (Cursor.ofSource { hashComments := true } path text r)).2
  | .protobuf => (Proto.file.run (Cursor.ofSource {} path text r)).2

theorem lastCursor_eq (dialect : Dialect) (path text : String) (r : Reporter) :
    lastCursor dialect path text r = ((language dialect).session path text r).2 := by
  cases dialect <;> rfl

theorem Language.conclude_of_value (l : Language) (path : String) (revise : Bool)
    {x : Option l.Tree × Cursor} {t : l.Tree} (ht : x.1 = some t) (hfailed : x.2.failed = false) :
    ∃ d, l.conclude path revise x = .ok d := by
  unfold conclude
  rw [ht, hfailed]
  exact ⟨_, rfl⟩

theorem Language.conclude_of_error (l : Language) (path : String) (revise : Bool)
    {x : Option l.Tree × Cursor} {d : Diagnostic} (hfailed : x.2.failed = true)
    (h : x.2.error? = some d) : l.conclude path revise x = .error (.diagnostic d) := by
  unfold conclude
  cases x.1 <;> simp [hfailed, h]

/-- The two ways in which parsing ends with the default codes. Where no failure is
dropped, at most one diagnostic is added. -/
theorem parseText_cases (dialect : Dialect) (path text : String) (revise : Bool) (r : Reporter)
    (hr : r.nonfatal = Code.harmless) :
    ∃ new, (parseText dialect path text revise r).2.reported = r.reported ++ new ∧
      (Steady (language dialect).grammar.ok (significant (lexText dialect path text r).1) →
        new.length ≤ 1) ∧
      ((new = [] ∧ (lastCursor dialect path text r).rest = [] ∧
          ∃ d, (parseText dialect path text revise r).1 = .ok d) ∨
        ∃ d ds, new = d :: ds ∧
          (parseText dialect path text revise r).1 = .error (.diagnostic d)) := by
  rw [parseText_eq, lastCursor_eq, lexText_eq]
  obtain ⟨new, hnew, honce, hcases⟩ :=
    (language dialect).grammar.session_cases (language dialect).options path text r hr
  refine ⟨new, hnew, honce, ?_⟩
  rcases hcases with ⟨hnil, ⟨t, ht⟩, hfailed, hrest⟩ | ⟨d, ds, hcons, hfailed, herror⟩
  · exact .inl ⟨hnil, hrest, (language dialect).conclude_of_value path revise ht hfailed⟩
  · exact .inr ⟨d, ds, hcons, (language dialect).conclude_of_error path revise hfailed herror⟩

/-- Results match the reporter. With the default codes and whatever was reported
before, a text has a document exactly when parsing it adds nothing to the
reporter, and then every significant token is consumed; otherwise the error is
the first diagnostic that was added. -/
theorem parseText_reported (dialect : Dialect) (path text : String) (revise : Bool) (r : Reporter)
    (hr : r.nonfatal = Code.harmless) :
    (parseText dialect path text revise r).2 = (lastCursor dialect path text r).reporter ∧
      ∃ new, (parseText dialect path text revise r).2.reported = r.reported ++ new ∧
        ((∃ d, (parseText dialect path text revise r).1 = .ok d) ↔ new = []) ∧
        (new = [] → (lastCursor dialect path text r).rest = []) ∧
        ∀ d ds, new = d :: ds →
          (parseText dialect path text revise r).1 = .error (.diagnostic d) := by
  refine ⟨by rw [parseText_eq, lastCursor_eq], ?_⟩
  obtain ⟨new, hnew, -, hcases⟩ := parseText_cases dialect path text revise r hr
  refine ⟨new, hnew, ?_⟩
  rcases hcases with ⟨rfl, hrest, hok⟩ | ⟨d, ds, rfl, herror⟩
  · exact ⟨by simp [hok], fun _ => hrest, by simp⟩
  · refine ⟨by simp [herror], by simp, ?_⟩
    intro x xs hxs
    rw [herror, (List.cons.inj hxs).1]

/-- A reporter that holds an earlier failure, and a text that is reported twice. -/
theorem parseText_reported_earlier :
    let r : Reporter := { reported := [.fileNotFound "b"] }
    r.nonfatal = Code.harmless ∧
      ∃ d ds, (parseText .thrift "a" "namespace js b (1)" false r).2.reported =
          r.reported ++ d :: ds ∧
        ds ≠ [] ∧
        (parseText .thrift "a" "namespace js b (1)" false r).1 = .error (.diagnostic d) := by
  intro r
  obtain ⟨-, new, hnew, -, -, herror⟩ :=
    parseText_reported .thrift "a" "namespace js b (1)" false r rfl
  have hlength : (parseText .thrift "a" "namespace js b (1)" false r).2.reported.length = 3 := by
    decide +kernel
  match new, hnew, herror with
  | [], hnew, _ => simp [hnew, r] at hlength
  | [_], hnew, _ => simp [hnew, r] at hlength
  | d :: d' :: ds, hnew, herror =>
      exact ⟨rfl, d, d' :: ds, hnew, by simp, herror d (d' :: ds) rfl⟩

/-- A parse that fails reports once. In Thrift this holds where no failure is
dropped: each word for a foreign type stands before a text, and the annotations of
each namespace can be read. -/
theorem parseText_reportsOnce (dialect : Dialect) (path text : String) (revise : Bool)
    (hsteady : dialect = .thrift →
      Steady Thrift.forthright (significant (lexText dialect path text {}).1))
    (hfails : (parseText dialect path text revise {}).1.isOk = false) :
    (parseText dialect path text revise {}).2.reported.length = 1 := by
  obtain ⟨new, hnew, honce, hcases⟩ := parseText_cases dialect path text revise {} rfl
  have hok : Steady (language dialect).grammar.ok (significant (lexText dialect path text {}).1) := by
    cases dialect with
    | thrift => exact hsteady rfl
    | protobuf => exact fun _ _ => rfl
  have hmost := honce hok
  rcases hcases with ⟨-, -, d, hd⟩ | ⟨d, ds, rfl, -⟩
  · rw [hd] at hfails
    cases hfails
  · rw [hnew]
    simp only [List.nil_append, List.length_cons] at hmost ⊢
    omega

/-- Annotations of a namespace and the text of a foreign type, and then a mistake. -/
def mistakenText : String :=
  "namespace js b (c = 'd') typedef list cpp_type 'e' <i32> 5"

theorem parseText_reportsOnce_mistaken :
    Steady Thrift.forthright (significant (lexText .thrift "a" mistakenText {}).1) ∧
      (parseText .thrift "a" mistakenText true {}).1.isOk = false ∧
      (parseText .thrift "a" mistakenText true {}).2.reported.length = 1 := by
  have hsteady : Steady Thrift.forthright
      (significant (lexText .thrift "a" mistakenText {}).1) := by decide +kernel
  have hfails : (parseText .thrift "a" mistakenText true {}).1.isOk = false := by decide +kernel
  exact ⟨hsteady, hfails,
    parseText_reportsOnce .thrift "a" mistakenText true (fun _ => hsteady) hfails⟩

/-- Annotations of a namespace that cannot be read are reported, and so is the
token at which the file is read on. -/
theorem reported_twice :
    (parseText .thrift "source" "namespace js a (1)" false {}).1.isOk = false ∧
      (parseText .thrift "source" "namespace js a (1)" false {}).2.reported.map
        Diagnostic.notice =
        [(Code.illegalToken, "illegal token '1'"), (Code.illegalToken, "illegal token '1'")] := by
  decide +kernel

end Load
end ClientGen
