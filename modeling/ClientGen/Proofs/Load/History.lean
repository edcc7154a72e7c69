import ClientGen.Proofs.Load.Declarations
import ClientGen.Proofs.Load.Parsing

/-! # What was reported before

Compiling a file does not read what the reporter already holds
(`compileFile_after`), so a file that is compiled again later has the same document
or the same failure. With the default codes a document comes without a report.
-/

namespace ClientGen
namespace Source

theorem Reporter.eq_after (r : Reporter) :
    r = ({ nonfatal := r.nonfatal } : Reporter).after r.reported := by
  simp [after]

section Sources

variable (o : Lexer.Options) (uri source : String) (earlier : List Diagnostic) (r : Reporter)

theorem Lexer.lex_after : lex o uri source (r.after earlier) =
    ((lex o uri source r).1, (lex o uri source r).2.after earlier) := by
  unfold lex
  cases hrun : run o (Text.codePoints source) with
  | mk tokens fault =>
      cases fault with
      | none => rfl
      | some f => exact Prod.ext rfl (Reporter.report_after earlier r _)

theorem Lexer.codes_lex : (lex o uri source r).2.nonfatal = r.nonfatal := by
  unfold lex
  cases hrun : run o (Text.codePoints source) with
  | mk tokens fault => cases fault <;> rfl

theorem Cursor.ofSource_after : ofSource o uri source (r.after earlier) =
    (ofSource o uri source r).after earlier := by
  have hfatal : (Lexer.lex o uri source r).2.isFatal = r.isFatal := by
    funext d
    simp only [Reporter.isFatal, Lexer.codes_lex]
  have hbefore : (r.after earlier).fatal.length =
      r.fatal.length + (earlier.filter r.isFatal).length := by
    rw [Reporter.fatal_after, List.length_append, Nat.add_comm]
  have hafter : ((Lexer.lex o uri source r).2.after earlier).fatal.length =
      (Lexer.lex o uri source r).2.fatal.length + (earlier.filter r.isFatal).length := by
    rw [Reporter.fatal_after, List.length_append, Nat.add_comm, hfatal]
  unfold ofSource
  rw [Lexer.lex_after]
  simp only [ofTokens, after, hbefore, hafter, hfatal, Nat.add_lt_add_iff_right]

end Sources

end Source

namespace Load

open Source (Reporter Failure Code Diagnostic Cursor Made)
open Files (SourceFile Kind)

/-! ## Texts -/

section Texts

variable (dialect : Dialect) (path text : String) (revise : Bool) (earlier : List Diagnostic)
  (r : Reporter)

theorem made_file : Made true (language dialect).grammar.file := by
  cases dialect with
  | thrift => exact (inferInstance : Made true Thrift.file)
  | protobuf => exact (inferInstance : Made true Proto.file)

theorem session_after : (language dialect).session path text (r.after earlier) =
    (((language dialect).session path text r).1,
      ((language dialect).session path text r).2.after earlier) := by
  unfold Language.session Source.Grammar.session
  rw [Cursor.ofSource_after]
  exact (made_file dialect).run_after earlier _

theorem Language.conclude_after (l : Language) (x : Option l.Tree × Cursor) :
    l.conclude path revise (x.1, x.2.after earlier) = l.conclude path revise x := by
  have hfailed : (x.2.after earlier).failed = x.2.failed := rfl
  have hcomments : Source.attachments (x.2.after earlier) revise =
      Source.attachments x.2 revise := rfl
  unfold conclude
  simp only [hfailed, hcomments, Cursor.error?_after]

theorem parseText_after : parseText dialect path text revise (r.after earlier) =
    ((parseText dialect path text revise r).1,
      (parseText dialect path text revise r).2.after earlier) := by
  rw [parseText_eq, parseText_eq, session_after, Language.conclude_after]
  rfl

theorem codes_parseText :
    (parseText dialect path text revise r).2.nonfatal = r.nonfatal := by
  have honward := (made_file dialect).onward
    (Cursor.ofSource (language dialect).options path text r)
  rw [parseText_eq]
  exact honward.codes.trans (Source.Lexer.codes_lex _ path text r)

variable {dialect path text revise r}

theorem parseText_ok {d : Document} (h : (parseText dialect path text revise r).1 = .ok d) :
    d.path = path ∧ d.entry = false := by
  rw [parseText_eq] at h
  simp only [Language.conclude] at h
  split at h
  · cases dialect <;> cases h <;> exact ⟨rfl, rfl⟩
  · cases h

theorem parseText_silent {d : Document} (hr : r.nonfatal = Code.harmless)
    (h : (parseText dialect path text revise r).1 = .ok d) :
    (parseText dialect path text revise r).2 = r := by
  obtain ⟨new, hnew, -, hcases⟩ := parseText_cases dialect path text revise r hr
  have hcodes := codes_parseText dialect path text revise r
  rcases hcases with ⟨rfl, -, -⟩ | ⟨e, es, -, herror⟩
  · rw [List.append_nil] at hnew
    rw [Reporter.eq_after (parseText dialect path text revise r).2, hcodes, hnew,
      ← Reporter.eq_after]
  · rw [h] at herror
    cases herror

end Texts

/-! ## Files -/

section FilesOf

variable (dialect : Dialect) (f : SourceFile) (revise : Bool) (earlier : List Diagnostic)
  (r : Reporter)

theorem parseFile_after : parseFile dialect f revise (r.after earlier) =
    ((parseFile dialect f revise r).1, (parseFile dialect f revise r).2.after earlier) := by
  unfold parseFile
  cases f.body with
  | text s => exact parseText_after dialect f.path s revise earlier r
  | unopened e => rfl
  | interrupted s e =>
      dsimp only
      rw [Source.Lexer.lex_after]

theorem reportOnly_after (d : Diagnostic) : reportOnly d (r.after earlier) =
    ((reportOnly d r).1, (reportOnly d r).2.after earlier) :=
  Prod.ext rfl (Reporter.report_after earlier r d)

/-- What was reported earlier is not read: it only stays in front of the reports. -/
theorem compileFile_after : compileFile f revise (r.after earlier) =
    ((compileFile f revise r).1, (compileFile f revise r).2.after earlier) := by
  unfold compileFile
  dsimp only
  split
  · rw [parseFile_after]
  · rw [parseFile_after]
  · exact reportOnly_after earlier r _
  · split
    · rw [parseText_after]
    · exact reportOnly_after earlier r _

/-- What a file gives depends on the codes of the reporter only. -/
theorem compileFile_codes : (compileFile f revise r).1 =
    (compileFile f revise { nonfatal := r.nonfatal }).1 := by
  rw [Reporter.eq_after r, compileFile_after]
  rfl

theorem codes_parseFile : (parseFile dialect f revise r).2.nonfatal = r.nonfatal := by
  unfold parseFile
  cases f.body with
  | text s => exact codes_parseText dialect f.path s revise r
  | unopened e => rfl
  | interrupted s e => exact Source.Lexer.codes_lex _ f.path s r

theorem codes_compileFile : (compileFile f revise r).2.nonfatal = r.nonfatal := by
  unfold compileFile
  dsimp only
  split
  · exact codes_parseFile .thrift f revise r
  · exact codes_parseFile .protobuf f revise r
  · rfl
  · split
    · exact codes_parseText _ f.path _ revise r
    · rfl

variable {dialect f revise r} {d : Document} {r' : Reporter}

theorem parseFile_eq_ok (h : parseFile dialect f revise r = (.ok d, r')) :
    ∃ s, parseText dialect f.path s revise r = (.ok d, r') := by
  unfold parseFile at h
  cases hbody : f.body with
  | text s => exact ⟨s, by simpa only [hbody] using h⟩
  | unopened e => simp [hbody] at h
  | interrupted s e => simp [hbody] at h

theorem found_eq_some {x : Except Failure Document × Reporter}
    (h : (x.1.map some, x.2) = ((.ok (some d) : Except Failure (Option Document)), r')) :
    x = (.ok d, r') := by
  obtain ⟨parsed, reporter⟩ := x
  cases parsed <;> simp_all [Except.map]

theorem reportOnly_ne_some (e : Diagnostic) : reportOnly e r ≠ (.ok (some d), r') := by
  unfold reportOnly
  split <;> simp

/-- A document comes from a text, read in one of the languages. -/
theorem compileFile_eq_some (h : compileFile f revise r = (.ok (some d), r')) :
    ∃ dialect s, parseText dialect f.path s revise r = (.ok d, r') := by
  unfold compileFile at h
  dsimp only at h
  split at h
  · exact ⟨.thrift, parseFile_eq_ok (found_eq_some h)⟩
  · exact ⟨.protobuf, parseFile_eq_ok (found_eq_some h)⟩
  · exact absurd h (reportOnly_ne_some _)
  · split at h
    · exact ⟨_, _, found_eq_some h⟩
    · exact absurd h (reportOnly_ne_some _)

theorem compileFile_fresh (h : compileFile f revise r = (.ok (some d), r')) :
    d.path = f.path ∧ d.entry = false := by
  obtain ⟨dialect, s, hparse⟩ := compileFile_eq_some h
  exact parseText_ok (congrArg Prod.fst hparse)

/-- With the default codes a document comes without a report. -/
theorem compileFile_silent (hr : r.nonfatal = Code.harmless)
    (h : compileFile f revise r = (.ok (some d), r')) : r' = r := by
  obtain ⟨dialect, s, hparse⟩ := compileFile_eq_some h
  have hsilent := parseText_silent hr (congrArg Prod.fst hparse)
  rwa [hparse] at hsilent

end FilesOf

end Load
end ClientGen
