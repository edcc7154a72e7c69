import ClientGen.Proofs.Files.Path
import ClientGen.Typescript.Doc
import Mathlib.Data.List.Chain

/-! # Closed documentation blocks

What a comment says is put into a documentation block line by line, with a backslash between
a star and a slash behind it. No slash follows a star in a row that comes out of this
(`unclosed_docRow`), so the block ends with its last line and not before.
-/

namespace ClientGen
namespace Typescript

/-! ## Text that does not end a block -/

/-- No slash follows a star. -/
def Unclosed (cs : List Char) : Prop := cs.IsChain fun a b => a = '*' → b ≠ '/'

section Unclosed

variable {as bs cs field : List Char}

theorem Unclosed.ne (h : Unclosed cs) (before after : List Char) :
    cs ≠ before ++ '*' :: '/' :: after := by
  rintro rfl
  exact (List.isChain_append_cons_cons.mp h).2.1 rfl rfl

theorem unclosed_of_not_mem (h : '*' ∉ cs) : Unclosed cs := by
  refine List.isChain_iff_forall_rel_of_append_cons_cons.mpr ?_
  rintro a b before after rfl rfl
  exact absurd (by simp) h

/-- Only a slash must not come next. -/
theorem Unclosed.append_cons {c : Char} (ha : Unclosed as) (hc : c ≠ '/') (hb : Unclosed (c :: bs)) :
    Unclosed (as ++ c :: bs) := by
  refine ha.append hb fun x _ y hy _ => ?_
  obtain rfl : c = y := by simpa using hy
  exact hc

theorem Unclosed.cons {c : Char} (hc : c ≠ '*') (h : Unclosed cs) : Unclosed (c :: cs) :=
  List.IsChain.cons h fun _ _ hstar => absurd hstar hc

theorem Unclosed.star_cons {c : Char} (hc : c ≠ '/') (h : Unclosed (c :: cs)) :
    Unclosed ('*' :: c :: cs) :=
  .cons_cons (fun _ => hc) h

theorem unclosed_star : Unclosed ['*'] := .singleton _

theorem Unclosed.append_break (ha : Unclosed as) (hb : Unclosed bs) : Unclosed (as ++ '\n' :: bs) :=
  ha.append_cons (by decide) (hb.cons (by decide))

/-- Where each slash behind a star is set apart from it, none is left. `field` holds what was
read since the last one. -/
theorem unclosed_escaped (skip : Nat) (hskip : skip = 0 ∨ field = [])
    (hfield : Unclosed field.reverse)
    (hnext : skip = 0 → field.head? = some '*' → cs.head? ≠ some '/') :
    Unclosed (['*', '\\', '/'].intercalate (Text.splitAux ['*', '/'] skip field cs)) := by
  induction cs generalizing skip field with
  | nil => simpa [Text.splitAux] using hfield
  | cons c cs ih =>
      cases skip with
      | succ skip =>
          obtain rfl := hskip.resolve_left (Nat.succ_ne_zero skip)
          exact ih skip (.inr rfl) hfield (by simp)
      | zero =>
          rw [Text.splitAux]
          split
          · have hrest : Unclosed (['*', '\\', '/'].intercalate
                (Text.splitAux ['*', '/'] 1 [] cs)) := ih 1 (.inr rfl) .nil (by simp)
            cases hfields : Text.splitAux ['*', '/'] 1 [] cs with
            | nil => simpa [hfields] using hfield
            | cons next fields =>
                rw [hfields] at hrest
                have hescape := ((hrest.cons (c := '/') (by decide)).cons
                  (c := '\\') (by decide)).star_cons (by decide)
                simpa [hfields] using hfield.append_cons (by decide) hescape
          · rename_i hclosing
            have hc : field.head? = some '*' → c ≠ '/' := by simpa using hnext rfl
            have hlong : Unclosed (c :: field).reverse := by
              rw [List.reverse_cons]
              refine hfield.append (.singleton c) fun x hx y hy hstar => ?_
              obtain rfl : c = y := by simpa using hy
              exact hc (by simpa [hstar] using hx)
            refine ih 0 (.inl rfl) hlong fun _ hstar hslash => hclosing ?_
            obtain rfl : c = '*' := by simpa using hstar
            obtain ⟨rest, rfl⟩ := List.head?_eq_some_iff.mp hslash
            simp

/-- The only end of a block is found where the text before it has none. -/
theorem eq_of_unclosed {body before after : List Char} (hbody : Unclosed (body ++ ['*']))
    (h : body ++ ['*', '/', '\n'] = before ++ '*' :: '/' :: after) :
    before = body ∧ after = ['\n'] := by
  rcases List.eq_nil_or_concat after with rfl | ⟨after, x, rfl⟩
  · have hlast := congrArg List.getLast? h
    simp at hlast
  · have hsplit : (body ++ ['*', '/']) ++ ['\n'] = (before ++ '*' :: '/' :: after) ++ [x] := by
      simpa using h
    obtain ⟨hfront, hx⟩ := List.append_inj' hsplit rfl
    obtain rfl := List.singleton_inj.mp hx
    rcases List.eq_nil_or_concat after with rfl | ⟨after, y, rfl⟩
    · exact ⟨(List.append_inj' hfront rfl).1.symm, rfl⟩
    · have hsplit : (body ++ ['*']) ++ ['/'] = (before ++ '*' :: '/' :: after) ++ [y] := by
        simpa using hfront
      exact absurd (List.append_inj' hsplit rfl).1 (hbody.ne before after)

end Unclosed

/-! ## Blocks -/

section Blocks

variable {indent : String} {rows : List String}

/-- One line of a block, without its line break. -/
def docRow (indent l : String) : String :=
  if l = "" then indent ++ " *" else indent ++ " * " ++ Text.replace l "*/" "*\\/"

/-- Lines, each with its line break. -/
def broken (rows : List String) : String := String.join (rows.map (· ++ "\n"))

theorem doc_eq {lines : List String} (hlines : lines ≠ []) : doc indent lines =
    broken ((indent ++ "/**") :: lines.map (docRow indent)) ++ (indent ++ " */\n") := by
  have hline : ∀ l, docLine indent l = docRow indent l ++ "\n" := by
    intro l
    unfold docLine docRow
    split
    · simp [String.append_assoc]
    · rfl
  have hrows : lines.map (docLine indent) = (lines.map (docRow indent)).map (· ++ "\n") := by
    simp [hline, Function.comp_def]
  rw [doc, if_neg (by simpa using hlines), hrows]
  simp [broken, String.append_assoc]

theorem unclosed_docRow (hindent : '*' ∉ indent.toList) (l : String) :
    Unclosed (docRow indent l).toList := by
  have hstart : Unclosed (indent.toList ++ [' ']) := unclosed_of_not_mem (by simpa using hindent)
  unfold docRow
  split
  · simpa using hstart.append_cons (by decide) unclosed_star
  · have htext : Unclosed (Text.replace l "*/" "*\\/").toList := by
      have hescaped : Unclosed (['*', '\\', '/'].intercalate
          (Text.splitAux ['*', '/'] 0 [] l.toList)) := unclosed_escaped 0 (.inl rfl) .nil (by simp)
      rw [Text.replace, Text.split, Text.toList_intercalate_ofList]
      exact hescaped
    have hline := (htext.cons (c := ' ') (by decide)).star_cons (by decide)
    simpa using hstart.append_cons (by decide) hline

theorem unclosed_broken (hrows : ∀ row ∈ rows, Unclosed row.toList) {last : List Char}
    (hlast : Unclosed last) : Unclosed ((broken rows).toList ++ last) := by
  induction rows with
  | nil => simpa [broken] using hlast
  | cons row rows ih =>
      obtain ⟨hrow, hrows⟩ := List.forall_mem_cons.mp hrows
      simpa [broken] using hrow.append_break (ih hrows)

theorem endsWith_broken (row : String) (rows : List String) :
    Text.endsWith (broken (row :: rows)) "\n" = true := by
  rw [Text.endsWith_iff]
  rcases List.eq_nil_or_concat rows with rfl | ⟨rows, last, rfl⟩
  · exact ⟨row.toList, by simp [broken]⟩
  · exact ⟨row.toList ++ '\n' :: ((broken rows).toList ++ last.toList), by simp [broken]⟩

end Blocks

/-- A documentation block is closed once. Behind an indentation without stars, blanks say, and
for any lines, whatever they hold, the text of a block is some whole lines and a last one that
ends with the characters that close a comment; nowhere else in the text are they found. -/
theorem doc_closes_once {indent : String} (hindent : '*' ∉ indent.toList) {lines : List String}
    (hlines : lines ≠ []) :
    ∃ body, doc indent lines = body ++ (indent ++ " */\n") ∧ Text.endsWith body "\n" = true ∧
      ∀ before after, doc indent lines = before ++ "*/" ++ after →
        before = body ++ indent ++ " " ∧ after = "\n" := by
  have hfirst : Unclosed (indent ++ "/**").toList := by
    have hstart : Unclosed (indent.toList ++ ['/']) := unclosed_of_not_mem (by simpa using hindent)
    simpa using hstart.append_cons (by decide) (unclosed_star.star_cons (by decide))
  have hrows : ∀ row ∈ (indent ++ "/**") :: lines.map (docRow indent), Unclosed row.toList := by
    refine List.forall_mem_cons.mpr ⟨hfirst, fun row hrow => ?_⟩
    obtain ⟨l, -, rfl⟩ := List.mem_map.mp hrow
    exact unclosed_docRow hindent l
  have hlast : Unclosed (indent.toList ++ [' ', '*']) := by
    have hstart : Unclosed (indent.toList ++ [' ']) := unclosed_of_not_mem (by simpa using hindent)
    simpa using hstart.append_cons (by decide) unclosed_star
  refine ⟨_, doc_eq hlines, endsWith_broken _ _, fun before after h => ?_⟩
  have hbody := unclosed_broken hrows hlast
  have hchars := congrArg String.toList ((doc_eq hlines).symm.trans h)
  have hsplit : (broken ((indent ++ "/**") :: lines.map (docRow indent))).toList ++
      indent.toList ++ [' '] ++ ['*', '/', '\n'] =
        before.toList ++ '*' :: '/' :: after.toList := by simpa using hchars
  obtain ⟨hbefore, hafter⟩ := eq_of_unclosed (by simpa using hbody) hsplit
  constructor
  · apply String.toList_injective
    simpa using hbefore
  · apply String.toList_injective
    simpa using hafter

/-- Lines that try to close their comment, also across a line break and with what is put
between them. -/
def closingLines : List String := ["*/ code", "**//", "", "*", "/ *\n/*/"]

theorem doc_closes_once_closingLines :
    '*' ∉ "  ".toList ∧ closingLines ≠ [] ∧
      ∃ body, doc "  " closingLines = body ++ "   */\n" ∧
        body = "  /**\n   * *\\/ code\n   * **\\//\n   *\n   * *\n   * / *\n/*\\/\n" ∧
        ∀ before after, doc "  " closingLines = before ++ "*/" ++ after →
          before = body ++ "   " ∧ after = "\n" := by
  have hindent : '*' ∉ "  ".toList := by decide
  have hlines : closingLines ≠ [] := by decide
  obtain ⟨body, hdoc, -, honce⟩ := doc_closes_once hindent hlines
  refine ⟨hindent, hlines, body, hdoc, ?_, fun before after h => ?_⟩
  · have htext : doc "  " closingLines = "  /**\n   * *\\/ code\n   * **\\//\n   *\n   * *\n" ++
        "   * / *\n/*\\/\n" ++ "   */\n" := by
      decide +kernel
    have hchars := congrArg String.toList (hdoc.symm.trans htext)
    simp only [String.toList_append] at hchars
    apply String.toList_injective
    exact List.append_cancel_right hchars
  · obtain ⟨hbefore, hafter⟩ := honce before after h
    exact ⟨hbefore.trans (String.append_assoc ..), hafter⟩

end Typescript
end ClientGen
