import Mathlib.Data.List.Destutter
import Mathlib.Data.List.TakeWhile
import ClientGen.Typescript.Format
import ClientGen.Proofs.Text.Lines

/-! # Tidied texts

Tidying works on characters, but what it does can be said of lines: the blanks at their
ends go, then the empty lines at both ends of the text, then every empty line behind
another (`tidy_eq`). So a text keeps its lines that have something in them
(`filledLines_tidy`) and all its characters that leave a mark (`ink_tidy`).
-/

namespace ClientGen
namespace Typescript

open Text

def trimBlanks (l : String) : String := trimEndBy (fun c => c == ' ' || c == '\t') l

/-- Whether two lines may follow each other in a tidied text. -/
def Apart (l m : String) : Prop := ¬ (l = "" ∧ m = "")

instance : DecidableRel Apart := fun l m => inferInstanceAs (Decidable ¬ (l = "" ∧ m = ""))

/-- Lines with their blanks tidied, without empty ones at the ends or in a row. -/
def tidyLines (ls : List String) : List String := (trimEmpty (ls.map trimBlanks)).destutter Apart

/-! ## Runs of breaks -/

theorem squeezeBreaks_append {l : List Char} (h : '\n' ∉ l) (cs : List Char) :
    squeezeBreaks 0 (l ++ cs) = l ++ squeezeBreaks 0 cs := by
  induction l with
  | nil => rfl
  | cons c l ih =>
      obtain ⟨hc, hl⟩ : '\n' ≠ c ∧ '\n' ∉ l := by simpa using h
      rw [List.cons_append, squeezeBreaks, if_neg (fun heq => hc heq.symm), ih hl, List.cons_append]

theorem squeezeBreaks_line {l : String} (hne : l ≠ "") (h : '\n' ∉ l.toList) (run : Nat)
    (cs : List Char) : squeezeBreaks run (l.toList ++ cs) = l.toList ++ squeezeBreaks 0 cs := by
  obtain ⟨c, rest, hchars⟩ := List.exists_cons_of_ne_nil
    (fun hnil => hne (String.toList_eq_nil_iff.mp hnil))
  rw [hchars] at h ⊢
  obtain ⟨hc, hrest⟩ : '\n' ≠ c ∧ '\n' ∉ rest := by simpa using h
  rw [List.cons_append, squeezeBreaks, if_neg (fun heq => hc heq.symm), squeezeBreaks_append hrest,
    List.cons_append]

/-- Behind a line, squeezing breaks drops the empty lines that follow an empty one. -/
theorem squeezeBreaks_behind {ls : List String} (hne : ls ≠ []) (hlast : ls.getLast? ≠ some "")
    (h : ∀ l ∈ ls, '\n' ∉ l.toList) (before : String) :
    before.toList ++ '\n' ::
        squeezeBreaks (if before = "" then 2 else 1) ("\n".intercalate ls).toList =
      ("\n".intercalate (ls.destutter' Apart before)).toList := by
  induction ls generalizing before with
  | nil => exact absurd rfl hne
  | cons l ls ih =>
      have hl := h l List.mem_cons_self
      have hrest : ∀ l' ∈ ls, '\n' ∉ l'.toList := fun l' hl' => h l' (List.mem_cons_of_mem l hl')
      rcases ls with _ | ⟨m, ls⟩
      · have hfull : l ≠ "" := by simpa using hlast
        have hapart : Apart before l := fun h => hfull h.2
        have hsqueezed := squeezeBreaks_line hfull hl (if before = "" then 2 else 1) []
        rw [List.append_nil] at hsqueezed
        rw [List.destutter'_cons_pos _ hapart, List.destutter'_nil, String.intercalate_singleton,
          hsqueezed]
        simp [squeezeBreaks, String.intercalate_cons_cons]
      · have hnext := ih (by simp) (by simpa using hlast) hrest
        rw [String.intercalate_cons_cons, String.toList_append, String.toList_append,
          List.append_assoc]
        by_cases hempty : l = ""
        · subst hempty
          by_cases hbefore : before = ""
          · -- the second empty line in a row goes, with its break
            have hapart : ¬ Apart before "" := fun h => h ⟨hbefore, rfl⟩
            rw [List.destutter'_cons_neg _ hapart, ← hnext before, if_pos hbefore]
            rfl
          · have hapart : Apart before "" := fun h => hbefore h.1
            rw [List.destutter'_cons_pos _ hapart,
              String.intercalate_cons_of_ne_nil (List.destutter'_ne_nil _ _), String.toList_append,
              ← hnext "", if_neg hbefore]
            simp [squeezeBreaks]
        · have hapart : Apart before l := fun h => hempty h.2
          rw [List.destutter'_cons_pos _ hapart,
            String.intercalate_cons_of_ne_nil (List.destutter'_ne_nil _ _), String.toList_append,
            ← hnext l, if_neg hempty, squeezeBreaks_line hempty hl]
          simp [squeezeBreaks]

theorem squeezeBreaks_intercalate {ls : List String} (hends : Bare (· == "") ls)
    (h : ∀ l ∈ ls, '\n' ∉ l.toList) :
    squeezeBreaks 0 ("\n".intercalate ls).toList =
      ("\n".intercalate (ls.destutter Apart)).toList := by
  cases ls with
  | nil => rfl
  | cons l ls =>
      have hfull : l ≠ "" := by simpa using hends.first l rfl
      have hl := h l List.mem_cons_self
      rw [List.destutter_cons']
      rcases ls with _ | ⟨m, ls⟩
      · simpa [squeezeBreaks] using squeezeBreaks_line hfull hl 0 []
      · have hlast : (m :: ls).getLast? ≠ some "" := by simpa using hends.getLast?_ne
        have hrest : ∀ l' ∈ m :: ls, '\n' ∉ l'.toList :=
          fun l' hl' => h l' (List.mem_cons_of_mem l hl')
        rw [← squeezeBreaks_behind (by simp) hlast hrest, String.intercalate_cons_cons,
          String.toList_append, String.toList_append, List.append_assoc,
          squeezeBreaks_line hfull hl, if_neg hfull]
        simp [squeezeBreaks]

/-! ## Tidied lines -/

theorem trimBlanks_trimBlanks (l : String) : trimBlanks (trimBlanks l) = trimBlanks l := by
  have hlast := last_dropTrailing (fun c => c == ' ' || c == '\t') l.toList
  simp only [trimBlanks, trimEndBy, String.toList_ofList, dropTrailing_of_last hlast]

theorem exists_trimBlanks (l : String) :
    ∃ blanks : List Char, l.toList = (trimBlanks l).toList ++ blanks ∧
      ∀ c ∈ blanks, c = ' ' ∨ c = '\t' := by
  obtain ⟨blanks, hchars, hblanks⟩ :=
    exists_dropTrailing (fun c => c == ' ' || c == '\t') l.toList
  exact ⟨blanks, by simpa [trimBlanks, trimEndBy] using hchars, by simpa using hblanks⟩

theorem filter_trimEmpty (ls : List String) :
    (trimEmpty ls).filter (· ≠ "") = ls.filter (· ≠ "") := by
  obtain ⟨before, after, hall, hbefore, hafter⟩ := exists_trimmed (· == "") ls
  have hnone : ∀ empty : List String, (∀ l ∈ empty, (l == "") = true) →
      empty.filter (· ≠ "") = [] := by
    intro empty h
    simpa using h
  have hparts := congrArg (List.filter (· ≠ "")) hall
  rw [List.filter_append, List.filter_append, hnone before hbefore, hnone after hafter,
    List.nil_append, List.append_nil] at hparts
  exact hparts.symm

theorem filter_destutter' (ls : List String) (before : String) :
    (ls.destutter' Apart before).filter (· ≠ "") = (before :: ls).filter (· ≠ "") := by
  induction ls generalizing before with
  | nil => rfl
  | cons l ls ih =>
      by_cases hapart : Apart before l
      · rw [List.destutter'_cons_pos _ hapart]
        simp only [List.filter_cons, ih]
      · obtain ⟨rfl, rfl⟩ := not_not.mp hapart
        rw [List.destutter'_cons_neg _ hapart, ih]
        rfl

theorem filter_destutter (ls : List String) :
    (ls.destutter Apart).filter (· ≠ "") = ls.filter (· ≠ "") := by
  cases ls with
  | nil => rfl
  | cons l ls => exact filter_destutter' ls l

theorem head_destutter' (ls : List String) (before : String) :
    (ls.destutter' Apart before).head? = some before := by
  induction ls generalizing before with
  | nil => rfl
  | cons l ls ih =>
      rw [List.destutter'_cons]
      split
      · rfl
      · exact ih before

theorem last_destutter' {ls : List String} {before : String}
    (h : (before :: ls).getLast? ≠ some "") :
    (ls.destutter' Apart before).getLast? = (before :: ls).getLast? := by
  induction ls generalizing before with
  | nil => rfl
  | cons l ls ih =>
      rw [List.getLast?_cons_cons] at h ⊢
      by_cases hapart : Apart before l
      · rw [List.destutter'_cons_pos _ hapart, ← ih h]
        exact List.getLast?_cons_of_ne_nil (List.destutter'_ne_nil _ _)
      · obtain ⟨rfl, rfl⟩ := not_not.mp hapart
        rw [List.destutter'_cons_neg _ hapart, ih h]

theorem bare_destutter {ls : List String} (h : Bare (· == "") ls) :
    Bare (· == "") (ls.destutter Apart) := by
  cases ls with
  | nil => exact h
  | cons l ls =>
      rw [List.destutter_cons']
      constructor
      · rw [head_destutter']
        exact h.first
      · rw [last_destutter' h.getLast?_ne]
        exact h.last

/-- Lines that tidying leaves alone. -/
structure TidyLines (ls : List String) : Prop where
  whole : ∀ l ∈ ls, '\n' ∉ l.toList
  trimmed : ∀ l ∈ ls, trimBlanks l = l
  ends : Bare (· == "") ls
  apart : ls.IsChain Apart

theorem TidyLines.tidyLines_eq {ls : List String} (h : TidyLines ls) : tidyLines ls = ls := by
  have hmap : ls.map trimBlanks = ls := (List.map_congr_left h.trimmed).trans (List.map_id ls)
  rw [tidyLines, hmap, trimEmpty, h.ends.trimmed_eq, List.destutter_of_isChain _ _ h.apart]

theorem not_mem_trimBlanks {l : String} (h : '\n' ∉ l.toList) : '\n' ∉ (trimBlanks l).toList := by
  obtain ⟨blanks, hchars, -⟩ := exists_trimBlanks l
  rw [hchars] at h
  exact fun hmem => h (List.mem_append_left _ hmem)

theorem mem_of_mem_tidyLines {ls : List String} {l : String} (h : l ∈ tidyLines ls) :
    ∃ raw ∈ ls, trimBlanks raw = l :=
  List.mem_map.mp (mem_of_mem_trimEmpty ((List.destutter_sublist _ _).subset h))

theorem tidyLines_tidyLines {ls : List String} (h : ∀ l ∈ ls, '\n' ∉ l.toList) :
    TidyLines (tidyLines ls) where
  whole := by
    intro l hl
    obtain ⟨raw, hraw, rfl⟩ := mem_of_mem_tidyLines hl
    exact not_mem_trimBlanks (h raw hraw)
  trimmed := by
    intro l hl
    obtain ⟨raw, -, rfl⟩ := mem_of_mem_tidyLines hl
    exact trimBlanks_trimBlanks raw
  ends := bare_destutter (bare_trimmed _ _)
  apart := List.isChain_destutter _ _

theorem filter_tidyLines (ls : List String) :
    (tidyLines ls).filter (· ≠ "") = (ls.map trimBlanks).filter (· ≠ "") := by
  rw [tidyLines, filter_destutter, filter_trimEmpty]

/-- A tidied text is its tidied lines. -/
theorem tidy_eq (content : String) :
    tidy content = "\n".intercalate (tidyLines (textLines content)) := by
  have hwhole : ∀ l ∈ (textLines content).map trimBlanks, '\n' ∉ l.toList := by
    intro l hl
    obtain ⟨raw, hraw, rfl⟩ := List.mem_map.mp hl
    exact not_mem_trimBlanks (whole_textLines content raw hraw)
  have hbody : tidy content = String.ofList (squeezeBreaks 0
      (trimBy (· == '\n') ("\n".intercalate ((textLines content).map trimBlanks))).toList) := rfl
  rw [hbody, trimBy_intercalate hwhole, squeezeBreaks_intercalate, String.ofList_toList, tidyLines]
  · exact bare_trimmed _ _
  · exact fun l hl => hwhole l (mem_of_mem_trimEmpty hl)

/-! ## Lines with something in them -/

def filledLines (s : String) : List String := (split s "\n").filter (· ≠ "")

theorem filledLines_empty : filledLines "" = [] := by decide

theorem filledLines_append (s t : String) :
    filledLines (s ++ "\n" ++ t) = filledLines s ++ filledLines t := by
  rw [filledLines, split_append rfl, List.filter_append]
  rfl

theorem filledLines_intercalate {ls : List String} (h : ∀ l ∈ ls, '\n' ∉ l.toList) :
    filledLines ("\n".intercalate ls) = ls.filter (· ≠ "") := by
  by_cases hls : ls = []
  · subst hls
    decide
  · rw [filledLines, split_intercalate rfl hls h]

theorem filledLines_tidy (content : String) :
    filledLines (tidy content) = ((textLines content).map trimBlanks).filter (· ≠ "") := by
  rw [tidy_eq, filledLines_intercalate (tidyLines_tidyLines (whole_textLines content)).whole,
    filter_tidyLines]

/-! ## Characters that show -/

/-- Whether a character leaves a mark of its own. -/
def isInk (c : Char) : Bool := !(c == ' ' || c == '\t' || c == '\n' || c == '\r')

/-- The characters of a text that leave a mark. -/
def ink (s : String) : List Char := s.toList.filter isInk

theorem ink_append (s t : String) : ink (s ++ t) = ink s ++ ink t := by
  simp [ink]

theorem ink_intercalate (ls : List String) : ink ("\n".intercalate ls) = ls.flatMap ink := by
  induction ls with
  | nil => rfl
  | cons l ls ih =>
      by_cases hls : ls = []
      · simp [hls]
      · have hbreak : ink "\n" = [] := rfl
        rw [String.intercalate_cons_of_ne_nil hls, ink_append, ink_append, ih, hbreak,
          List.append_nil, List.flatMap_cons]

theorem ink_trimBlanks (l : String) : ink (trimBlanks l) = ink l := by
  obtain ⟨blanks, hchars, hblanks⟩ := exists_trimBlanks l
  have hnone : blanks.filter isInk = [] := by
    rw [List.filter_eq_nil_iff]
    intro c hc
    rcases hblanks c hc with rfl | rfl <;> decide
  rw [ink, ink, hchars, List.filter_append, hnone, List.append_nil]

theorem filter_joinReturns (cs : List Char) : (joinReturns cs).filter isInk = cs.filter isInk := by
  fun_induction joinReturns cs with
  | case1 cs ih =>
      have hreturn : isInk '\r' = false := by decide
      simp [List.filter_cons, hreturn, ih]
  | case2 c cs _ ih => simp only [List.filter_cons, ih]
  | case3 => rfl

theorem flatMap_filter_filled {β : Type} {f : String → List β} (hf : f "" = []) (ls : List String) :
    (ls.filter (· ≠ "")).flatMap f = ls.flatMap f := by
  induction ls with
  | nil => rfl
  | cons l ls ih =>
      by_cases hl : l = ""
      · subst hl
        rw [List.filter_cons_of_neg (by simp), ih, List.flatMap_cons, hf, List.nil_append]
      · rw [List.filter_cons_of_pos (by simpa using hl), List.flatMap_cons, ih, List.flatMap_cons]

/-- Tidying takes only characters that leave no mark. -/
theorem ink_tidy (content : String) : ink (tidy content) = ink content := by
  have hnone : ink "" = [] := rfl
  calc ink (tidy content)
      = (tidyLines (textLines content)).flatMap ink := by rw [tidy_eq, ink_intercalate]
    _ = ((textLines content).map trimBlanks).flatMap ink := by
        rw [← flatMap_filter_filled hnone, filter_tidyLines, flatMap_filter_filled hnone]
    _ = (textLines content).flatMap ink := by
        rw [List.flatMap_map]
        simp only [ink_trimBlanks]
    _ = ink (replace content "\r\n" "\n") := by
        rw [← ink_intercalate, textLines, intercalate_split rfl]
    _ = ink content := by rw [ink, toList_replace_crlf, filter_joinReturns, ink]

end Typescript
end ClientGen
