import ClientGen.Plugin.Rewriting
import ClientGen.Proofs.Text.Lines

/-! # Cleaned comments

Cleaning takes the blanks around a line and one gutter of stars in front of it. What
was behind the gutter may be another one, so a comment is clean after one pass exactly
if no line has a second gutter (`Comment.clean_clean_iff`). Everything else that is
taken stays away: a cleaned line has no blanks around it, a cleaned text no empty lines
around it and no carriage return in front of a line break.
-/

namespace ClientGen

open Text

/-! ## Lines -/

/-- A line with a gutter behind its gutter: after any blanks some stars, then blanks,
then a star. -/
def DoubleGutter (l : String) : Prop :=
  ∃ before stars blanks rest : List Char, l.toList = before ++ stars ++ blanks ++ '*' :: rest ∧
    (∀ c ∈ before, isSpace c = true) ∧ (stars ≠ [] ∧ ∀ c ∈ stars, c = '*') ∧
    blanks ≠ [] ∧ ∀ c ∈ blanks, isSpace c = true

theorem toList_cleanLine (l : String) :
    (cleanLine l).toList = dropTrailing isSpace
      (((trim l).toList.dropWhile (· == '*')).dropWhile isSpace) := by
  simp [cleanLine, toList_trim, trimStartBy]

theorem bare_cleanLine (l : String) : Bare isSpace (cleanLine l).toList := by
  rw [toList_cleanLine]
  exact bare_trimmed isSpace _

theorem mem_of_mem_cleanLine {l : String} {c : Char} (h : c ∈ (cleanLine l).toList) :
    c ∈ l.toList := by
  rw [toList_cleanLine] at h
  obtain ⟨before, after, hinner, -⟩ :=
    exists_trimmed isSpace ((trim l).toList.dropWhile (· == '*'))
  have hstars : c ∈ (trim l).toList := by
    apply (List.dropWhile_suffix (· == '*')).subset
    rw [hinner]
    simp [h]
  rw [toList_trim] at hstars
  obtain ⟨before, after, houter, -⟩ := exists_trimmed isSpace l.toList
  rw [houter]
  simp [hstars]

/-- A cleaned line stays as it is unless it starts with a star. -/
theorem cleanLine_cleanLine_iff (l : String) :
    cleanLine (cleanLine l) = cleanLine l ↔ (cleanLine l).toList.head? ≠ some '*' := by
  have hbare := bare_cleanLine l
  have htrim : (trim (cleanLine l)).toList = (cleanLine l).toList := by
    rw [toList_trim, hbare.trimmed_eq]
  rw [← String.toList_inj, toList_cleanLine (cleanLine l), htrim]
  constructor
  · intro heq hstar
    obtain ⟨before, after, hinner, -⟩ :=
      exists_trimmed isSpace ((cleanLine l).toList.dropWhile (· == '*'))
    rw [heq] at hinner
    -- a star is taken, so what is left cannot be as long
    obtain ⟨rest, hrest⟩ := List.head?_eq_some_iff.mp hstar
    have hlength := congrArg List.length hinner
    have hshorter := (List.dropWhile_suffix (p := (· == '*')) (l := rest)).length_le
    rw [hrest, List.dropWhile_cons_of_pos (by simp)] at hlength
    simp only [List.length_append, List.length_cons] at hlength
    omega
  · intro hstar
    have hkept : (cleanLine l).toList.dropWhile (· == '*') = (cleanLine l).toList := by
      apply dropWhile_of_head
      intro c hc
      rw [beq_eq_false_iff_ne]
      rintro rfl
      exact hstar hc
    rw [hkept, hbare.trimmed_eq]

/-- A line of which a star is left has a second gutter. -/
theorem doubleGutter_of_head {l : String} (hstar : (cleanLine l).toList.head? = some '*') :
    DoubleGutter l := by
  obtain ⟨before, after, houter, hbefore, -⟩ := exists_trimmed isSpace l.toList
  rw [← toList_trim] at houter
  obtain ⟨blanks, after', hinner, hblanks, -⟩ :=
    exists_trimmed isSpace ((trim l).toList.dropWhile (· == '*'))
  rw [← toList_cleanLine] at hinner
  have hparts : (trim l).toList = (trim l).toList.takeWhile (· == '*') ++
      (blanks ++ (cleanLine l).toList ++ after') := by
    rw [← hinner, List.takeWhile_append_dropWhile]
  obtain ⟨rest, hrest⟩ := List.head?_eq_some_iff.mp hstar
  -- behind the first gutter no star stands, so there are blanks before the second one
  have hgap : blanks ≠ [] := by
    rintro rfl
    have hhead := head_dropWhile (p := (· == '*')) (trim l).toList '*'
    rw [hinner, hrest] at hhead
    simp at hhead
  -- and a trimmed line does not start with those blanks
  have hgutter : (trim l).toList.takeWhile (· == '*') ≠ [] := by
    intro hnone
    rw [hnone, List.nil_append] at hparts
    obtain ⟨blank, more, rfl⟩ := List.exists_cons_of_ne_nil hgap
    have hbare := bare_trimmed isSpace l.toList
    rw [← toList_trim, hparts] at hbare
    have hfirst := hbare.first blank rfl
    rw [hblanks blank List.mem_cons_self] at hfirst
    cases hfirst
  refine ⟨before, (trim l).toList.takeWhile (· == '*'), blanks, rest ++ after' ++ after, ?_,
    hbefore, ⟨hgutter, ?_⟩, hgap, hblanks⟩
  · rw [hrest] at hparts
    have hwhole := congrArg (fun inner => before ++ inner ++ after) hparts
    simpa [← houter] using hwhole
  · intro c hc
    exact eq_of_beq (List.all_eq_true.mp List.all_takeWhile c hc)

/-- Of a line with a second gutter a star is left. -/
theorem DoubleGutter.head_cleanLine {l : String} (h : DoubleGutter l) :
    (cleanLine l).toList.head? = some '*' := by
  obtain ⟨before, stars, blanks, rest, hl, hbefore, ⟨hgutter, hstars⟩, hgap, hblanks⟩ := h
  have hblank : isSpace '*' = false := by decide
  obtain ⟨star, more, rfl⟩ := List.exists_cons_of_ne_nil hgutter
  obtain ⟨blank, gap, rfl⟩ := List.exists_cons_of_ne_nil hgap
  obtain rfl := hstars star List.mem_cons_self
  have htrim : (trim l).toList =
      ('*' :: more) ++ (blank :: gap) ++ '*' :: dropTrailing isSpace rest := by
    have hdrop : l.toList.dropWhile isSpace =
        ('*' :: more ++ (blank :: gap)) ++ '*' :: rest := by
      have hcons : l.toList = before ++ '*' :: (more ++ blank :: gap ++ '*' :: rest) := by
        simp [hl]
      rw [hcons, dropWhile_append_cons hbefore hblank]
      simp
    rw [toList_trim, hdrop, dropTrailing_append_cons hblank]
  have hne : ((· == '*') : Char → Bool) blank = false := by
    rw [beq_eq_false_iff_ne]
    rintro rfl
    have hspace := hblanks '*' List.mem_cons_self
    rw [hblank] at hspace
    cases hspace
  have hbehind : (trim l).toList.dropWhile (· == '*') =
      (blank :: gap) ++ '*' :: dropTrailing isSpace rest := by
    rw [htrim, List.append_assoc]
    exact dropWhile_append_cons (fun c hc => by simp [hstars c hc]) hne
  rw [toList_cleanLine, hbehind, dropWhile_append_cons hblanks hblank]
  exact congrArg List.head? (dropTrailing_append_cons hblank [] _)

theorem head_cleanLine_iff (l : String) :
    (cleanLine l).toList.head? = some '*' ↔ DoubleGutter l :=
  ⟨doubleGutter_of_head, DoubleGutter.head_cleanLine⟩

/-! ## Texts -/

/-- Lines that cleaning can give: each without blanks around it and without a line
break in it, and none that is empty at either end. -/
structure CleanLines (ls : List String) : Prop where
  bare : ∀ l ∈ ls, Bare isSpace l.toList
  whole : ∀ l ∈ ls, '\n' ∉ l.toList
  ends : Bare (· == "") ls

theorem cleanLines_trimEmpty {ls : List String} (hwhole : ∀ l ∈ ls, '\n' ∉ l.toList) :
    CleanLines (trimEmpty (ls.map cleanLine)) := by
  have hmem : ∀ l ∈ trimEmpty (ls.map cleanLine), ∃ raw ∈ ls, cleanLine raw = l := by
    intro l hl
    exact List.mem_map.mp (mem_of_mem_trimEmpty hl)
  refine ⟨?_, ?_, bare_trimmed _ _⟩
  · intro l hl
    obtain ⟨raw, -, rfl⟩ := hmem l hl
    exact bare_cleanLine raw
  · intro l hl hbreak
    obtain ⟨raw, hraw, rfl⟩ := hmem l hl
    exact hwhole raw hraw (mem_of_mem_cleanLine hbreak)

namespace CleanLines

variable {ls ms : List String}

theorem textLines_intercalate (h : CleanLines ls) :
    textLines ("\n".intercalate ls) = if ls = [] then [""] else ls := by
  split
  · rename_i hnil
    subst hnil
    decide
  · rename_i hne
    obtain ⟨before, last, rfl⟩ := (List.eq_nil_or_concat' ls).resolve_left hne
    have hwhole : ∀ l ∈ before, '\n' ∉ l.toList := fun l hl => h.whole l (by simp [hl])
    -- a line without blanks at its end has no return there
    have hkept : ∀ l ∈ before, dropReturn l = l := by
      intro l hl
      rw [dropReturn_eq_iff]
      intro hlast
      exact absurd ((h.bare l (by simp [hl])).last '\r' hlast) (by decide)
    rw [textLines_joined hwhole (h.whole last (by simp)), List.map_congr_left hkept, List.map_id']

/-- Clean lines can be read off their text. -/
theorem trimEmpty_textLines (h : CleanLines ls) :
    trimEmpty (textLines ("\n".intercalate ls)) = ls := by
  rw [h.textLines_intercalate]
  split
  · rename_i hnil
    subst hnil
    decide
  · exact h.ends.trimmed_eq

theorem intercalate_inj (h : CleanLines ls) (h' : CleanLines ms) :
    "\n".intercalate ls = "\n".intercalate ms ↔ ls = ms := by
  refine ⟨fun heq => ?_, fun heq => heq ▸ rfl⟩
  rw [← h.trimEmpty_textLines, heq, h'.trimEmpty_textLines]

theorem cleanText_intercalate (h : CleanLines ls) :
    cleanText ("\n".intercalate ls) = "\n".intercalate (trimEmpty (ls.map cleanLine)) := by
  have hlines : cleanText ("\n".intercalate ls) =
      "\n".intercalate (trimEmpty ((textLines ("\n".intercalate ls)).map cleanLine)) := rfl
  rw [hlines, h.textLines_intercalate]
  split
  · rename_i hnil
    subst hnil
    decide
  · rfl

/-- Cleaning clean lines changes nothing if it changes no line: lines can only get lost
at the ends, and then some are missing. -/
theorem trimEmpty_map_cleanLine_iff (h : CleanLines ls) :
    trimEmpty (ls.map cleanLine) = ls ↔ ∀ l ∈ ls, cleanLine l = l := by
  constructor
  · intro heq
    obtain ⟨before, after, hall, -⟩ := exists_trimmed (· == "") (ls.map cleanLine)
    change ls.map cleanLine = before ++ trimEmpty (ls.map cleanLine) ++ after at hall
    rw [heq] at hall
    have hlength := congrArg List.length hall
    simp only [List.length_map, List.length_append] at hlength
    obtain rfl : before = [] := List.eq_nil_of_length_eq_zero (by omega)
    obtain rfl : after = [] := List.eq_nil_of_length_eq_zero (by omega)
    rw [List.nil_append, List.append_nil] at hall
    exact List.map_inj_left.mp (hall.trans (List.map_id ls).symm)
  · intro hsame
    have hmap : ls.map cleanLine = ls := (List.map_congr_left hsame).trans (List.map_id ls)
    rw [hmap]
    exact h.ends.trimmed_eq

end CleanLines

theorem cleanText_cleanText_iff (text : String) :
    cleanText (cleanText text) = cleanText text ↔ ∀ l ∈ textLines text, ¬ DoubleGutter l := by
  have hclean := cleanLines_trimEmpty (whole_textLines text)
  have hagain := cleanLines_trimEmpty hclean.whole
  have htext : cleanText text = "\n".intercalate (trimEmpty ((textLines text).map cleanLine)) := rfl
  rw [htext, hclean.cleanText_intercalate, hagain.intercalate_inj hclean,
    hclean.trimEmpty_map_cleanLine_iff]
  obtain ⟨before, after, hall, hbefore, hafter⟩ :=
    exists_trimmed (· == "") ((textLines text).map cleanLine)
  change _ = before ++ trimEmpty ((textLines text).map cleanLine) ++ after at hall
  constructor
  · intro hsame raw hraw hdouble
    have hstar := hdouble.head_cleanLine
    have hmem : cleanLine raw ∈ before ++ trimEmpty ((textLines text).map cleanLine) ++ after :=
      hall ▸ List.mem_map_of_mem hraw
    have hempty : ¬ (cleanLine raw == "") = true := by
      intro heq
      rw [eq_of_beq heq] at hstar
      cases hstar
    rcases List.mem_append.mp hmem with hmem | hmem
    · rcases List.mem_append.mp hmem with hmem | hmem
      · exact hempty (hbefore _ hmem)
      · exact (cleanLine_cleanLine_iff raw).mp (hsame _ hmem) hstar
    · exact hempty (hafter _ hmem)
  · intro hsingle l hl
    have hmem : l ∈ (textLines text).map cleanLine := by
      rw [hall]
      simp [hl]
    obtain ⟨raw, hraw, rfl⟩ := List.mem_map.mp hmem
    rw [cleanLine_cleanLine_iff, Ne, head_cleanLine_iff]
    exact hsingle raw hraw

/-! ## Comments -/

namespace Comment

def texts (c : Comment) : List String := if c.values.isEmpty then [c.value] else c.values

/-- When a clean comment is left alone. For every comment, whatever its form and texts,
a second cleaning changes nothing if and only if no line of its texts has a gutter behind
its gutter. -/
theorem clean_clean_iff (c : Comment) :
    c.clean.clean = c.clean ↔ ∀ text ∈ c.texts, ∀ l ∈ textLines text, ¬ DoubleGutter l := by
  obtain ⟨form, value, values⟩ := c
  cases values with
  | nil =>
      have htexts : texts ⟨form, value, []⟩ = [value] := rfl
      simp [htexts, clean, cleanText_cleanText_iff]
  | cons v vs =>
      have htexts : texts ⟨form, value, v :: vs⟩ = v :: vs := rfl
      simp only [htexts, ← cleanText_cleanText_iff]
      simp [clean]

/-- A line with two gutters loses one in each pass. -/
theorem clean_twoGutters :
    let c : Comment := { form := .block, value := "* * x" }
    c.clean = { form := .block, value := "* x" } ∧
      c.clean.clean = { form := .block, value := "x" } := by
  decide

end Comment
end ClientGen
