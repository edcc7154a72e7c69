import Mathlib.Algebra.Order.BigOperators.Group.List
import Mathlib.Algebra.Order.Ring.Nat
import ClientGen.Proofs.Typescript.Tidying

/-! # Formatted files

A formatted file holds the lines of its banner, if it gets one, and then those of its text,
as far as there is something in them (`filledLines_format`). Formatting it again changes
nothing unless a return stands in front of the blanks at the end of a line, where the first
pass brings it to the end and the second takes it away, or the banner is alone in the file
and the empty lines below it end the text (`format_format`).
-/

namespace ClientGen
namespace Typescript

open Text

/-! ## Files -/

/-- Whether a file gets the banner: it is a script, there is a banner, and the tidied text
does not start with the tidied banner already. -/
def Headed (filename content banner : String) : Prop :=
  endsWith filename ".ts" = true ∧ banner ≠ "" ∧ startsWith (tidy content) (tidy banner) = false

instance (filename content banner : String) : Decidable (Headed filename content banner) :=
  inferInstanceAs (Decidable (_ ∧ _ ∧ _))

/-- The text of a file without the break at its end. -/
def body (filename content banner : String) : String :=
  if Headed filename content banner then tidy banner ++ "\n\n" ++ tidy content else tidy content

/-- A text with a break at its end, unless it is empty. -/
def ended (text : String) : String := if text = "" then "" else text ++ "\n"

theorem ended_ne {text : String} (h : text ≠ "") : ended text = text ++ "\n" := if_neg h

theorem ended_inj {s t : String} : ended s = ended t ↔ s = t := by
  refine ⟨fun h => ?_, fun h => h ▸ rfl⟩
  by_cases hs : s = ""
  · by_cases ht : t = ""
    · rw [hs, ht]
    · rw [hs, ended_ne ht] at h
      exact absurd (congrArg String.toList h) (by simp [ended])
  · by_cases ht : t = ""
    · rw [ht, ended_ne hs] at h
      exact absurd (congrArg String.toList h) (by simp [ended])
    · rw [ended_ne hs, ended_ne ht] at h
      apply String.toList_injective
      simpa using congrArg String.toList h

theorem filledLines_ended (text : String) : filledLines (ended text) = filledLines text := by
  unfold ended
  split
  · rename_i hempty
    rw [hempty]
  · have happend := filledLines_append text ""
    rwa [filledLines_empty, List.append_nil, String.append_empty] at happend

theorem ink_ended (text : String) : ink (ended text) = ink text := by
  unfold ended
  split
  · rename_i hempty
    rw [hempty]
  · rw [ink_append]
    exact List.append_nil _

theorem ext_eq_ts_iff (filename : String) :
    Path.ext filename = ".ts" ↔ endsWith filename ".ts" = true :=
  Path.ext_eq_iff (e := "ts") (by decide) (by decide)

theorem format_eq (filename content banner : String) :
    format filename content banner = ended (body filename content banner) := by
  have hbody : (if banner ≠ "" ∧ Path.ext filename = ".ts" then withBanner banner (tidy content)
      else tidy content) = body filename content banner := by
    by_cases happlies : banner ≠ "" ∧ Path.ext filename = ".ts"
    · have hscript := (ext_eq_ts_iff filename).mp happlies.2
      rw [if_pos happlies, withBanner]
      cases hstarts : startsWith (tidy content) (tidy banner) with
      | true =>
          have hnot : ¬ Headed filename content banner := by
            rintro ⟨-, -, hfalse⟩
            rw [hstarts] at hfalse
            cases hfalse
          rw [if_pos rfl, body, if_neg hnot]
      | false => rw [if_neg Bool.false_ne_true, body, if_pos ⟨hscript, happlies.1, hstarts⟩]
    · rw [if_neg happlies, body, if_neg]
      exact fun h => happlies ⟨h.2.1, (ext_eq_ts_iff filename).mpr h.1⟩
  rw [format, hbody, ended]

/-- Two breaks have an empty line between them. -/
theorem blankLine_eq (s t : String) : s ++ "\n\n" ++ t = s ++ "\n" ++ "" ++ "\n" ++ t := by
  simp [String.append_assoc]

/-- The lines of a formatted file that are not empty are, in order, those of the formatted
banner, if the file gets one, and those of the text without the blanks at their ends. -/
theorem filledLines_format (filename content banner : String) :
    filledLines (format filename content banner) =
      (if Headed filename content banner then filledLines (format "" banner "") else []) ++
        ((textLines content).map trimBlanks).filter (· ≠ "") := by
  have hbanner : filledLines (format "" banner "") = filledLines (tidy banner) := by
    rw [format_eq, filledLines_ended, body, if_neg fun h => h.2.1 rfl]
  rw [format_eq, filledLines_ended, body, hbanner]
  split
  · rw [blankLine_eq, filledLines_append, filledLines_append, filledLines_empty, List.append_nil,
      filledLines_tidy content]
  · rw [filledLines_tidy, List.nil_append]

/-! ## Tidying a text again -/

theorem trimEmpty_concat (ls : List String) : trimEmpty (ls ++ [""]) = trimEmpty ls := by
  rw [trimEmpty, trimEmpty, List.dropWhile_append]
  split
  · rename_i hempty
    rw [List.isEmpty_iff.mp hempty]
    rfl
  · rw [dropTrailing_concat, if_pos (by rfl)]

theorem tidyLines_concat (ls : List String) : tidyLines (ls ++ [""]) = tidyLines ls := by
  have hblank : trimBlanks "" = "" := by decide
  rw [tidyLines, tidyLines, List.map_append, List.map_cons, List.map_nil, hblank, trimEmpty_concat]

/-- Tidying a text once more takes a return from the end of each line and tidies what is
left. -/
theorem tidy_ended (text : String) :
    tidy (ended text) = "\n".intercalate (tidyLines ((split text "\n").map dropReturn)) := by
  by_cases hempty : text = ""
  · subst hempty
    decide
  · have htext : text ++ "\n" = "\n".intercalate (split text "\n" ++ [""]) := by
      rw [String.intercalate_append_of_ne_nil (split_ne_nil rfl text) (by simp),
        intercalate_split rfl]
      simp
    rw [ended_ne hempty, tidy_eq, htext,
      textLines_joined (whole_split text) (by simp), tidyLines_concat]

/-- Lines of which tidying takes nothing but blanks have no returns at their ends. -/
theorem dropReturn_of_flatMap_eq {ls : List String}
    (h : ((ls.map dropReturn).map trimBlanks).flatMap String.toList = ls.flatMap String.toList) :
    ∀ l ∈ ls, dropReturn l = l := by
  have htrim : ∀ l, (trimBlanks (dropReturn l)).toList.length ≤ (dropReturn l).toList.length := by
    intro l
    obtain ⟨blanks, hchars, -⟩ := exists_trimBlanks (dropReturn l)
    rw [hchars, List.length_append]
    omega
  have hdrop : ∀ l, (dropReturn l).toList.length ≤ l.toList.length :=
    fun l => (isPrefix_dropReturn l).length_le
  intro l hl
  by_contra hne
  -- no line gets longer, so one that gets shorter is missed in the sum of the lengths
  have hshorter : (dropReturn l).toList.length < l.toList.length := by
    refine lt_of_le_of_ne (hdrop l) fun heq => hne ?_
    exact String.toList_injective ((isPrefix_dropReturn l).eq_of_length heq)
  have hsum : (ls.map fun l => (trimBlanks (dropReturn l)).toList.length).sum <
      (ls.map fun l => l.toList.length).sum :=
    List.sum_lt_sum _ _ (fun l _ => (htrim l).trans (hdrop l))
      ⟨l, hl, (htrim l).trans_lt hshorter⟩
  have hlength := congrArg List.length h
  rw [List.map_map, List.flatMap_map, List.length_flatMap, List.length_flatMap] at hlength
  exact absurd hlength hsum.ne

/-- A written text stays as it is exactly if its lines are tidy and none of them ends with
a return. -/
theorem tidy_ended_iff (text : String) :
    tidy (ended text) = text ↔
      text = "" ∨ TidyLines (split text "\n") ∧ ∀ l ∈ split text "\n", dropReturn l = l := by
  rw [tidy_ended]
  have hwhole : ∀ l ∈ (split text "\n").map dropReturn, '\n' ∉ l.toList := by
    intro l hl
    obtain ⟨raw, hraw, rfl⟩ := List.mem_map.mp hl
    exact fun hmem => whole_split text raw hraw ((isPrefix_dropReturn raw).subset hmem)
  constructor
  · intro h
    by_cases hempty : text = ""
    · exact .inl hempty
    · right
      have htidy := tidyLines_tidyLines hwhole
      have hne : tidyLines ((split text "\n").map dropReturn) ≠ [] := by
        intro hnil
        rw [hnil] at h
        exact hempty h.symm
      have hlines : split text "\n" = tidyLines ((split text "\n").map dropReturn) := by
        have hbreak : "\n".toList = ['\n'] := rfl
        have hsplit := split_intercalate hbreak hne htidy.whole
        rwa [h] at hsplit
      refine ⟨hlines ▸ htidy, dropReturn_of_flatMap_eq ?_⟩
      have hnil : "".toList = [] := rfl
      rw [← flatMap_filter_filled hnil, ← filter_tidyLines, ← hlines, flatMap_filter_filled hnil]
  · rintro (rfl | ⟨htidy, hsettled⟩)
    · decide
    · have hmap : (split text "\n").map dropReturn = split text "\n" :=
        (List.map_congr_left hsettled).trans (List.map_id _)
      rw [hmap, htidy.tidyLines_eq, intercalate_split rfl]

/-! ## Stray returns -/

/-- A line with a return in front of the blanks at its end. -/
def StrayReturn (l : String) : Prop :=
  ∃ kept blanks : List Char, l.toList = kept ++ '\r' :: blanks ∧ ∀ c ∈ blanks, c = ' ' ∨ c = '\t'

theorem strayReturn_iff (l : String) :
    StrayReturn l ↔ dropReturn (trimBlanks l) ≠ trimBlanks l := by
  rw [Ne, dropReturn_eq_iff, not_not]
  constructor
  · rintro ⟨kept, blanks, hchars, hblanks⟩
    have hnone : dropTrailing (fun c => c == ' ' || c == '\t') blanks = [] := by
      rw [dropTrailing, List.reverse_eq_nil_iff, List.dropWhile_eq_nil_iff]
      intro c hc
      rcases hblanks c (List.mem_reverse.mp hc) with rfl | rfl <;> rfl
    rw [trimBlanks, trimEndBy, hchars, dropTrailing_append_cons (by decide), hnone]
    simp
  · intro hlast
    obtain ⟨kept, hkept⟩ := List.getLast?_eq_some_iff.mp hlast
    obtain ⟨blanks, hchars, hblanks⟩ := exists_trimBlanks l
    exact ⟨kept, blanks, by rw [hchars, hkept]; simp, hblanks⟩

instance (l : String) : Decidable (StrayReturn l) := decidable_of_iff' _ (strayReturn_iff l)

theorem forall_filled {P : String → Prop} (hP : P "") (ls : List String) :
    (∀ l ∈ ls.filter (· ≠ ""), P l) ↔ ∀ l ∈ ls, P l := by
  constructor
  · intro h l hl
    by_cases hempty : l = ""
    · rwa [hempty]
    · exact h l (List.mem_filter.mpr ⟨hl, by simpa using hempty⟩)
  · exact fun h l hl => h l (List.mem_filter.mp hl).1

theorem dropReturn_tidy_iff (content : String) :
    (∀ l ∈ split (tidy content) "\n", dropReturn l = l) ↔
      ∀ l ∈ textLines content, ¬ StrayReturn l := by
  have hempty : dropReturn "" = "" := by decide
  have hsettled := fun ls => forall_filled (P := fun l => dropReturn l = l) hempty ls
  rw [← hsettled, ← filledLines, filledLines_tidy, hsettled, List.forall_mem_map]
  simp only [strayReturn_iff, not_not]

theorem tidyLines_split_tidy {content : String} (h : tidy content ≠ "") :
    TidyLines (split (tidy content) "\n") := by
  have htidy := tidyLines_tidyLines (whole_textLines content)
  rw [tidy_eq] at h ⊢
  rw [split_intercalate rfl (fun hnil => h (by rw [hnil]; rfl)) htidy.whole]
  exact htidy

theorem TidyLines.join {ls ms : List String} (h : TidyLines ls) (h' : TidyLines ms)
    (hls : ls ≠ []) (hms : ms ≠ []) : TidyLines (ls ++ "" :: ms) where
  whole := by
    intro l hl
    rcases List.mem_append.mp hl with hl | hl
    · exact h.whole l hl
    · rcases List.mem_cons.mp hl with rfl | hl
      · simp
      · exact h'.whole l hl
  trimmed := by
    intro l hl
    rcases List.mem_append.mp hl with hl | hl
    · exact h.trimmed l hl
    · rcases List.mem_cons.mp hl with rfl | hl
      · decide
      · exact h'.trimmed l hl
  ends := by
    constructor
    · rw [List.head?_append_of_ne_nil _ hls]
      exact h.ends.first
    · rw [List.getLast?_append_of_ne_nil _ (by simp), List.getLast?_cons_of_ne_nil hms]
      exact h'.ends.last
  apart := by
    rw [List.isChain_append, List.isChain_cons]
    refine ⟨h.apart, ⟨?_, h'.apart⟩, ?_⟩
    · intro m hm hboth
      simpa [hboth.2] using h'.ends.first m hm
    · intro l hl m _ hboth
      simpa [hboth.1] using h.ends.last l hl

/-! ## Formatting a file again -/

section Again

variable {filename content banner : String}

theorem body_headed (h : Headed filename content banner) :
    body filename content banner = tidy banner ++ "\n\n" ++ tidy content := if_pos h

theorem body_plain (h : ¬ Headed filename content banner) :
    body filename content banner = tidy content := if_neg h

theorem tidy_banner_ne (h : Headed filename content banner) : tidy banner ≠ "" := by
  intro hempty
  have hstarts := h.2.2
  rw [hempty] at hstarts
  exact absurd hstarts (by simp [startsWith])

theorem split_headed (h : Headed filename content banner) :
    split (body filename content banner) "\n" =
      split (tidy banner) "\n" ++ "" :: split (tidy content) "\n" := by
  have hempty : split "" "\n" = [""] := by decide
  rw [body_headed h, blankLine_eq, split_append rfl, split_append rfl, hempty, List.append_assoc,
    List.singleton_append]

/-- A file that formatting again leaves alone: no line of its text has a stray return, and
if the banner is put in front of it, no line of the banner has one either and there is
something to put it in front of. -/
structure Lasting (filename content banner : String) : Prop where
  text : ∀ l ∈ textLines content, ¬ StrayReturn l
  head : Headed filename content banner → ∀ l ∈ textLines banner, ¬ StrayReturn l
  filled : Headed filename content banner → tidy content ≠ ""

instance (filename content banner : String) : Decidable (Lasting filename content banner) :=
  decidable_of_iff
    ((∀ l ∈ textLines content, ¬ StrayReturn l) ∧
      (Headed filename content banner → ∀ l ∈ textLines banner, ¬ StrayReturn l) ∧
      (Headed filename content banner → tidy content ≠ ""))
    ⟨fun ⟨htext, hhead, hfilled⟩ => ⟨htext, hhead, hfilled⟩,
      fun h => ⟨h.text, h.head, h.filled⟩⟩

theorem lasting_iff_of_headed (h : Headed filename content banner) :
    Lasting filename content banner ↔ tidy content ≠ "" ∧
      (∀ l ∈ textLines banner, ¬ StrayReturn l) ∧ ∀ l ∈ textLines content, ¬ StrayReturn l :=
  ⟨fun hlasting => ⟨hlasting.filled h, hlasting.head h, hlasting.text⟩,
    fun ⟨hfilled, hhead, htext⟩ => ⟨htext, fun _ => hhead, fun _ => hfilled⟩⟩

theorem lasting_iff_of_not_headed (h : ¬ Headed filename content banner) :
    Lasting filename content banner ↔ ∀ l ∈ textLines content, ¬ StrayReturn l :=
  ⟨fun hlasting => hlasting.text,
    fun htext => ⟨htext, fun hhead => absurd hhead h, fun hhead => absurd hhead h⟩⟩

/-- Behind a banner the lines are tidy if there are some. -/
theorem tidyLines_split_headed_iff (h : Headed filename content banner) :
    TidyLines (split (body filename content banner) "\n") ↔ tidy content ≠ "" := by
  rw [split_headed h]
  constructor
  · intro htidy hempty
    have hlines : split (tidy content) "\n" = [""] := by
      rw [hempty]
      decide
    rw [hlines] at htidy
    exact absurd (htidy.ends.last "" (by simp)) (by decide)
  · intro hfilled
    exact (tidyLines_split_tidy (tidy_banner_ne h)).join (tidyLines_split_tidy hfilled)
      (split_ne_nil rfl _) (split_ne_nil rfl _)

theorem dropReturn_headed_iff (h : Headed filename content banner) :
    (∀ l ∈ split (body filename content banner) "\n", dropReturn l = l) ↔
      (∀ l ∈ textLines banner, ¬ StrayReturn l) ∧ ∀ l ∈ textLines content, ¬ StrayReturn l := by
  have hempty : dropReturn "" = "" := by decide
  rw [split_headed h, List.forall_mem_append, List.forall_mem_cons, dropReturn_tidy_iff,
    dropReturn_tidy_iff, and_iff_right hempty]

theorem body_ne_empty (h : Headed filename content banner) : body filename content banner ≠ "" := by
  rw [body_headed h]
  intro hempty
  have hchars := congrArg String.toList hempty
  simp at hchars

theorem tidy_ended_body_iff :
    tidy (ended (body filename content banner)) = body filename content banner ↔
      Lasting filename content banner := by
  rw [tidy_ended_iff]
  by_cases hhead : Headed filename content banner
  · rw [or_iff_right (body_ne_empty hhead), tidyLines_split_headed_iff hhead,
      dropReturn_headed_iff hhead, lasting_iff_of_headed hhead]
  · rw [body_plain hhead, dropReturn_tidy_iff, lasting_iff_of_not_headed hhead]
    constructor
    · rintro (hempty | ⟨-, htext⟩)
      · rw [← dropReturn_tidy_iff, hempty]
        decide
      · exact htext
    · intro htext
      by_cases hempty : tidy content = ""
      · exact .inl hempty
      · exact .inr ⟨tidyLines_split_tidy hempty, htext⟩

/-- Whether a banner has a character that shows, or vanishes when it is tidied. -/
def Shows (banner : String) : Prop := tidy banner = "" ∨ ∃ c ∈ banner.toList, isInk c = true

instance (banner : String) : Decidable (Shows banner) :=
  inferInstanceAs (Decidable (_ ∨ ∃ c ∈ banner.toList, isInk c = true))

theorem startsWith_body (hscript : endsWith filename ".ts" = true) (hbanner : banner ≠ "") :
    startsWith (body filename content banner) (tidy banner) = true := by
  by_cases hhead : Headed filename content banner
  · rw [body_headed hhead, startsWith_iff]
    exact ⟨("\n\n" ++ tidy content).toList, by simp⟩
  · rw [body_plain hhead]
    by_contra hstarts
    exact hhead ⟨hscript, hbanner, Bool.eq_false_iff.mpr hstarts⟩

/-- When a formatted file is left alone. For every name, text and banner, formatting again
changes nothing if no line in use has a stray return and the banner is not alone in the
file. Unless the file may get a banner of stray returns only, these are the only files that
are left alone. -/
theorem format_format (filename content banner : String) :
    (Lasting filename content banner →
      format filename (format filename content banner) banner = format filename content banner) ∧
    ((endsWith filename ".ts" = true → Shows banner) →
      format filename (format filename content banner) banner = format filename content banner →
      Lasting filename content banner) := by
  rw [format_eq filename content, format_eq filename (ended _), ended_inj, ← tidy_ended_body_iff]
  constructor
  · intro hsame
    have hplain : ¬ Headed filename (ended (body filename content banner)) banner := by
      rintro ⟨hscript, hbanner, hstarts⟩
      rw [hsame, startsWith_body hscript hbanner] at hstarts
      cases hstarts
    rw [body_plain hplain, hsame]
  · intro hshows hsame
    by_cases hhead : Headed filename (ended (body filename content banner)) banner
    · -- the banner would be in the file once more, with all that it shows
      exfalso
      rw [body_headed hhead] at hsame
      have hbanner : ink banner = [] := by
        have hink := congrArg ink hsame
        rw [ink_append, ink_append, ink_tidy, ink_tidy, ink_ended] at hink
        have hlength := congrArg List.length hink
        simp only [List.length_append] at hlength
        exact List.eq_nil_of_length_eq_zero (by omega)
      rcases hshows hhead.1 with hnothing | ⟨c, hc, hmark⟩
      · exact tidy_banner_ne hhead hnothing
      · exact absurd hmark (by simpa using List.filter_eq_nil_iff.mp hbanner c hc)
    · rwa [body_plain hhead] at hsame

/-- A script with a return in front of every break, which gets a banner of two lines. -/
theorem format_format_script :
    let content := "\r\nconst a = 1; \r\n\r\n\r\n\r\nconst b = 2;\r\n"
    let banner := "// generated  \n// do not edit\n"
    Lasting "item.ts" content banner ∧
      format "item.ts" (format "item.ts" content banner) banner =
        format "item.ts" content banner := by
  intro content banner
  have hlasting : Lasting "item.ts" content banner := by decide
  exact ⟨hlasting, (format_format "item.ts" content banner).1 hlasting⟩

/-- A banner that is alone in the file loses the empty lines below it in the second pass, a
line with a return in front of its blanks loses the return then. -/
theorem format_unsettled :
    (format "a.ts" "" "// b" = "// b\n\n\n" ∧ format "a.ts" "// b\n\n\n" "// b" = "// b\n") ∧
      format "a.json" "x\r \ny" "" = "x\r\ny\n" ∧ format "a.json" "x\r\ny\n" "" = "x\ny\n" := by
  decide

end Again

end Typescript
end ClientGen
