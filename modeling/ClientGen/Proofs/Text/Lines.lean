import Mathlib.Data.List.Basic
import Mathlib.Data.List.Induction
import ClientGen.Typescript.Doc
import ClientGen.Proofs.Files.Path

/-! # Lines of texts

What a text loses at its ends, and what its lines are. The breaks around a text are the
empty lines at its ends (`trimBy_intercalate`), and a text that is put together from lines
has these lines again, except that each in front of a break loses the return at its end
(`textLines_joined`).
-/

namespace ClientGen

/-- The lines of a text, whichever of the two line breaks stand between them. -/
def textLines (text : String) : List String := Text.split (Text.replace text "\r\n" "\n") "\n"

namespace Text

/-! ## Trimmed lists -/

section Trimmed

variable {α : Type} {p : α → Bool} {xs : List α}

/-- A list with nothing that satisfies `p` at its ends. -/
structure Bare (p : α → Bool) (xs : List α) : Prop where
  first : ∀ x ∈ xs.head?, p x = false
  last : ∀ x ∈ xs.getLast?, p x = false

theorem dropWhile_of_head (h : ∀ x ∈ xs.head?, p x = false) : xs.dropWhile p = xs := by
  cases xs with
  | nil => rfl
  | cons x xs => rw [List.dropWhile_cons_of_neg (by simp [h x rfl])]

theorem head_dropWhile (xs : List α) : ∀ x ∈ (xs.dropWhile p).head?, p x = false := by
  intro x hx
  have hnot := List.head?_dropWhile_not p xs
  rw [Option.mem_def.mp hx] at hnot
  exact hnot

theorem dropTrailing_of_last (h : ∀ x ∈ xs.getLast?, p x = false) : dropTrailing p xs = xs := by
  unfold dropTrailing
  rw [dropWhile_of_head (by simpa using h), List.reverse_reverse]

theorem exists_dropTrailing (p : α → Bool) (xs : List α) :
    ∃ after, xs = dropTrailing p xs ++ after ∧ ∀ x ∈ after, p x = true := by
  refine ⟨(xs.reverse.takeWhile p).reverse, ?_, ?_⟩
  · rw [dropTrailing, ← List.reverse_append, List.takeWhile_append_dropWhile, List.reverse_reverse]
  · intro x hx
    exact List.all_eq_true.mp List.all_takeWhile x (List.mem_reverse.mp hx)

theorem last_dropTrailing (p : α → Bool) (xs : List α) :
    ∀ x ∈ (dropTrailing p xs).getLast?, p x = false := by
  intro x hx
  refine head_dropWhile xs.reverse x ?_
  simpa [dropTrailing] using hx

/-- What is taken from the two ends. -/
theorem exists_trimmed (p : α → Bool) (xs : List α) :
    ∃ before after, xs = before ++ dropTrailing p (xs.dropWhile p) ++ after ∧
      (∀ x ∈ before, p x = true) ∧ ∀ x ∈ after, p x = true := by
  obtain ⟨after, hafter, hblank⟩ := exists_dropTrailing p (xs.dropWhile p)
  refine ⟨xs.takeWhile p, after, ?_, List.all_eq_true.mp List.all_takeWhile, hblank⟩
  rw [List.append_assoc, ← hafter, List.takeWhile_append_dropWhile]

theorem bare_trimmed (p : α → Bool) (xs : List α) :
    Bare p (dropTrailing p (xs.dropWhile p)) := by
  constructor
  · intro x hx
    obtain ⟨after, hafter, -⟩ := exists_dropTrailing p (xs.dropWhile p)
    apply head_dropWhile xs x
    rw [hafter]
    cases hkept : dropTrailing p (xs.dropWhile p) with
    | nil => rw [hkept] at hx; cases hx
    | cons y ys => rw [hkept] at hx; exact hx
  · exact last_dropTrailing p _

theorem Bare.trimmed_eq (h : Bare p xs) : dropTrailing p (xs.dropWhile p) = xs := by
  rw [dropWhile_of_head h.first, dropTrailing_of_last h.last]

theorem Bare.getLast?_ne {ls : List String} (h : Bare (· == "") ls) : ls.getLast? ≠ some "" := by
  intro heq
  simpa using h.last "" heq

theorem dropWhile_append_cons {ys zs : List α} {a : α} (hys : ∀ y ∈ ys, p y = true)
    (ha : p a = false) : (ys ++ a :: zs).dropWhile p = a :: zs := by
  rw [List.dropWhile_append_of_pos hys, List.dropWhile_cons_of_neg (by simp [ha])]

theorem dropTrailing_append_cons {a : α} (ha : p a = false) (ys zs : List α) :
    dropTrailing p (ys ++ a :: zs) = ys ++ a :: dropTrailing p zs := by
  obtain ⟨after, hafter, hblank⟩ := exists_dropTrailing p zs
  have hlast : ∀ x ∈ (ys ++ a :: dropTrailing p zs).getLast?, p x = false := by
    cases hkept : dropTrailing p zs with
    | nil => simp [ha]
    | cons z more =>
        intro x hx
        have hend := last_dropTrailing p zs x
        rw [hkept] at hend
        exact hend (by simpa using hx)
  have hblanks : ∀ x ∈ after.reverse, p x = true := fun x hx => hblank x (List.mem_reverse.mp hx)
  calc dropTrailing p (ys ++ a :: zs)
      = dropTrailing p ((ys ++ a :: dropTrailing p zs) ++ after) := by
        rw [List.append_assoc, List.cons_append, ← hafter]
    _ = dropTrailing p (ys ++ a :: dropTrailing p zs) := by
        unfold dropTrailing
        rw [List.reverse_append, List.dropWhile_append_of_pos hblanks]
    _ = ys ++ a :: dropTrailing p zs := dropTrailing_of_last hlast

theorem dropTrailing_concat (p : α → Bool) (xs : List α) (x : α) :
    dropTrailing p (xs ++ [x]) = if p x then dropTrailing p xs else xs ++ [x] := by
  by_cases hx : p x = true
  · simp [dropTrailing, hx]
  · simp [dropTrailing, hx]

theorem toList_trim (s : String) :
    (trim s).toList = dropTrailing isSpace (s.toList.dropWhile isSpace) := by
  simp [trim, trimBy]

end Trimmed

/-! ## Empty lines -/

theorem mem_of_mem_trimEmpty {ls : List String} {l : String} (h : l ∈ trimEmpty ls) : l ∈ ls := by
  obtain ⟨before, after, hall, -⟩ := exists_trimmed (· == "") ls
  rw [hall]
  exact List.mem_append_left _ (List.mem_append_right _ h)

section Lines

variable {l : String} {ls : List String}

theorem head_intercalate (h : l ≠ "") :
    ("\n".intercalate (l :: ls)).toList.head? = l.toList.head? := by
  obtain ⟨c, cs, hchars⟩ := List.exists_cons_of_ne_nil
    (fun hnil => h (String.toList_eq_nil_iff.mp hnil))
  cases ls with
  | nil => simp
  | cons m ls => simp [String.intercalate_cons_cons, hchars]

theorem last_intercalate (h : l ≠ "") :
    ("\n".intercalate (ls ++ [l])).toList.getLast? = l.toList.getLast? := by
  have hchars : l.toList ≠ [] := fun hnil => h (String.toList_eq_nil_iff.mp hnil)
  by_cases hls : ls = []
  · simp [hls]
  · rw [String.intercalate_append_of_ne_nil hls (by simp), String.intercalate_singleton,
      String.toList_append, List.getLast?_append_of_ne_nil _ hchars]

theorem dropWhile_intercalate (h : ∀ l ∈ ls, '\n' ∉ l.toList) :
    ("\n".intercalate ls).toList.dropWhile (· == '\n') =
      ("\n".intercalate (ls.dropWhile (· == ""))).toList := by
  induction ls with
  | nil => rfl
  | cons l ls ih =>
      by_cases hl : l = ""
      · subst hl
        rw [List.dropWhile_cons_of_pos rfl, ← ih fun l' hl' => h l' (List.mem_cons_of_mem _ hl')]
        cases ls with
        | nil => rfl
        | cons m ls => simp [String.intercalate_cons_cons]
      · rw [List.dropWhile_cons_of_neg (by simpa using hl)]
        apply dropWhile_of_head
        intro c hc
        rw [head_intercalate hl] at hc
        rw [beq_eq_false_iff_ne]
        rintro rfl
        exact h l List.mem_cons_self (List.mem_of_head? hc)

theorem dropTrailing_intercalate (h : ∀ l ∈ ls, '\n' ∉ l.toList) :
    dropTrailing (· == '\n') ("\n".intercalate ls).toList =
      ("\n".intercalate (dropTrailing (· == "") ls)).toList := by
  induction ls using List.reverseRecOn with
  | nil => rfl
  | append_singleton ls l ih =>
      rw [dropTrailing_concat]
      by_cases hl : l = ""
      · subst hl
        rw [if_pos (by rfl), ← ih fun l' hl' => h l' (List.mem_append_left _ hl')]
        by_cases hls : ls = []
        · simp [hls]
        · rw [String.intercalate_append_of_ne_nil hls (by simp)]
          simp [dropTrailing_concat]
      · rw [if_neg (by simpa using hl)]
        apply dropTrailing_of_last
        intro c hc
        rw [last_intercalate hl] at hc
        rw [beq_eq_false_iff_ne]
        rintro rfl
        exact h l (by simp) (List.mem_of_getLast? hc)

/-- The breaks around a text are its empty lines at both ends. -/
theorem trimBy_intercalate (h : ∀ l ∈ ls, '\n' ∉ l.toList) :
    trimBy (· == '\n') ("\n".intercalate ls) = "\n".intercalate (trimEmpty ls) := by
  rw [trimBy, dropWhile_intercalate h, dropTrailing_intercalate, String.ofList_toList, trimEmpty]
  exact fun l hl => h l ((List.dropWhile_suffix _).subset hl)

end Lines

/-! ## Returns in front of breaks -/

/-- Characters with every pair of a return and a line feed read as a line feed. -/
def joinReturns : List Char → List Char
  | '\r' :: '\n' :: cs => '\n' :: joinReturns cs
  | c :: cs => c :: joinReturns cs
  | [] => []

theorem splitAux_ne_nil (sep : List Char) (skip : Nat) (field cs : List Char) :
    splitAux sep skip field cs ≠ [] := by
  fun_induction splitAux sep skip field cs with
  | case1 => simp
  | case2 skip field c cs ih => exact ih
  | case3 => simp
  | case4 field c cs _ ih => exact ih

theorem intercalate_splitAux (field cs : List Char) :
    ['\n'].intercalate (splitAux ['\r', '\n'] 0 field cs) = field.reverse ++ joinReturns cs := by
  fun_induction joinReturns cs generalizing field with
  | case1 cs ih =>
      have hsplit : splitAux ['\r', '\n'] 0 field ('\r' :: '\n' :: cs) =
          field.reverse :: splitAux ['\r', '\n'] 0 [] cs := rfl
      rw [hsplit, List.intercalate_cons_of_ne_nil (splitAux_ne_nil _ _ _ _), ih]
      simp
  | case2 c cs hpair ih =>
      have hstarts : ['\r', '\n'].isPrefixOf (c :: cs) = false := by
        rw [Bool.eq_false_iff, Ne, List.isPrefixOf_iff_prefix]
        rintro ⟨rest, hrest⟩
        obtain ⟨hc, hcs⟩ := List.cons.inj hrest
        exact hpair rest hc.symm hcs.symm
      rw [splitAux, if_neg (by simp [hstarts]), ih]
      simp
  | case3 => simp [splitAux]

theorem toList_replace_crlf (s : String) :
    (replace s "\r\n" "\n").toList = joinReturns s.toList := by
  have hcrlf : "\r\n".toList = ['\r', '\n'] := rfl
  have hbreak : "\n".toList = ['\n'] := rfl
  rw [replace, split, toList_intercalate_ofList, hcrlf, hbreak, intercalate_splitAux,
    List.reverse_nil, List.nil_append]

theorem joinReturns_append {l : List Char} (h : '\n' ∉ l) {cs : List Char}
    (hcs : cs.head? ≠ some '\n') : joinReturns (l ++ cs) = l ++ joinReturns cs := by
  induction l with
  | nil => rfl
  | cons c l ih =>
      obtain ⟨-, hl⟩ : '\n' ≠ c ∧ '\n' ∉ l := by simpa using h
      have hhead : (l ++ cs).head? ≠ some '\n' := by
        cases l with
        | nil => exact hcs
        | cons d l => simpa using fun hd : d = '\n' => h (by simp [hd])
      rw [List.cons_append, joinReturns, ih hl, List.cons_append]
      rintro rest - hrest
      exact hhead (by rw [hrest]; rfl)

def dropReturn (l : String) : String := dropEnd l "\r"

theorem dropReturn_of_last {l : String} (h : l.toList.getLast? ≠ some '\r') : dropReturn l = l := by
  unfold dropReturn dropEnd
  split
  · rename_i rest hrest
    have hlast := congrArg List.head? (eq_append_of_dropStart? hrest)
    exact absurd (by simpa using hlast) h
  · rfl

theorem dropReturn_cases (l : String) :
    l.toList = (dropReturn l).toList ++ ['\r'] ∨
      l.toList.getLast? ≠ some '\r' ∧ dropReturn l = l := by
  by_cases hlast : l.toList.getLast? = some '\r'
  · obtain ⟨before, hbefore⟩ := List.getLast?_eq_some_iff.mp hlast
    have hdrop : dropReturn l = String.ofList before := by
      simp [dropReturn, dropEnd, dropStart?, hbefore]
    exact .inl (by rw [hdrop, hbefore, String.toList_ofList])
  · exact .inr ⟨hlast, dropReturn_of_last hlast⟩

theorem isPrefix_dropReturn (l : String) : (dropReturn l).toList <+: l.toList := by
  rcases dropReturn_cases l with hreturn | ⟨-, hsame⟩
  · exact ⟨['\r'], hreturn.symm⟩
  · exact ⟨[], by rw [hsame, List.append_nil]⟩

theorem dropReturn_eq_iff {l : String} : dropReturn l = l ↔ l.toList.getLast? ≠ some '\r' := by
  rcases dropReturn_cases l with hreturn | ⟨hlast, hsame⟩
  · have hlength := congrArg List.length hreturn
    rw [List.length_append, List.length_singleton] at hlength
    constructor
    · intro heq
      rw [heq] at hlength
      omega
    · intro hlast
      exact absurd (by rw [hreturn]; simp) hlast
  · exact iff_of_true hsame hlast

theorem joinReturns_line {l : String} (h : '\n' ∉ l.toList) (cs : List Char) :
    joinReturns (l.toList ++ '\n' :: cs) = (dropReturn l).toList ++ '\n' :: joinReturns cs := by
  rcases dropReturn_cases l with hreturn | ⟨hlast, hsame⟩
  · have hline : '\n' ∉ (dropReturn l).toList := fun hmem => h ((isPrefix_dropReturn l).subset hmem)
    rw [hreturn, List.append_assoc, joinReturns_append hline (by simp)]
    simp [joinReturns]
  · rw [hsame]
    rcases List.eq_nil_or_concat l.toList with hnil | ⟨before, c, hchars⟩
    · simp [hnil, joinReturns]
    · rw [List.concat_eq_append] at hchars
      have hline : '\n' ∉ before := fun hmem => h (by simp [hchars, hmem])
      have hbreak : c ≠ '\n' := fun heq => h (by simp [hchars, heq])
      have hreturn : c ≠ '\r' := fun heq => hlast (by simp [hchars, heq])
      rw [hchars, List.append_assoc, joinReturns_append hline (by simpa using hbreak)]
      simp [joinReturns, hreturn]

theorem joinReturns_intercalate {ls : List String} {last : String}
    (h : ∀ l ∈ ls, '\n' ∉ l.toList) (hlast : '\n' ∉ last.toList) :
    joinReturns ("\n".intercalate (ls ++ [last])).toList =
      ("\n".intercalate (ls.map dropReturn ++ [last])).toList := by
  induction ls with
  | nil =>
      have hend : ([] : List Char).head? ≠ some '\n' := by simp
      simpa [joinReturns] using joinReturns_append hlast hend
  | cons l ls ih =>
      have hrest := ih fun l' hl' => h l' (List.mem_cons_of_mem l hl')
      have hline := joinReturns_line (h l List.mem_cons_self)
        ("\n".intercalate (ls ++ [last])).toList
      rw [hrest] at hline
      rw [List.cons_append, String.intercalate_cons_of_ne_nil (by simp), List.map_cons,
        List.cons_append, String.intercalate_cons_of_ne_nil (by simp)]
      simpa using hline

/-- The lines of a text that is put together from lines: each in front of a break loses
the return at its end. -/
theorem textLines_joined {ls : List String} {last : String}
    (h : ∀ l ∈ ls, '\n' ∉ l.toList) (hlast : '\n' ∉ last.toList) :
    textLines ("\n".intercalate (ls ++ [last])) = ls.map dropReturn ++ [last] := by
  have htext : replace ("\n".intercalate (ls ++ [last])) "\r\n" "\n" =
      "\n".intercalate (ls.map dropReturn ++ [last]) := by
    apply String.toList_injective
    rw [toList_replace_crlf, joinReturns_intercalate h hlast]
  rw [textLines, htext, split_intercalate rfl (by simp)]
  intro l hl
  rcases List.mem_append.mp hl with hl | hl
  · obtain ⟨raw, hraw, rfl⟩ := List.mem_map.mp hl
    exact fun hmem => h raw hraw ((isPrefix_dropReturn raw).subset hmem)
  · rwa [List.mem_singleton.mp hl]

theorem whole_split (s : String) : ∀ l ∈ split s "\n", '\n' ∉ l.toList :=
  fun _ hl => not_mem_of_mem_split rfl hl

theorem whole_textLines (s : String) : ∀ l ∈ textLines s, '\n' ∉ l.toList := whole_split _

end Text
end ClientGen
