import ClientGen.Files.Url

/-! # Cleaned paths

A cleaned path is its list of kept segments (`clean_eq_clean_iff`), so two paths
are the same when they have the same directory and the same file
(`join_eq_join_iff`), cleaning twice is cleaning once, and the candidates for an
included path do not depend on how it is spelled (`candidates_relative`). An extension
without further dots is the end of the path (`ext_eq_iff`).
-/

namespace ClientGen

/-! ## Splitting at a character -/

namespace Text

theorem splitAux_single (a : Char) (field cs : List Char) :
    splitAux [a] 0 field cs = (cs.splitOn a).modifyHead (field.reverse ++ ·) := by
  induction cs generalizing field with
  | nil => simp [splitAux]
  | cons c cs ih =>
      rw [splitAux, List.splitOn, List.splitOnP_cons_eq_if_modifyHead]
      by_cases hc : c = a
      · have hid : (fun x : List Char => x) = id := rfl
        simp [hc, ih, List.splitOn, hid]
      · have hne : ¬ a = c := fun h => hc h.symm
        have hcons : (fun x : List Char => field.reverse ++ c :: x) =
            (field.reverse ++ ·) ∘ (c :: ·) := rfl
        simp [hc, hne, ih, List.splitOn, hcons]

theorem split_single {sep : String} {a : Char} (hsep : sep.toList = [a]) (s : String) :
    split s sep = (s.toList.splitOn a).map String.ofList := by
  have hid : (fun x : List Char => x) = id := rfl
  simp [split, hsep, splitAux_single, hid]

theorem split_intercalate {sep : String} {a : Char} (hsep : sep.toList = [a]) {ss : List String}
    (hne : ss ≠ []) (hss : ∀ s ∈ ss, a ∉ s.toList) : split (sep.intercalate ss) sep = ss := by
  rw [split_single hsep, String.toList_intercalate, hsep, List.splitOn_intercalate]
  · simp
  · simpa using hss
  · simpa using hne

theorem split_append {sep : String} {a : Char} (hsep : sep.toList = [a]) (s t : String) :
    split (s ++ sep ++ t) sep = split s sep ++ split t sep := by
  have hchars : (s ++ sep ++ t).toList = s.toList ++ a :: t.toList := by simp [hsep]
  rw [split_single hsep, hchars, List.splitOn, List.splitOnP_append_cons _ _ (by simp),
    List.map_append]
  simp only [split_single hsep, List.splitOn]

theorem split_ne_nil {sep : String} {a : Char} (hsep : sep.toList = [a]) (s : String) :
    split s sep ≠ [] := by
  rw [split_single hsep]
  simp [List.splitOn]

theorem toList_intercalate_ofList (sep : String) (fields : List (List Char)) :
    (sep.intercalate (fields.map String.ofList)).toList = sep.toList.intercalate fields := by
  have hid : String.toList ∘ String.ofList = id := by
    funext cs
    simp
  rw [String.toList_intercalate, List.map_map, hid, List.map_id]

theorem intercalate_split {sep : String} {a : Char} (hsep : sep.toList = [a]) (s : String) :
    sep.intercalate (split s sep) = s := by
  apply String.toList_injective
  rw [split_single hsep, toList_intercalate_ofList, hsep, List.intercalate_splitOn]

theorem not_mem_of_mem_split {sep : String} {a : Char} (hsep : sep.toList = [a]) {s part : String}
    (h : part ∈ split s sep) : a ∉ part.toList := by
  rw [split_single hsep] at h
  obtain ⟨cs, hcs, rfl⟩ := List.mem_map.mp h
  have hsplit : ∀ xs : List Char, ∀ ys ∈ xs.splitOn a, a ∉ ys := by
    intro xs
    induction xs with
    | nil => simp
    | cons c xs ih =>
        intro ys hys
        rw [List.splitOn, List.splitOnP_cons_eq_if_modifyHead] at hys
        change ∀ ys ∈ List.splitOnP _ xs, a ∉ ys at ih
        split at hys
        · rcases List.mem_cons.mp hys with rfl | hys
          · simp
          · exact ih ys hys
        · rename_i hc
          cases hrest : List.splitOnP (· == a) xs with
          | nil => simp [hrest] at hys
          | cons zs rest =>
              rw [hrest] at hys ih
              rcases List.mem_cons.mp hys with rfl | hys
              · have hzs := ih zs List.mem_cons_self
                have hne : ¬ a = c := fun h => hc (by simp [← h])
                simp [hne, hzs]
              · exact ih ys (List.mem_cons_of_mem zs hys)
  simpa using hsplit s.toList cs hcs

theorem startsWith_iff {s start : String} :
    startsWith s start = true ↔ start.toList <+: s.toList := by
  simp [startsWith]

theorem endsWith_iff {s tail : String} : endsWith s tail = true ↔ tail.toList <:+ s.toList := by
  simp [endsWith]

theorem eq_append_of_dropStart? {start cs rest : List Char}
    (h : dropStart? start cs = some rest) : cs = start ++ rest := by
  fun_induction dropStart? start cs with
  | case1 cs => simpa using h
  | case2 => cases h
  | case3 p ps c cs hpc ih => simpa [eq_of_beq hpc] using ih h
  | case4 => cases h

theorem dropStart?_append (start cs : List Char) : dropStart? start (start ++ cs) = some cs := by
  induction start with
  | nil => rfl
  | cons c start ih => simp [dropStart?, ih]

theorem startsWith_append (start s : String) : startsWith (start ++ s) start = true := by
  simp [startsWith_iff]

theorem dropStart_append (start s : String) : dropStart (start ++ s) start = s := by
  rw [dropStart, String.toList_append, dropStart?_append]
  exact String.ofList_toList

theorem dropStart_of_not_startsWith {s start : String} (h : startsWith s start = false) :
    dropStart s start = s := by
  unfold dropStart
  split
  · rename_i rest hrest
    have hstart : startsWith s start = true :=
      startsWith_iff.mpr ⟨rest, (eq_append_of_dropStart? hrest).symm⟩
    rw [h] at hstart
    cases hstart
  · rfl

theorem dropEnd_empty (s : String) : dropEnd s "" = s := by
  simp [dropEnd, dropStart?]

theorem dropEnd_append (s tail : String) : dropEnd (s ++ tail) tail = s := by
  rw [dropEnd, String.toList_append, List.reverse_append, dropStart?_append]
  simp

theorem length_le_dropEnd (s tail : String) :
    s.toList.length ≤ (dropEnd s tail).toList.length + tail.toList.length := by
  unfold dropEnd
  split
  · rename_i rest hrest
    have hlength := congrArg List.length (eq_append_of_dropStart? hrest)
    simp only [List.length_reverse, List.length_append, String.toList_ofList] at hlength ⊢
    omega
  · omega

theorem append_of_cutAux {sep done cs a b : List Char} (h : cutAux sep done cs = some (a, b)) :
    done.reverse ++ cs = a ++ sep ++ b := by
  induction cs generalizing done with
  | nil =>
      unfold cutAux at h
      split at h <;> simp_all
  | cons c cs ih =>
      unfold cutAux at h
      split at h
      · rename_i rest hrest
        obtain ⟨rfl, rfl⟩ := Prod.mk.inj (Option.some.inj h)
        rw [eq_append_of_dropStart? hrest, List.append_assoc]
      · simpa using ih h

theorem not_mem_of_cutAux_eq_none {a : Char} {done cs : List Char}
    (h : cutAux [a] done cs = none) : a ∉ cs := by
  induction cs generalizing done with
  | nil => simp
  | cons c cs ih =>
      by_cases hc : a = c
      · simp [cutAux, dropStart?, hc] at h
      · have hrest : cutAux [a] (c :: done) cs = none := by
          simpa [cutAux, dropStart?, hc] using h
        simpa [hc] using ih hrest

theorem append_of_cutLast? {s sep a b : String} (h : cutLast? s sep = some (a, b)) :
    s = a ++ sep ++ b := by
  obtain ⟨⟨x, y⟩, hcut, heq⟩ := Option.map_eq_some_iff.mp h
  obtain ⟨rfl, rfl⟩ := Prod.mk.inj heq
  have hchars := congrArg List.reverse (append_of_cutAux hcut)
  apply String.toList_injective
  simpa using hchars

theorem cutAux_append {a : Char} {before : List Char} (h : a ∉ before) (done after : List Char) :
    cutAux [a] done (before ++ a :: after) = some (done.reverse ++ before, after) := by
  induction before generalizing done with
  | nil => simp [cutAux, dropStart?]
  | cons c before ih =>
      obtain ⟨hc, hbefore⟩ : a ≠ c ∧ a ∉ before := by simpa using h
      simp [cutAux, dropStart?, hc, ih hbefore]

theorem cutLast?_append {sep : String} {a : Char} (hsep : sep.toList = [a]) {t : String}
    (h : a ∉ t.toList) (s : String) : cutLast? (s ++ sep ++ t) sep = some (s, t) := by
  have hchars : (s ++ sep ++ t).toList.reverse = t.toList.reverse ++ a :: s.toList.reverse := by
    simp [hsep]
  have hrest : a ∉ t.toList.reverse := by simpa using h
  rw [cutLast?, hchars, hsep, List.reverse_singleton, cutAux_append hrest]
  simp

theorem not_mem_of_cutAux {a : Char} {done cs before after : List Char}
    (h : cutAux [a] done cs = some (before, after)) (hdone : a ∉ done) : a ∉ before := by
  induction cs generalizing done with
  | nil => cases h
  | cons c cs ih =>
      by_cases hc : a = c
      · have hcut : some (done.reverse, cs) = some (before, after) := by
          simpa [cutAux, dropStart?, hc] using h
        obtain ⟨rfl, -⟩ := Prod.mk.inj (Option.some.inj hcut)
        simpa using hdone
      · have hrest : cutAux [a] (c :: done) cs = some (before, after) := by
          simpa [cutAux, dropStart?, hc] using h
        exact ih hrest (by simp [hc, hdone])

theorem cut?_append {sep : String} {a : Char} (hsep : sep.toList = [a]) {s : String}
    (h : a ∉ s.toList) (t : String) : cut? (s ++ sep ++ t) sep = some (s, t) := by
  have hchars : (s ++ sep ++ t).toList = s.toList ++ a :: t.toList := by simp [hsep]
  rw [cut?, hchars, hsep, cutAux_append h]
  simp

theorem not_mem_of_cutLast? {sep : String} {a : Char} (hsep : sep.toList = [a])
    {s start last : String} (h : cutLast? s sep = some (start, last)) : a ∉ last.toList := by
  unfold cutLast? at h
  rw [hsep, List.reverse_singleton] at h
  obtain ⟨⟨before, after⟩, hcut, heq⟩ := Option.map_eq_some_iff.mp h
  obtain ⟨-, rfl⟩ := Prod.mk.inj heq
  simpa using not_mem_of_cutAux hcut List.not_mem_nil

theorem cutLast?_of_not_mem {sep : String} {a : Char} (hsep : sep.toList = [a]) {s : String}
    (h : a ∉ s.toList) : cutLast? s sep = none := by
  cases hcut : cutLast? s sep with
  | none => rfl
  | some parts =>
      refine absurd ?_ h
      rw [append_of_cutLast? hcut]
      simp [hsep]

end Text

namespace Path

/-! ## Segments -/

theorem segments_intercalate {ss : List String} (hne : ss ≠ [])
    (hslash : ∀ s ∈ ss, '/' ∉ s.toList) : segments ("/".intercalate ss) = ss :=
  Text.split_intercalate rfl hne hslash

theorem segments_of_not_mem {s : String} (h : '/' ∉ s.toList) : segments s = [s] := by
  have hone := segments_intercalate (List.cons_ne_nil s []) (List.forall_mem_singleton.mpr h)
  rwa [String.intercalate_singleton] at hone

theorem segments_append (p q : String) : segments (p ++ "/" ++ q) = segments p ++ segments q :=
  Text.split_append rfl p q

theorem segments_ne_nil (p : String) : segments p ≠ [] := Text.split_ne_nil rfl p

theorem intercalate_segments (p : String) : "/".intercalate (segments p) = p :=
  Text.intercalate_split rfl p

theorem slash_not_mem_of_mem_segments {p s : String} (h : s ∈ segments p) : '/' ∉ s.toList :=
  Text.not_mem_of_mem_split rfl h

/-- Segments that cleaning does not drop by themselves. -/
structure Kept (s : String) : Prop where
  ne_empty : s ≠ ""
  ne_dot : s ≠ "."
  slash : '/' ∉ s.toList

/-- Segments that name a place below the one before them. -/
structure Plain (s : String) : Prop extends Kept s where
  ne_up : s ≠ ".."

/-! ## Cleaning -/

section Cleaning

variable {rooted : Bool} {kept ss : List String} {s : String}

@[simp] theorem pushSegment_empty : pushSegment rooted kept "" = kept := by simp [pushSegment]

@[simp] theorem pushSegment_dot : pushSegment rooted kept "." = kept := by simp [pushSegment]

theorem pushSegment_plain (h : Plain s) : pushSegment rooted kept s = s :: kept := by
  simp [pushSegment, h.ne_empty, h.ne_dot, h.ne_up]

/-- Segments, last one first, each of which was pushed onto those before it. -/
def Stacked (rooted : Bool) : List String → Prop
  | [] => True
  | s :: kept => Kept s ∧ pushSegment rooted kept s = s :: kept ∧ Stacked rooted kept

theorem Stacked.push (h : Stacked rooted kept) (hs : '/' ∉ s.toList) :
    Stacked rooted (pushSegment rooted kept s) := by
  by_cases hskip : s = "" ∨ s = "."
  · rcases hskip with rfl | rfl <;> simpa using h
  · obtain ⟨hempty, hdot⟩ := not_or.mp hskip
    by_cases hup : s = ".."
    · subst hup
      have hkept : Kept ".." := ⟨by decide, by decide, by decide⟩
      cases kept with
      | nil => cases rooted <;> simp [pushSegment, Stacked, hkept]
      | cons top rest =>
          by_cases htop : top = ".."
          · have hpush : pushSegment rooted (top :: rest) ".." = ".." :: top :: rest := by
              simp [pushSegment, htop]
            rw [hpush]
            exact ⟨hkept, hpush, h⟩
          · have hpush : pushSegment rooted (top :: rest) ".." = rest := by
              simp [pushSegment, htop]
            rw [hpush]
            exact h.2.2
    · have hplain : Plain s := ⟨⟨hempty, hdot, hs⟩, hup⟩
      rw [pushSegment_plain hplain]
      exact ⟨hplain.toKept, pushSegment_plain hplain, h⟩

theorem Stacked.foldl (h : Stacked rooted kept) (hss : ∀ s ∈ ss, '/' ∉ s.toList) :
    Stacked rooted (ss.foldl (pushSegment rooted) kept) := by
  induction ss generalizing kept with
  | nil => exact h
  | cons s ss ih =>
      exact ih (h.push (hss s List.mem_cons_self)) fun t ht => hss t (List.mem_cons_of_mem s ht)

theorem Stacked.kept_of_mem (h : Stacked rooted kept) : ∀ s ∈ kept, Kept s := by
  induction kept with
  | nil => simp
  | cons s kept ih =>
      intro t ht
      rcases List.mem_cons.mp ht with rfl | ht
      · exact h.1
      · exact ih h.2.2 t ht

/-- Pushing kept segments in their order gives them back. -/
theorem Stacked.foldl_reverse (h : Stacked rooted kept) :
    kept.reverse.foldl (pushSegment rooted) [] = kept := by
  induction kept with
  | nil => rfl
  | cons s kept ih => rw [List.reverse_cons, List.foldl_append, ih h.2.2]; exact h.2.1

theorem stacked_cleanSegments (hss : ∀ s ∈ ss, '/' ∉ s.toList) :
    Stacked rooted (cleanSegments rooted ss).reverse := by
  rw [cleanSegments, List.reverse_reverse]
  exact Stacked.foldl trivial hss

theorem kept_of_mem_cleanSegments (hss : ∀ s ∈ ss, '/' ∉ s.toList)
    (h : s ∈ cleanSegments rooted ss) : Kept s :=
  (stacked_cleanSegments hss).kept_of_mem s (List.mem_reverse.mpr h)

theorem cleanSegments_cleanSegments (hss : ∀ s ∈ ss, '/' ∉ s.toList) :
    cleanSegments rooted (cleanSegments rooted ss) = cleanSegments rooted ss := by
  have hstacked : Stacked rooted (cleanSegments rooted ss).reverse := stacked_cleanSegments hss
  have hfold := hstacked.foldl_reverse
  rw [List.reverse_reverse] at hfold
  rw [cleanSegments, hfold, List.reverse_reverse]

theorem cleanSegments_concat (h : Plain s) (ss : List String) :
    cleanSegments rooted (ss ++ [s]) = cleanSegments rooted ss ++ [s] := by
  simp [cleanSegments, pushSegment_plain h]

/-- Whether cleaning looks at a segment at all. -/
def isKept (s : String) : Bool := s ≠ "" && s ≠ "."

theorem foldl_filter_isKept (ss kept : List String) :
    (ss.filter isKept).foldl (pushSegment rooted) kept = ss.foldl (pushSegment rooted) kept := by
  induction ss generalizing kept with
  | nil => rfl
  | cons s ss ih =>
      by_cases hs : isKept s = true
      · rw [List.filter_cons_of_pos hs, List.foldl_cons, List.foldl_cons, ih]
      · have hpush : pushSegment rooted kept s = kept := by
          by_cases hempty : s = ""
          · simp [hempty]
          · by_cases hdot : s = "."
            · simp [hdot]
            · simp [isKept, hempty, hdot] at hs
        rw [List.filter_cons_of_neg hs, List.foldl_cons, hpush, ih]

theorem filter_isKept (hss : ∀ s ∈ ss, Kept s) : ss.filter isKept = ss :=
  List.filter_eq_self.mpr fun s hs => by simp [isKept, (hss s hs).ne_empty, (hss s hs).ne_dot]

theorem cleanSegments_filter_isKept (ss : List String) :
    cleanSegments rooted (ss.filter isKept) = cleanSegments rooted ss := by
  rw [cleanSegments, foldl_filter_isKept, cleanSegments]

/-- From the root, what a start of the path has added can only be left below. -/
theorem pushSegment_mono {longer : List String} (h : kept <+: longer) (s : String) :
    pushSegment true kept s <+: pushSegment true longer s := by
  by_cases hskip : s = "" ∨ s = "."
  · rcases hskip with rfl | rfl <;> simpa using h
  · by_cases hup : s = ".."
    · subst hup
      cases kept with
      | nil => exact List.nil_prefix
      | cons top rest =>
          obtain ⟨more, rfl⟩ := h
          by_cases htop : top = ".."
          · simp [pushSegment, htop]
          · simp [pushSegment, htop]
    · simpa [pushSegment, hskip, hup] using h

theorem cleanSegments_suffix (before ss : List String) :
    cleanSegments true ss <:+ cleanSegments true (before ++ ss) := by
  have hfold : ∀ (ss : List String) {kept longer : List String}, kept <+: longer →
      ss.foldl (pushSegment true) kept <+: ss.foldl (pushSegment true) longer := by
    intro ss
    induction ss with
    | nil => exact fun h => h
    | cons s ss ih => exact fun h => ih (pushSegment_mono h s)
  rw [cleanSegments, cleanSegments, List.foldl_append, List.reverse_suffix]
  exact hfold ss List.nil_prefix

/-- One more segment leads on in the same way, whether what came before is cleaned or
not. -/
theorem Stacked.foldl_pushSegment (h : Stacked false kept) (base : List String) (s : String) :
    (pushSegment false kept s).reverse.foldl (pushSegment rooted) base =
      pushSegment rooted (kept.reverse.foldl (pushSegment rooted) base) s := by
  by_cases hskip : s = "" ∨ s = "."
  · rcases hskip with rfl | rfl <;> simp
  · by_cases hup : s = ".."
    · subst hup
      cases kept with
      | nil => rfl
      | cons top rest =>
          by_cases htop : top = ".."
          · simp [pushSegment, htop]
          · have hplain : Plain top := ⟨h.1, htop⟩
            have hback : ∀ kept, pushSegment rooted (top :: kept) ".." = kept := by
              simp [pushSegment, htop]
            have hdrop : pushSegment false (top :: rest) ".." = rest := by
              simp [pushSegment, htop]
            rw [hdrop, List.reverse_cons, List.foldl_append, List.foldl_cons, List.foldl_nil,
              pushSegment_plain hplain, hback]
    · have hpush : ∀ rooted kept, pushSegment rooted kept s = s :: kept := by
        simp [pushSegment, hskip, hup]
      simp [hpush]

/-- Cleaning a path first does not change where it leads. -/
theorem foldl_cleanSegments (hss : ∀ s ∈ ss, '/' ∉ s.toList) (base : List String) :
    (cleanSegments false ss).foldl (pushSegment rooted) base =
      ss.foldl (pushSegment rooted) base := by
  have hrun : ∀ {kept : List String}, Stacked false kept →
      (ss.foldl (pushSegment false) kept).reverse.foldl (pushSegment rooted) base =
        ss.foldl (pushSegment rooted) (kept.reverse.foldl (pushSegment rooted) base) := by
    induction ss with
    | nil => exact fun _ => rfl
    | cons s ss ih =>
        intro kept hkept
        have hs : '/' ∉ s.toList := hss s List.mem_cons_self
        have hrest : ∀ t ∈ ss, '/' ∉ t.toList := fun t ht => hss t (List.mem_cons_of_mem s ht)
        rw [List.foldl_cons, ih hrest (hkept.push hs), hkept.foldl_pushSegment, List.foldl_cons]
  exact hrun trivial

end Cleaning

/-! ## Paths of segments -/

section OfSegments

variable {rooted rooted' : Bool} {ss ss' : List String}

theorem isRooted_iff {p : String} : isRooted p = true ↔ ∃ rest, p.toList = '/' :: rest := by
  rw [isRooted, Text.startsWith_iff]
  constructor
  · rintro ⟨rest, hrest⟩
    exact ⟨rest, hrest.symm⟩
  · rintro ⟨rest, hrest⟩
    exact ⟨rest, hrest.symm⟩

theorem isRooted_append {p : String} (q : String) (h : p ≠ "") :
    isRooted (p ++ q) = isRooted p := by
  have hchars : p.toList ≠ [] := by simpa using h
  obtain ⟨c, cs, hcs⟩ := List.exists_cons_of_ne_nil hchars
  rw [Bool.eq_iff_iff, isRooted_iff, isRooted_iff]
  simp [hcs]

theorem isRooted_intercalate (hss : ∀ s ∈ ss, Kept s) : isRooted ("/".intercalate ss) = false := by
  cases ss with
  | nil => decide
  | cons s ss =>
      have hs := hss s List.mem_cons_self
      have hfirst : ∃ rest, "/".intercalate (s :: ss) = s ++ rest := by
        cases ss with
        | nil => exact ⟨"", by simp⟩
        | cons t ts => exact ⟨"/" ++ "/".intercalate (t :: ts), by simp [String.append_assoc]⟩
      obtain ⟨rest, hrest⟩ := hfirst
      rw [hrest, isRooted_append _ hs.ne_empty, Bool.eq_false_iff, ne_eq, isRooted_iff]
      rintro ⟨cs, hcs⟩
      exact hs.slash (hcs ▸ List.mem_cons_self)

theorem intercalate_eq_empty_iff (hss : ∀ s ∈ ss, Kept s) : "/".intercalate ss = "" ↔ ss = [] := by
  constructor
  · intro h
    cases ss with
    | nil => rfl
    | cons s ss =>
        have hslash : ∀ t ∈ s :: ss, '/' ∉ t.toList := fun t ht => (hss t ht).slash
        have hsegments := segments_intercalate (List.cons_ne_nil s ss) hslash
        rw [h] at hsegments
        obtain ⟨rfl, -⟩ := List.cons.inj hsegments
        exact absurd rfl (hss "" List.mem_cons_self).ne_empty
  · rintro rfl
    rfl

theorem ofSegments_of_ne_nil (hne : ss ≠ []) (hss : ∀ s ∈ ss, Kept s) :
    ofSegments false ss = "/".intercalate ss := by
  have hbody : "/".intercalate ss ≠ "" := fun h => hne ((intercalate_eq_empty_iff hss).mp h)
  rw [ofSegments, if_neg (by decide), if_neg hbody]

theorem isRooted_ofSegments (hss : ∀ s ∈ ss, Kept s) :
    isRooted (ofSegments rooted ss) = rooted := by
  cases rooted with
  | true => exact isRooted_iff.mpr ⟨("/".intercalate ss).toList, by simp [ofSegments]⟩
  | false =>
      by_cases hempty : "/".intercalate ss = ""
      · simp only [ofSegments, hempty]
        decide
      · simpa [ofSegments, hempty] using isRooted_intercalate hss

theorem filter_segments_ofSegments (hss : ∀ s ∈ ss, Kept s) :
    (segments (ofSegments rooted ss)).filter isKept = ss := by
  have hslash : ∀ s ∈ ss, '/' ∉ s.toList := fun s hs => (hss s hs).slash
  have hsplit : ∀ q, segments ("/" ++ q) = "" :: segments q := fun q => segments_append "" q
  by_cases hnil : ss = []
  · subst hnil
    cases rooted <;> decide
  · have hbody : "/".intercalate ss ≠ "" := fun h => hnil ((intercalate_eq_empty_iff hss).mp h)
    have hsegments := segments_intercalate hnil hslash
    cases rooted with
    | true =>
        have hdrop : isKept "" = false := rfl
        simp [ofSegments, hsplit, hsegments, hdrop, filter_isKept hss]
    | false => simp [ofSegments, hbody, hsegments, filter_isKept hss]

/-- A path of kept segments determines them. -/
theorem ofSegments_inj (hss : ∀ s ∈ ss, Kept s) (hss' : ∀ s ∈ ss', Kept s) :
    ofSegments rooted ss = ofSegments rooted' ss' ↔ rooted = rooted' ∧ ss = ss' := by
  constructor
  · intro h
    have hroot : isRooted (ofSegments rooted ss) = rooted := isRooted_ofSegments hss
    have hsegments : (segments (ofSegments rooted ss)).filter isKept = ss :=
      filter_segments_ofSegments hss
    rw [h, isRooted_ofSegments hss'] at hroot
    rw [h, filter_segments_ofSegments hss'] at hsegments
    exact ⟨hroot.symm, hsegments.symm⟩
  · rintro ⟨rfl, rfl⟩
    rfl

end OfSegments

/-! ## Cleaned paths -/

/-- The segments that cleaning leaves of a path. -/
theorem kept_of_mem_cleanedSegments {p s : String} (h : s ∈ cleanedSegments p) : Kept s :=
  kept_of_mem_cleanSegments (fun _ => slash_not_mem_of_mem_segments) h

theorem clean_eq (p : String) : clean p = ofSegments (isRooted p) (cleanedSegments p) := rfl

theorem isRooted_clean (p : String) : isRooted (clean p) = isRooted p :=
  isRooted_ofSegments fun _ => kept_of_mem_cleanedSegments

theorem cleanedSegments_clean (p : String) : cleanedSegments (clean p) = cleanedSegments p := by
  rw [cleanedSegments, isRooted_clean, ← cleanSegments_filter_isKept, clean_eq,
    filter_segments_ofSegments fun _ => kept_of_mem_cleanedSegments]
  exact cleanSegments_cleanSegments fun _ => slash_not_mem_of_mem_segments

theorem clean_clean (p : String) : clean (clean p) = clean p := by
  rw [clean_eq (clean p), isRooted_clean, cleanedSegments_clean, clean_eq]

theorem clean_eq_clean_iff {p q : String} :
    clean p = clean q ↔ isRooted p = isRooted q ∧ cleanedSegments p = cleanedSegments q :=
  ofSegments_inj (fun _ => kept_of_mem_cleanedSegments) fun _ => kept_of_mem_cleanedSegments

/-! ## Joined paths -/

section Joining

variable {a b f g : String}

theorem join_pair (ha : a ≠ "") (b : String) : join [a, b] =
    ofSegments (isRooted a) (cleanSegments (isRooted a) (segments a ++ segments b)) := by
  by_cases hb : b = ""
  · have hsegments : segments "" = [""] := by decide
    subst hb
    simp [join, ha, clean_eq, cleanedSegments, cleanSegments, hsegments]
  · have happend : a ++ "/" ++ b = a ++ ("/" ++ b) := String.append_assoc
    have hrooted : isRooted (a ++ ("/" ++ b)) = isRooted a := isRooted_append _ ha
    have hjoin : join [a, b] = clean (a ++ "/" ++ b) := by simp [join, ha, hb]
    rw [hjoin, clean_eq, cleanedSegments, segments_append, happend, hrooted]

/-- A file in a directory. -/
theorem join_file (a : String) (hf : Plain f) :
    join [a, f] = ofSegments (isRooted a) (cleanedSegments a ++ [f]) := by
  have hfile : segments f = [f] := segments_of_not_mem hf.slash
  by_cases ha : a = ""
  · have hrooted : isRooted f = false := by
      have hkept : ∀ s ∈ [f], Kept s := by simpa using hf.toKept
      simpa using isRooted_intercalate hkept
    have hnone : segments "" = [""] := by decide
    have hstart : isRooted "" = false := by decide
    subst ha
    simp [join, hf.ne_empty, clean_eq, cleanedSegments, hfile, cleanSegments, hnone, hstart,
      hrooted, pushSegment_plain hf]
  · rw [join_pair ha, hfile, cleanSegments_concat hf, cleanedSegments]

theorem kept_of_mem_concat (hf : Plain f) : ∀ s ∈ cleanedSegments a ++ [f], Kept s :=
  List.forall_mem_append.mpr
    ⟨fun _ => kept_of_mem_cleanedSegments, List.forall_mem_singleton.mpr hf.toKept⟩

theorem join_eq_join_iff (hf : Plain f) (hg : Plain g) :
    join [a, f] = join [b, g] ↔ clean a = clean b ∧ f = g := by
  rw [join_file a hf, join_file b hg, clean_eq_clean_iff,
    ofSegments_inj (kept_of_mem_concat hf) (kept_of_mem_concat hg)]
  constructor
  · rintro ⟨hrooted, hsegments⟩
    obtain ⟨hdir, hfile⟩ := List.append_inj' hsegments rfl
    exact ⟨⟨hrooted, hdir⟩, List.singleton_inj.mp hfile⟩
  · rintro ⟨⟨hrooted, hdir⟩, rfl⟩
    exact ⟨hrooted, by rw [hdir]⟩

theorem join_clean (a : String) (hf : Plain f) : join [clean a, f] = join [a, f] :=
  (join_eq_join_iff hf hf).mpr ⟨clean_clean a, rfl⟩

/-- A directory may be joined first. -/
theorem join_join (a b : String) (hf : Plain f) : join [a, b, f] = join [join [a, b], f] := by
  by_cases ha : a = ""
  · by_cases hb : b = ""
    · simp [join, ha, hb]
    · have hjoin : join [a, b] = clean b := by simp [join, ha, hb]
      rw [hjoin, join_clean b hf]
      simp [join, ha, hb]
  · by_cases hb : b = ""
    · have hjoin : join [a, b] = clean a := by simp [join, ha, hb]
      rw [hjoin, join_clean a hf]
      simp [join, ha, hb]
    · have hjoin : join [a, b] = clean (a ++ "/" ++ b) := by simp [join, ha, hb]
      have hne : a ++ "/" ++ b ≠ "" := by simp
      rw [hjoin, join_clean _ hf]
      simp [join, ha, hb, hf.ne_empty, String.append_assoc]

theorem intercalate_concat_append (before : List String) (last e : String) :
    "/".intercalate (before ++ [last]) ++ e = "/".intercalate (before ++ [last ++ e]) := by
  cases before with
  | nil => simp
  | cons s before =>
      rw [String.intercalate_append_of_ne_nil (by simp) (by simp),
        String.intercalate_append_of_ne_nil (by simp) (by simp)]
      simp [String.append_assoc]

/-- An extension belongs to the file. -/
theorem join_append (a : String) {e : String} (hf : Plain f) (hfe : Plain (f ++ e)) :
    join [a, f] ++ e = join [a, f ++ e] := by
  have hbody : ∀ t, Plain t → "/".intercalate (cleanedSegments a ++ [t]) ≠ "" := by
    intro t ht hempty
    simpa using (intercalate_eq_empty_iff (kept_of_mem_concat ht)).mp hempty
  rw [join_file a hf, join_file a hfe]
  cases isRooted a with
  | true => simp [ofSegments, intercalate_concat_append, String.append_assoc]
  | false => simp [ofSegments, hbody f hf, hbody _ hfe, intercalate_concat_append]

end Joining

/-! ## Rooted paths -/

section Rooted

variable {p source : String}

theorem rooted_eq (p : String) : rooted p = ofSegments true (cleanSegments true (segments p)) := by
  have hroot : isRooted "/" = true := by decide
  have hsegments : segments "/" = ["", ""] := by decide
  rw [rooted, join_pair (by decide), hroot, hsegments]
  simp [cleanSegments]

theorem rooted_ofSegments {ss : List String} (hss : ∀ s ∈ ss, '/' ∉ s.toList) :
    rooted (ofSegments true (cleanSegments true ss)) = ofSegments true (cleanSegments true ss) := by
  have hkept : ∀ s ∈ cleanSegments true ss, Kept s := fun _ => kept_of_mem_cleanSegments hss
  rw [rooted_eq, ← cleanSegments_filter_isKept, filter_segments_ofSegments hkept,
    cleanSegments_cleanSegments hss]

theorem isRooted_rooted (p : String) : isRooted (rooted p) = true := by
  rw [rooted_eq]
  exact isRooted_ofSegments fun _ =>
    kept_of_mem_cleanSegments fun _ => slash_not_mem_of_mem_segments

theorem rooted_of_isRooted (h : isRooted p = true) : rooted p = clean p := by
  rw [rooted_eq, clean_eq, cleanedSegments, h]

theorem rooted_clean (h : isRooted p = true) : rooted (clean p) = clean p := by
  rw [rooted_of_isRooted (by rw [isRooted_clean, h]), clean_clean]

theorem rooted_rooted (p : String) : rooted (rooted p) = rooted p := by
  rw [rooted_eq p]
  exact rooted_ofSegments fun _ => slash_not_mem_of_mem_segments

theorem isRooted_dir (h : isRooted source = true) : isRooted (dir source) = true := by
  obtain ⟨rest, hrest⟩ := isRooted_iff.mp h
  unfold dir
  split
  · rename_i d f hcut
    have hsource := congrArg String.toList (Text.append_of_cutLast? hcut)
    rw [isRooted_clean, isRooted_iff]
    rw [hrest] at hsource
    cases hd : d.toList with
    | nil => exact ⟨[], by simp [hd]⟩
    | cons c cs =>
        obtain ⟨rfl, -⟩ : '/' = c ∧ _ := by simpa [hd] using hsource
        exact ⟨cs ++ ['/'], by simp [hd]⟩
  · rename_i hcut
    have hmem : '/' ∈ source.toList.reverse := by simp [hrest]
    exact absurd hmem (Text.not_mem_of_cutAux_eq_none (Option.map_eq_none_iff.mp hcut))

theorem clean_ne_empty (p : String) : clean p ≠ "" := by
  rw [clean_eq, ofSegments]
  split
  · simp
  · split
    · decide
    · assumption

theorem dir_ne_empty (source : String) : dir source ≠ "" := by
  unfold dir
  split
  · exact clean_ne_empty _
  · decide

theorem join_dir (h : isRooted source = true) (path : String) : join [dir source, path] =
    ofSegments true (cleanSegments true (segments (dir source) ++ segments path)) := by
  rw [join_pair (dir_ne_empty source), isRooted_dir h]

theorem rooted_join_dir (h : isRooted source = true) (path : String) :
    rooted (join [dir source, path]) = join [dir source, path] := by
  rw [join_dir h]
  apply rooted_ofSegments
  intro s hs
  rcases List.mem_append.mp hs with hs | hs
  · exact slash_not_mem_of_mem_segments hs
  · exact slash_not_mem_of_mem_segments hs

theorem intercalate_suffix {ss ts : List String} (h : ss <:+ ts) :
    ("/".intercalate ss).toList <:+ ("/".intercalate ts).toList := by
  obtain ⟨before, rfl⟩ := h
  by_cases hbefore : before = []
  · simp [hbefore]
  · by_cases hss : ss = []
    · simp [hss]
    · rw [String.intercalate_append_of_ne_nil hbefore hss]
      exact ⟨("/".intercalate before ++ "/").toList, by simp⟩

/-- The same path, read from the root, is no longer than read from a directory. -/
theorem rooted_eq_join_dir (h : isRooted source = true) {path : String}
    (hlength : (join [dir source, path]).toList.length ≤ (rooted path).toList.length) :
    rooted path = join [dir source, path] := by
  have hsuffix := intercalate_suffix (cleanSegments_suffix (segments (dir source)) (segments path))
  rw [join_dir h, rooted_eq] at hlength ⊢
  simp only [ofSegments, if_true, String.toList_append, List.length_append] at hlength ⊢
  have hbody := hsuffix.eq_of_length_le (by omega)
  rw [String.toList_injective hbody]

theorem filter_segments_clean (p : String) :
    (segments (clean p)).filter isKept = cleanedSegments p :=
  filter_segments_ofSegments fun _ => kept_of_mem_cleanedSegments

theorem foldl_segments_clean {fromRoot : Bool} (hp : isRooted p = false) (base : List String) :
    (segments (clean p)).foldl (pushSegment fromRoot) base =
      (segments p).foldl (pushSegment fromRoot) base := by
  rw [← foldl_filter_isKept, filter_segments_clean, cleanedSegments, hp]
  exact foldl_cleanSegments (fun _ => slash_not_mem_of_mem_segments) base

end Rooted

/-! ## Extensions -/

section Extensions

variable {p e : String}

theorem file_suffix (p : String) : (file p).toList <:+ p.toList := by
  unfold file
  split
  · rename_i d f hcut
    exact ⟨(d ++ "/").toList, by rw [Text.append_of_cutLast? hcut]; simp⟩
  · exact List.suffix_rfl

theorem file_of_not_mem (h : '/' ∉ p.toList) : file p = p := by
  rw [file, Text.cutLast?_of_not_mem rfl h]

theorem slash_not_mem_file (p : String) : '/' ∉ (file p).toList := by
  unfold file
  split
  · rename_i d f hcut
    exact Text.not_mem_of_cutLast? rfl hcut
  · rename_i hcut
    have hnone : '/' ∉ p.toList.reverse :=
      Text.not_mem_of_cutAux_eq_none (Option.map_eq_none_iff.mp hcut)
    simpa using hnone

theorem ext_of_not_mem (h : '.' ∉ (file p).toList) : ext p = "" := by
  rw [ext, Text.cutLast?_of_not_mem rfl h]

theorem ext_file (p : String) : ext (file p) = ext p := by
  rw [ext, file_of_not_mem (slash_not_mem_file p), ext]

/-- An end that starts at a dot is in the file. -/
theorem suffix_file (hslash : '/' ∉ e.toList) (h : '.' :: e.toList <:+ p.toList) :
    '.' :: e.toList <:+ (file p).toList := by
  unfold file
  split
  · rename_i d f hcut
    have hfile : '/' :: f.toList <:+ p.toList :=
      ⟨d.toList, by rw [Text.append_of_cutLast? hcut]; simp⟩
    rcases List.suffix_or_suffix_of_suffix h hfile with hend | hend
    · rcases List.suffix_cons_iff.mp hend with heq | hend
      · cases heq
      · exact hend
    · have hmem : '/' ∈ '.' :: e.toList := hend.subset List.mem_cons_self
      exact absurd (List.mem_of_ne_of_mem (by decide) hmem) hslash
  · exact h

theorem ext_eq_iff (hdot : '.' ∉ e.toList) (hslash : '/' ∉ e.toList) :
    ext p = "." ++ e ↔ Text.endsWith p ("." ++ e) = true := by
  have hchars : ("." ++ e).toList = '.' :: e.toList := by simp
  rw [Text.endsWith_iff, hchars]
  constructor
  · intro h
    refine List.IsSuffix.trans ?_ (file_suffix p)
    unfold ext at h
    split at h
    · rename_i s e' hcut
      exact ⟨s.toList, by rw [Text.append_of_cutLast? hcut, String.append_assoc, h]; simp⟩
    · exact absurd (congrArg String.toList h) (by simp)
  · intro h
    obtain ⟨before, hbefore⟩ := suffix_file hslash h
    have hfile : file p = String.ofList before ++ "." ++ e := by
      apply String.toList_injective
      simp [← hbefore]
    rw [ext, hfile, Text.cutLast?_append rfl hdot]

end Extensions

end Path

/-! ## Spelled out paths -/

namespace Target

open ClientGen.Path

theorem isRooted_relative (p : String) : isRooted (relative p) = isRooted p := by
  unfold relative
  dsimp only
  by_cases hp : isRooted p = true
  · rw [if_pos hp, isRooted_clean]
  · rw [if_neg hp]
    split
    · exact isRooted_clean p
    · rw [isRooted_append _ (by decide), eq_false_of_ne_true hp]
      decide

theorem foldl_segments_relative {p : String} {fromRoot : Bool} (hp : isRooted p = false)
    (base : List String) :
    (segments (relative p)).foldl (pushSegment fromRoot) base =
      (segments p).foldl (pushSegment fromRoot) base := by
  unfold relative
  dsimp only
  rw [if_neg (by simp [hp])]
  split
  · exact foldl_segments_clean hp base
  · have hsplit : segments ("./" ++ clean p) = "." :: segments (clean p) :=
      segments_append "." (clean p)
    rw [hsplit, List.foldl_cons, pushSegment_dot, foldl_segments_clean hp]

theorem rooted_relative (p : String) : rooted (relative p) = rooted p := by
  by_cases hp : isRooted p = true
  · have hrelative : relative p = clean p := by simp [relative, hp]
    rw [hrelative, rooted_clean hp, rooted_of_isRooted hp]
  · rw [rooted_eq, rooted_eq, cleanSegments, foldl_segments_relative (by simpa using hp),
      cleanSegments]

theorem clean_relative (p : String) : clean (relative p) = clean p := by
  rw [clean_eq_clean_iff]
  refine ⟨isRooted_relative p, ?_⟩
  have hrooted := isRooted_relative p
  unfold relative at hrooted ⊢
  dsimp only at hrooted ⊢
  split
  · exact cleanedSegments_clean p
  · split
    · exact cleanedSegments_clean p
    · rename_i hp hup
      have hsplit : segments ("./" ++ clean p) = "." :: segments (clean p) :=
        segments_append "." (clean p)
      rw [if_neg hp, if_neg hup] at hrooted
      rw [cleanedSegments, hrooted, hsplit, cleanSegments, List.foldl_cons, pushSegment_dot,
        ← isRooted_clean p]
      exact cleanedSegments_clean p

/-- A path that is spelled out stays as it is. -/
theorem relative_relative (p : String) : relative (relative p) = relative p := by
  have hrelative : ∀ q, relative q =
      if isRooted q then clean q
      else if Text.startsWith (clean q) "../" || clean q = ".." then clean q
      else "./" ++ clean q := fun _ => rfl
  rw [hrelative (relative p), isRooted_relative, clean_relative]
  exact (hrelative p).symm

/-- How an included path is spelled makes no difference to what it may mean. -/
theorem candidates_relative (source p : String) :
    candidates source (relative p) = candidates source p := by
  unfold candidates
  rw [isRooted_relative, rooted_relative]
  by_cases hp : isRooted p = true
  · rw [if_pos hp, if_pos hp]
  · have hjoin : join [dir source, relative p] = join [dir source, p] := by
      rw [join_pair (dir_ne_empty source), join_pair (dir_ne_empty source), cleanSegments,
        cleanSegments, List.foldl_append, List.foldl_append,
        foldl_segments_relative (by simpa using hp)]
    rw [hjoin]

/-- Every candidate is a cleaned path from the root. -/
theorem rooted_candidate {source path uri : String} (h : isRooted source = true)
    (huri : uri ∈ candidates source path) : rooted uri = uri := by
  unfold candidates at huri
  split at huri
  · obtain rfl := List.mem_singleton.mp huri
    exact rooted_rooted path
  · rcases List.mem_cons.mp huri with rfl | huri
    · exact rooted_join_dir h path
    · obtain rfl := List.mem_singleton.mp huri
      exact rooted_rooted path

end Target
end ClientGen
