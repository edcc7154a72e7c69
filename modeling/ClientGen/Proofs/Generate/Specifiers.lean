import ClientGen.Generate.Basic
import ClientGen.Proofs.Files.Climbing

/-! # Import specifiers

A module names another one by the path that leads to it from its own directory. Joined to that
directory, this path always leads to the other module (`join_dir_importPath`). To be read as a
path it also has to start with a dot and a slash, or with two dots and a slash, and a path that
starts with a dot is taken to do so. That fails for a module that stands for the directory of the
importing one, or for the directory around it, and for one that is reached by going down to a
name that starts with a dot (`marking_steps_iff`).
-/

namespace ClientGen

/-! ## Relative paths -/

namespace Path

section Relative

variable {rooted : Bool} {kept ss here there : List String} {p source target : String}

/-- As many steps up as there are segments take these back. -/
theorem foldl_replicate_up (h : ".." ∉ ss) (kept : List String) :
    (List.replicate ss.length "..").foldl (pushSegment rooted) (ss ++ kept) = kept := by
  induction ss with
  | nil => rfl
  | cons s ss ih =>
      obtain ⟨hs, hss⟩ : ¬ ".." = s ∧ ".." ∉ ss := by simpa using h
      have hback : pushSegment rooted (s :: (ss ++ kept)) ".." = ss ++ kept := by
        simp [pushSegment, Ne.symm hs]
      rw [List.length_cons, List.replicate_succ, List.cons_append, List.foldl_cons, hback, ih hss]

theorem exists_of_diverge (here there : List String) : ∃ common,
    here = common ++ (diverge here there).1 ∧ there = common ++ (diverge here there).2 ∧
      ∀ a ∈ (diverge here there).1.head?, ∀ b ∈ (diverge here there).2.head?, a ≠ b := by
  fun_induction diverge here there with
  | case1 as a bs ih =>
      obtain ⟨common, hhere, hthere, hheads⟩ := ih
      exact ⟨a :: common, congrArg (a :: ·) hhere, congrArg (a :: ·) hthere, hheads⟩
  | case2 a as b bs hne => exact ⟨[], rfl, rfl, by simpa using hne⟩
  | case3 as bs hends =>
      refine ⟨[], rfl, rfl, fun a ha b hb => ?_⟩
      obtain ⟨as, rfl⟩ := List.head?_eq_some_iff.mp ha
      obtain ⟨bs, rfl⟩ := List.head?_eq_some_iff.mp hb
      exact (hends a as b bs rfl rfl).elim

/-- The steps from one directory to another: up to where their paths part, then down. -/
def steps (here there : List String) : List String :=
  List.replicate (diverge here there).1.length ".." ++ (diverge here there).2

theorem foldl_cleanedSegments (p : String) :
    (cleanedSegments p).foldl (pushSegment (isRooted p)) [] = (cleanedSegments p).reverse :=
  List.reverse_eq_iff.mp (cleanSegments_cleanSegments fun _ => slash_not_mem_of_mem_segments)

/-- The steps to a cleaned path lead to it. -/
theorem foldl_steps (hhere : ".." ∉ here) (hkept : ∀ s ∈ here, Kept s)
    (hthere : there.foldl (pushSegment rooted) [] = there.reverse) :
    (steps here there).foldl (pushSegment rooted) here.reverse = there.reverse := by
  obtain ⟨common, hcommon, hdown, -⟩ := exists_of_diverge here there
  unfold steps
  generalize (diverge here there).1 = up at *
  generalize (diverge here there).2 = down at *
  subst hcommon hdown
  obtain ⟨hfront, hup⟩ : ".." ∉ common ∧ ".." ∉ up := by simpa using hhere
  have hfilter : common.filter isKept = common :=
    filter_isKept fun s hs => hkept s (List.mem_append_left up hs)
  have hclimb : (List.replicate up.reverse.length "..").foldl (pushSegment rooted)
      (up.reverse ++ common.reverse) = common.reverse :=
    foldl_replicate_up (by simpa using hup) common.reverse
  rw [List.length_reverse] at hclimb
  rw [List.foldl_append, foldl_pushSegment_of_down hfront, hfilter, List.append_nil] at hthere
  rw [List.foldl_append, List.reverse_append, hclimb, hthere]

theorem kept_of_mem_steps (hthere : ∀ s ∈ there, Kept s) {s : String} (h : s ∈ steps here there) :
    Kept s := by
  rcases List.mem_append.mp h with h | h
  · obtain rfl := List.eq_of_mem_replicate h
    exact ⟨by decide, by decide, by decide⟩
  · obtain ⟨common, -, hdown, -⟩ := exists_of_diverge here there
    exact hthere s (hdown ▸ List.mem_append_right common h)

theorem steps_eq_nil_iff : steps here there = [] ↔ here = there := by
  obtain ⟨common, hhere, hthere, hheads⟩ := exists_of_diverge here there
  unfold steps
  generalize (diverge here there).1 = up at *
  generalize (diverge here there).2 = down at *
  subst hhere hthere
  rw [List.append_cancel_left_eq]
  cases up with
  | nil => simp [eq_comm]
  | cons a up =>
      cases down with
      | nil => simp
      | cons b down =>
          have hne : a ≠ b := by simpa using hheads
          simp [hne]

/-- Between paths that are not rooted there is always a way, if the one to start from does not
climb. -/
theorem relative?_eq (hsource : isRooted source = false) (htarget : isRooted target = false)
    (hdown : ".." ∉ cleanedSegments source) : relative? source target =
      some (ofSegments false (steps (cleanedSegments source) (cleanedSegments target))) := by
  obtain ⟨common, hhere, -, -⟩ :=
    exists_of_diverge (cleanedSegments source) (cleanedSegments target)
  have hclimbs : ".." ∉ (diverge (cleanedSegments source) (cleanedSegments target)).1 :=
    fun h => hdown (hhere ▸ List.mem_append_right common h)
  unfold relative?
  simp only [isRooted_clean, cleanedSegments_clean, hsource, htarget, clean_eq_clean_iff,
    bne_self_eq_false, Bool.false_eq_true, if_false, true_and, List.map_const']
  split
  · rename_i hsame
    rw [steps_eq_nil_iff.mpr hsame]
    rfl
  · rename_i hsame
    have hbody : "/".intercalate (steps (cleanedSegments source) (cleanedSegments target)) ≠ "" :=
      fun hempty => hsame (steps_eq_nil_iff.mp ((intercalate_eq_empty_iff fun s =>
        kept_of_mem_steps fun _ => kept_of_mem_cleanedSegments).mp hempty))
    rw [if_neg (by simpa using hclimbs), ofSegments, if_neg (by decide), if_neg hbody]
    rfl

end Relative

/-! ## Directories and stems -/

section Below

variable {p source e : String} {before ss : List String} {last : String}

/-- A path without steps up has a directory without them. -/
theorem dir_of_down (hrelative : isRooted source = false) (hdown : ".." ∉ segments source) :
    isRooted (dir source) = false ∧ ".." ∉ cleanedSegments (dir source) := by
  unfold dir
  split
  · rename_i d f hcut
    have hsource : source = d ++ ("/" ++ f) := by
      rw [← String.append_assoc, Text.append_of_cutLast? hcut]
    have hd : d ≠ "" := by
      rintro rfl
      rw [hsource, Bool.eq_false_iff] at hrelative
      exact hrelative (isRooted_iff.mpr ⟨f.toList, by simp⟩)
    have hrooted : isRooted (d ++ "/") = false := by
      rw [isRooted_append _ hd, ← isRooted_append ("/" ++ f) hd, ← hsource, hrelative]
    have hsegments : ".." ∉ segments (d ++ "/") := by
      have hlast : segments (d ++ "/") = segments d ++ [""] := by
        rw [← String.append_empty (s := d ++ "/"), segments_append]
        rfl
      rw [hsource, ← String.append_assoc, segments_append] at hdown
      rw [hlast]
      simpa using fun h => hdown (List.mem_append_left _ h)
    refine ⟨by rw [isRooted_clean, hrooted], ?_⟩
    rw [cleanedSegments_clean, cleanedSegments, cleanSegments_of_down hsegments]
    exact fun h => hsegments (List.mem_filter.mp h).1
  · exact ⟨by decide, by decide⟩

theorem ext_suffix_file (p : String) : (ext p).toList <:+ (file p).toList := by
  unfold ext
  split
  · rename_i s e hcut
    exact ⟨s.toList, by rw [Text.append_of_cutLast? hcut]; simp⟩
  · exact List.nil_suffix

theorem stem_append_ext (p : String) : stem p ++ ext p = p := by
  obtain ⟨before, hbefore⟩ := (ext_suffix_file p).trans (file_suffix p)
  have hp : String.ofList before ++ ext p = p := by
    apply String.toList_injective
    simpa using hbefore
  rw [stem]
  generalize ext p = e at *
  rw [← hp, Text.dropEnd_append]

theorem isRooted_stem (h : isRooted p = false) : isRooted (stem p) = false := by
  by_cases hempty : stem p = ""
  · rw [hempty]
    decide
  · rw [← isRooted_append (ext p) hempty, stem_append_ext, h]

/-- Only the last segment of a path has an extension. -/
theorem exists_segments_stem (p : String) : ∃ before last,
    segments (stem p) = before ++ [last] ∧ segments p = before ++ [last ++ ext p] := by
  obtain ⟨before, last, hstem⟩ : ∃ before last, segments (stem p) = before ++ [last] :=
    ⟨_, _, (List.dropLast_concat_getLast (segments_ne_nil (stem p))).symm⟩
  refine ⟨before, last, hstem, ?_⟩
  have hslash : ∀ s ∈ before ++ [last], '/' ∉ s.toList :=
    fun s hs => slash_not_mem_of_mem_segments (hstem ▸ hs)
  have hext : '/' ∉ (ext p).toList := fun h => slash_not_mem_file p ((ext_suffix_file p).subset h)
  have hp : p = "/".intercalate (before ++ [last ++ ext p]) := by
    have hjoined : "/".intercalate (before ++ [last]) = stem p := by
      rw [← hstem, intercalate_segments]
    rw [← intercalate_concat_append, hjoined, stem_append_ext]
  obtain ⟨hbefore, hlast⟩ := List.forall_mem_append.mp hslash
  have hname : '/' ∉ (last ++ ext p).toList := by
    simpa using ⟨hlast last List.mem_cons_self, hext⟩
  exact (congrArg segments hp).trans (segments_intercalate (by simp)
    (List.forall_mem_append.mpr ⟨hbefore, List.forall_mem_singleton.mpr hname⟩))

theorem file_of_segments (h : segments p = before ++ [last]) : file p = last := by
  have hlast : '/' ∉ last.toList := slash_not_mem_of_mem_segments (p := p) (by simp [h])
  have hp : p = "/".intercalate (before ++ [last]) := by
    rw [← h, intercalate_segments]
  cases before with
  | nil =>
      obtain rfl : p = last := by simpa using hp
      exact file_of_not_mem hlast
  | cons s before =>
      rw [String.intercalate_append_of_ne_nil (by simp) (by simp)] at hp
      rw [file, hp, String.intercalate_singleton, Text.cutLast?_append rfl hlast]

/-- A stem climbs only if it consists of the step up. -/
theorem cleanedSegments_stem (hrelative : isRooted p = false) (hdown : ".." ∉ segments p)
    (h : ".." ∈ cleanedSegments (stem p)) : cleanedSegments (stem p) = [".."] := by
  obtain ⟨before, last, hstem, hsegments⟩ := exists_segments_stem p
  have hbefore : ".." ∉ before := fun h => hdown (hsegments ▸ List.mem_append_left _ h)
  rw [cleanedSegments, isRooted_stem hrelative, hstem] at h ⊢
  by_cases hlast : last = ".."
  · subst hlast
    have hkept : ∀ s ∈ (before.filter isKept).reverse, s ≠ ".." := by
      rintro s hs rfl
      exact hbefore (List.mem_filter.mp (List.mem_reverse.mp hs)).1
    rw [cleanSegments, List.foldl_append, foldl_pushSegment_of_down hbefore, List.append_nil,
      List.foldl_cons, List.foldl_nil] at h ⊢
    cases hrest : (before.filter isKept).reverse with
    | nil => rfl
    | cons top rest =>
        rw [hrest] at h hkept
        have htop : top ≠ ".." := hkept top List.mem_cons_self
        have hback : pushSegment false (top :: rest) ".." = rest := by simp [pushSegment, htop]
        rw [hback] at h
        exact absurd rfl (hkept ".." (List.mem_cons_of_mem top (List.mem_reverse.mp h)))
  · have hall : ".." ∉ before ++ [last] := by simpa [Ne.symm hlast] using hbefore
    rw [cleanSegments_of_down hall] at h
    exact absurd (List.mem_filter.mp h).1 hall

theorem clean_intercalate (hne : ss ≠ []) (hkept : ∀ s ∈ ss, Kept s) (hdown : ".." ∉ ss) :
    clean ("/".intercalate ss) = "/".intercalate ss := by
  rw [clean, segments_intercalate hne fun s hs => (hkept s hs).slash, cleanSegments_of_down hdown,
    filter_isKept hkept, isRooted_intercalate hkept, ofSegments_of_ne_nil hne hkept]

/-- A cleaned path keeps all its segments, unless it is a single dot. -/
theorem kept_of_clean (hclean : clean p = p) (hrelative : isRooted p = false)
    (hsegments : segments p = before ++ [last]) : ∀ s ∈ before, Kept s := by
  have hp : p = ofSegments false (cleanedSegments p) := by rw [← hrelative, ← clean_eq, hclean]
  cases hkept : cleanedSegments p with
  | nil =>
      have hdot : segments p = [] ++ ["."] := by
        rw [hp, hkept]
        decide
      obtain ⟨rfl, -⟩ := List.append_inj' (hdot.symm.trans hsegments) rfl
      simp
  | cons k ks =>
      have hall : ∀ t ∈ k :: ks, Kept t := fun t ht => kept_of_mem_cleanedSegments (hkept ▸ ht)
      have hsame : segments p = k :: ks := by
        rw [hp, hkept, ofSegments_of_ne_nil (List.cons_ne_nil k ks) hall,
          segments_intercalate (List.cons_ne_nil k ks) fun t ht => (hall t ht).slash]
      rw [← hsame, hsegments] at hall
      exact (List.forall_mem_append.mp hall).1

/-- A cleaned path keeps its form without its extension, if this leaves a name. -/
theorem clean_stem (hclean : clean p = p) (hrelative : isRooted p = false)
    (hdown : ".." ∉ segments p) (hfile : Plain (file (stem p))) : clean (stem p) = stem p := by
  obtain ⟨before, last, hstem, hsegments⟩ := exists_segments_stem p
  rw [file_of_segments hstem] at hfile
  have hjoined : "/".intercalate (before ++ [last]) = stem p := by
    rw [← hstem, intercalate_segments]
  rw [← hjoined]
  refine clean_intercalate (by simp) (List.forall_mem_append.mpr
    ⟨kept_of_clean hclean hrelative hsegments, List.forall_mem_singleton.mpr hfile.toKept⟩) ?_
  have hfront : ".." ∉ before := fun h => hdown (hsegments ▸ List.mem_append_left _ h)
  simpa [Ne.symm hfile.ne_up] using hfront

end Below

end Path

/-! ## Marked specifiers -/

namespace Generate

open ClientGen.Path

section Specifiers

variable {here there parts : List String} {source target specifier : String}

/-- A specifier that is read as a path and not as the name of a package. -/
def Marked (specifier : String) : Prop :=
  Text.startsWith specifier "./" = true ∨ Text.startsWith specifier "../" = true

instance (specifier : String) : Decidable (Marked specifier) := instDecidableOr

/-- A path starts with a name and a slash if the name is its first segment of several. -/
theorem startsWith_slash_iff {p d : String} (hd : '/' ∉ d.toList) :
    Text.startsWith p (d ++ "/") = true ↔ ∃ s rest, segments p = d :: s :: rest := by
  constructor
  · intro h
    obtain ⟨cs, hcs⟩ := Text.startsWith_iff.mp h
    have hp : p = d ++ "/" ++ String.ofList cs := by
      apply String.toList_injective
      rw [← hcs]
      simp
    obtain ⟨s, rest, hrest⟩ := List.exists_cons_of_ne_nil (segments_ne_nil (String.ofList cs))
    refine ⟨s, rest, ?_⟩
    rw [hp, segments_append, segments_of_not_mem hd, hrest, List.singleton_append]
  · rintro ⟨s, rest, hsegments⟩
    have hp : p = d ++ "/" ++ "/".intercalate (s :: rest) := by
      rw [← intercalate_segments p, hsegments]
      simp [String.append_assoc]
    rw [hp]
    exact Text.startsWith_append _ _

theorem marked_iff : Marked specifier ↔
    ∃ d s rest, segments specifier = d :: s :: rest ∧ (d = "." ∨ d = "..") := by
  have hhere : ("./" : String) = "." ++ "/" := rfl
  have hup : ("../" : String) = ".." ++ "/" := rfl
  rw [Marked, hhere, hup, startsWith_slash_iff (by decide), startsWith_slash_iff (by decide)]
  constructor
  · rintro (⟨s, rest, h⟩ | ⟨s, rest, h⟩)
    · exact ⟨".", s, rest, h, .inl rfl⟩
    · exact ⟨"..", s, rest, h, .inr rfl⟩
  · rintro ⟨d, s, rest, h, rfl | rfl⟩
    · exact .inl ⟨s, rest, h⟩
    · exact .inr ⟨s, rest, h⟩

theorem startsWith_dot_append {s : String} (hs : s ≠ "") (tail : String) :
    Text.startsWith (s ++ tail) "." = Text.startsWith s "." := by
  obtain ⟨c, cs, hcs⟩ := List.exists_cons_of_ne_nil (show s.toList ≠ [] by simpa using hs)
  rw [Bool.eq_iff_iff, Text.startsWith_iff, Text.startsWith_iff]
  simp [hcs]

/-- The path of these segments is marked, once a dot and a slash stand before it if it does not
start with a dot. -/
def Marking : List String → Prop
  | [] => False
  | s :: rest => Text.startsWith s "." = true → s = ".." ∧ rest ≠ []

theorem marked_ofSegments_iff (hkept : ∀ s ∈ parts, Kept s) :
    Marked (if Text.startsWith (ofSegments false parts) "." then ofSegments false parts
      else "./" ++ ofSegments false parts) ↔ Marking parts := by
  cases parts with
  | nil =>
      have hempty : ¬ Marked (ofSegments false []) := by decide
      have hdot : Text.startsWith (ofSegments false []) "." = true := by decide
      rw [if_pos hdot]
      simpa [Marking] using hempty
  | cons s rest =>
      have hs := hkept s List.mem_cons_self
      have hsegments := segments_intercalate (List.cons_ne_nil s rest) fun t ht => (hkept t ht).slash
      have hfirst : Text.startsWith ("/".intercalate (s :: rest)) "." = Text.startsWith s "." := by
        cases rest with
        | nil => simp
        | cons t ts =>
            have hjoined : "/".intercalate (s :: t :: ts) = s ++ ("/" ++ "/".intercalate (t :: ts)) := by
              simp [String.append_assoc]
            rw [hjoined, startsWith_dot_append hs.ne_empty]
      rw [ofSegments_of_ne_nil (List.cons_ne_nil s rest) hkept, hfirst]
      by_cases hdot : Text.startsWith s "." = true
      · rw [if_pos hdot, marked_iff, hsegments]
        cases rest with
        | nil => simp [Marking, hdot]
        | cons t ts => simp [Marking, hdot, hs.ne_dot]
      · have hmarked : segments ("./" ++ "/".intercalate (s :: rest)) = "." :: s :: rest := by
          have hhere : "./" ++ "/".intercalate (s :: rest) =
            "." ++ "/" ++ "/".intercalate (s :: rest) := rfl
          have hone : segments "." = ["."] := by decide
          rw [hhere, segments_append, hone, hsegments, List.singleton_append]
        rw [if_neg hdot, marked_iff, hmarked]
        simp [Marking, hdot]

/-- Steps are not marked if there are none, if they are a single step up, or if they go down to a
name with a dot before it. -/
theorem marking_steps_iff (hthere : ".." ∈ there → there = [".."]) :
    Marking (steps here there) ↔ there ≠ here ∧ (∀ d, here ≠ there ++ [d]) ∧
      ∀ d rest, there = here ++ d :: rest → Text.startsWith d "." = false := by
  obtain ⟨common, hcommon, hdown, hheads⟩ := exists_of_diverge here there
  unfold steps
  generalize (diverge here there).1 = up at *
  generalize (diverge here there).2 = down at *
  subst hcommon hdown
  cases up with
  | nil =>
      cases down with
      | nil => simp [Marking]
      | cons d rest =>
          have hup : ¬ (d = ".." ∧ rest ≠ []) := by
            rintro ⟨rfl, hrest⟩
            have honly := congrArg List.length (hthere (by simp))
            simp only [List.length_append, List.length_cons, List.length_nil] at honly
            exact hrest (List.length_eq_zero_iff.mp (by omega))
          simp [Marking, hup]
  | cons a up =>
      cases down with
      | nil =>
          cases up with
          | nil =>
              have hdot : Text.startsWith ".." "." = true := by decide
              simp [Marking, hdot]
          | cons b up => simp [Marking, List.replicate_succ]
      | cons d rest =>
          have hne : a ≠ d := by simpa using hheads
          simp [Marking, List.replicate_succ, hne, Ne.symm hne]

theorem importPath_eq (hsource : isRooted source = false) (hdown : ".." ∉ segments source)
    (htarget : isRooted target = false) {parts : List String}
    (hparts : steps (cleanedSegments (dir source)) (cleanedSegments (stem target)) = parts) :
    importPath source target = if Text.startsWith (ofSegments false parts) "."
      then ofSegments false parts else "./" ++ ofSegments false parts := by
  obtain ⟨hdir, hhere⟩ := dir_of_down hsource hdown
  unfold importPath
  dsimp only
  rw [relative?_eq hdir (isRooted_stem htarget) hhere, hparts]

/-- The import path of a module, joined to the directory of the importing module, is the path of
that module without its extension. -/
theorem join_dir_importPath (hsource : isRooted source = false) (hdown : ".." ∉ segments source)
    (htarget : isRooted target = false) :
    join [dir source, importPath source target] = clean (stem target) := by
  obtain ⟨hdir, hhere⟩ := dir_of_down hsource hdown
  have hstem := isRooted_stem htarget
  have hthere : ∀ s ∈ cleanedSegments (stem target), Kept s := fun _ => kept_of_mem_cleanedSegments
  have hagain := foldl_cleanedSegments (stem target)
  rw [hstem] at hagain
  have hway : (segments (importPath source target)).filter isKept =
      steps (cleanedSegments (dir source)) (cleanedSegments (stem target)) := by
    have hsteps : ∀ s ∈ steps (cleanedSegments (dir source)) (cleanedSegments (stem target)),
        Kept s := fun _ => kept_of_mem_steps hthere
    have hone : segments "." = ["."] := by decide
    have hdot : isKept "." = false := by decide
    rw [importPath_eq hsource hdown htarget rfl]
    generalize steps (cleanedSegments (dir source)) (cleanedSegments (stem target)) = parts at *
    split
    · exact filter_segments_ofSegments hsteps
    · have hmark : ("./" : String) = "." ++ "/" := rfl
      rw [hmark, segments_append, hone, List.singleton_append,
        List.filter_cons_of_neg (by simp [hdot])]
      exact filter_segments_ofSegments hsteps
  have hstart : (segments (dir source)).foldl (pushSegment false) [] =
      (cleanedSegments (dir source)).reverse := by
    rw [cleanedSegments, hdir, cleanSegments, List.reverse_reverse]
  rw [join_pair (dir_ne_empty source), hdir, cleanSegments, List.foldl_append, hstart,
    ← foldl_filter_isKept (segments (importPath source target)), hway,
    foldl_steps hhere (fun _ => kept_of_mem_cleanedSegments) hagain, List.reverse_reverse,
    clean_eq, hstem]

/-- A specifier leads from the directory of the importing module to the path of the other module
without its extension. It is marked unless it stands for that directory or the one around it, or
goes down to a name that starts with a dot. -/
theorem importPath_leads (hsource : isRooted source = false) (hsourceDown : ".." ∉ segments source)
    (htarget : isRooted target = false) (htargetDown : ".." ∉ segments target) :
    join [dir source, importPath source target] = clean (stem target) ∧
      (clean target = target → Plain (file (stem target)) →
        join [dir source, importPath source target] = stem target) ∧
      (Marked (importPath source target) ↔
        cleanedSegments (stem target) ≠ cleanedSegments (dir source) ∧
          (∀ d, cleanedSegments (dir source) ≠ cleanedSegments (stem target) ++ [d]) ∧
          ∀ d rest, cleanedSegments (stem target) = cleanedSegments (dir source) ++ d :: rest →
            Text.startsWith d "." = false) := by
  have hjoin := join_dir_importPath hsource hsourceDown htarget
  refine ⟨hjoin, fun hclean hfile => ?_, ?_⟩
  · rw [hjoin, clean_stem hclean htarget htargetDown hfile]
  · rw [importPath_eq hsource hsourceDown htarget rfl, marked_ofSegments_iff fun _ =>
      kept_of_mem_steps fun _ => kept_of_mem_cleanedSegments]
    exact marking_steps_iff (cleanedSegments_stem htarget htargetDown)

theorem importPath_leads_up : Marked (importPath "a/b/s.ts" "a/types/t.ts") ∧
    join [dir "a/b/s.ts", importPath "a/b/s.ts" "a/types/t.ts"] = "a/types/t" := by
  obtain ⟨-, hjoin, hmarked⟩ := importPath_leads (by decide : isRooted "a/b/s.ts" = false)
    (by decide) (by decide : isRooted "a/types/t.ts" = false) (by decide)
  have hfile : Plain (file (stem "a/types/t.ts")) :=
    ⟨⟨by decide, by decide, by decide⟩, by decide⟩
  have hstem : stem "a/types/t.ts" = "a/types/t" := by decide
  have hhere : cleanedSegments (dir "a/b/s.ts") = ["a", "b"] := by decide
  have hthere : cleanedSegments (stem "a/types/t.ts") = ["a", "types", "t"] := by decide
  refine ⟨hmarked.mpr ?_, (hjoin (by decide) hfile).trans hstem⟩
  rw [hhere, hthere]
  simp

/-- The name of a directory that starts with a dot is taken for a mark. -/
theorem importPath_unmarked : ∃ source target : String,
    clean source = source ∧ isRooted source = false ∧ ".." ∉ segments source ∧
      clean target = target ∧ isRooted target = false ∧ ".." ∉ segments target ∧
      importPath source target = ".gen/types" ∧ ¬ Marked (importPath source target) :=
  ⟨"a/index.ts", "a/.gen/types.ts", by decide, by decide, by decide, by decide, by decide,
    by decide, by decide, by decide⟩

end Specifiers

end Generate
end ClientGen
