import ClientGen.Files.Disk
import ClientGen.Proofs.Collection.Table
import ClientGen.Proofs.Files.Climbing
import ClientGen.Proofs.Source.Failure

/-! # Writing and reading a disk

A text is written to the path that is joined to a root, and looked for at the path that is read
from the root before it is joined. The two places are one exactly if the path does not climb
(`join_rooted_eq_iff`), so what climbs is written outside, or elsewhere, and not found again
(`write_readsBack_iff`). A name that is no text is written too, but is never opened.
-/

namespace ClientGen

/-! ## Directories of rooted paths -/

namespace Path

variable {names : List String} {name : String}

theorem ofSegments_eq_intercalate (h : names ≠ []) :
    ofSegments true names = "/".intercalate ("" :: names) := by
  rw [String.intercalate_cons_of_ne_nil h, String.empty_append]
  rfl

theorem dir_ofSegments (hkept : ∀ s ∈ names ++ [name], Kept s) (hup : ".." ∉ names) :
    dir (ofSegments true (names ++ [name])) = ofSegments true names := by
  obtain ⟨hnames, hname⟩ := List.forall_mem_append.mp hkept
  have hslash : '/' ∉ name.toList := (hname name List.mem_cons_self).slash
  have hcut : ofSegments true (names ++ [name]) = "/".intercalate ("" :: names) ++ "/" ++ name := by
    rw [ofSegments_eq_intercalate (by simp), ← List.cons_append,
      String.intercalate_append_of_ne_nil (by simp) (by simp), String.intercalate_singleton]
  have hdir : "/".intercalate ("" :: names) ++ "/" = "/".intercalate ("" :: (names ++ [""])) := by
    rw [← List.cons_append, String.intercalate_append_of_ne_nil (by simp) (by simp),
      String.intercalate_singleton, String.append_empty]
  have hsegments : segments ("/".intercalate ("" :: (names ++ [""]))) = "" :: (names ++ [""]) := by
    refine segments_intercalate (by simp) fun s hs => ?_
    rcases List.mem_cons.mp hs with rfl | hs
    · simp
    · rcases List.mem_append.mp hs with hs | hs
      · exact (hnames s hs).slash
      · simp_all
  have hrooted : isRooted ("/".intercalate ("" :: (names ++ [""]))) = true := by
    rw [← ofSegments_eq_intercalate (by simp)]
    exact isRooted_iff.mpr ⟨("/".intercalate (names ++ [""])).toList, by simp [ofSegments]⟩
  have hclean : dir (ofSegments true (names ++ [name])) =
      clean ("/".intercalate ("" :: (names ++ [""]))) := by
    rw [dir, hcut, Text.cutLast?_append rfl hslash, ← hdir]
  rw [hclean, clean_eq, cleanedSegments, hrooted, hsegments,
    cleanSegments_of_down (by simpa using hup)]
  simp [isKept, filter_isKept hnames]

/-- A path that names something inside a directory, at any depth. -/
def Beneath (dir path : String) : Prop := ∃ more ≠ [], descent path = descent dir ++ more

theorem beneath_ofSegments_take {n : Nat} (hkept : ∀ s ∈ names, Kept s) (hup : ".." ∉ names)
    (hn : n < names.length) :
    Beneath (ofSegments true (names.take n)) (ofSegments true names) := by
  refine ⟨names.drop n, by simpa using hn, ?_⟩
  rw [descent_ofSegments hkept hup, descent_ofSegments
    (fun s hs => hkept s (List.mem_of_mem_take hs)) fun h => hup (List.mem_of_mem_take h),
    List.take_append_drop]

end Path

namespace Files

open ClientGen.Path

/-! ## Opening -/

section Opening

variable {d : Disk} {root uri text : String} {f : SourceFile}

namespace Tree

theorem inner_ofSegments {names : List String} (hkept : ∀ s ∈ names, Kept s) :
    inner (ofSegments true names) = ofSegments false names := by
  by_cases hnil : names = []
  · subst hnil
    decide
  · have hroot : "/" = ofSegments true [] := by decide
    have hne : ofSegments true names ≠ "/" := fun h =>
      hnil ((ofSegments_inj hkept (by simp)).mp (h.trans hroot)).2
    rw [inner, if_neg hne, ofSegments_of_ne_nil hnil hkept]
    exact Text.dropStart_append "/" _

theorem inner_pathOf (uri : String) :
    inner (pathOf uri) = ofSegments false (descent (Name.ofLocator uri)) := by
  rw [pathOf, rooted_eq_descent, inner_ofSegments fun _ => kept_of_mem_descent]

theorem inner_pathOf_eq_dot_iff : inner (pathOf uri) = "." ↔ descent (Name.ofLocator uri) = [] := by
  have hdot : "." = ofSegments false [] := by decide
  rw [inner_pathOf, hdot, ofSegments_inj (fun _ => kept_of_mem_descent) (by simp)]
  simp

theorem isText_inner (uri : String) :
    Name.isText (inner (pathOf uri)) = Name.isText (pathOf uri) := by
  rw [inner_pathOf, pathOf, rooted_eq_descent]
  by_cases hnil : descent (Name.ofLocator uri) = []
  · rw [hnil]
    decide
  · have hslash : ¬ Name.mark = '/' := by decide
    rw [ofSegments_of_ne_nil hnil fun _ => kept_of_mem_descent]
    simp [Name.isText, ofSegments, hslash]

theorem join_inner (hroot : isRooted root = true) (uri : String) :
    join [root, inner (pathOf uri)] = join [root, pathOf uri] := by
  have hkept : ∀ s ∈ descent (Name.ofLocator uri), Kept s := fun _ => kept_of_mem_descent
  have hup := up_not_mem_descent (Name.ofLocator uri)
  rw [inner_pathOf, pathOf, rooted_eq_descent, join_eq_ofSegments hroot, join_eq_ofSegments hroot]
  simp only [ascent_ofSegments hkept hup, descent_ofSegments hkept hup]

/-- Where no files of directories are wanted, only a file opens to a file. -/
theorem file_of_openAt {tree : Tree} (h : tree.openAt (fun _ => false) uri = .ok [f]) :
    ∃ text interruption, tree (inner (pathOf uri)) = .ok { entry := .file text interruption } ∧
      f = sourceFile (pathOf uri) (.file text interruption) := by
  unfold openAt at h
  dsimp only at h
  split at h
  · cases h
  · cases h
  · rename_i text interruption refusal hallowed htree
    obtain rfl : refusal = none := Option.eq_none_iff_forall_not_mem.mpr hallowed
    exact ⟨text, interruption, htree, (List.singleton_inj.mp (Except.ok.inj h)).symm⟩
  · cases h
  · simp [childFiles, sortTexts, pure, Except.pure] at h

end Tree

namespace Disk

open ClientGen.Files.Tree (inner pathOf)

theorem tree_eq_file_iff {p : String} {interruption : Option Cause} :
    d.tree root p = .ok { entry := .file text interruption } ↔
      Name.isText p = true ∧ p ≠ "." ∧ interruption = none ∧
        d.files.find? (join [root, p]) = some text := by
  by_cases htext : Name.isText p = true
  · cases hfind : d.files.find? (join [root, p]) with
    | some found =>
        by_cases hdot : p = "."
        · subst hdot
          simp [tree, htext, look, hfind]
        · simp [tree, htext, look, hfind, hdot, and_comm, eq_comm]
    | none =>
        by_cases hdir : d.isDirectory (join [root, p]) = true
        · simp [tree, htext, look, hfind, hdir]
        · simp [tree, htext, look, hfind, hdir]
  · simp [tree, htext]

/-- What a locator opens to is the text at its path from the root. -/
theorem openAt_eq_iff (hroot : isRooted root = true) :
    (∀ wanted, ∃ f, (d.tree root).openAt wanted uri = .ok [f] ∧ f.body = .text text) ↔
      Name.isText (pathOf uri) = true ∧ descent (Name.ofLocator uri) ≠ [] ∧
        d.files.find? (join [root, pathOf uri]) = some text := by
  rw [← Tree.join_inner hroot, ← Tree.isText_inner, ne_eq, ← Tree.inner_pathOf_eq_dot_iff]
  constructor
  · intro h
    obtain ⟨f, hf, hbody⟩ := h fun _ => false
    obtain ⟨found, interruption, htree, rfl⟩ := Tree.file_of_openAt hf
    obtain ⟨htext, hdot, rfl, hfind⟩ := tree_eq_file_iff.mp htree
    obtain rfl : found = text := Body.text.inj hbody
    exact ⟨htext, hdot, hfind⟩
  · rintro ⟨htext, hdot, hfind⟩ wanted
    have htree : d.tree root (inner (pathOf uri)) = .ok { entry := .file text none } :=
      tree_eq_file_iff.mpr ⟨htext, hdot, rfl, hfind⟩
    refine ⟨Tree.sourceFile (pathOf uri) (.file text none), ?_, rfl⟩
    simp only [Tree.openAt, htree]

end Disk
end Opening

/-! ## Writing -/

namespace Disk

section Writing

variable {d d' : Disk} {root uri path text : String}

/-- A path that a disk takes a file at, once the directories above it are there. -/
structure Takes (d : Disk) (path : String) : Prop where
  free : d.isDirectory path = false
  nul : Name.hasNul path = false
  short : (isLongName (base path) || isLongPath path) = false

theorem makeDirectory_eq_ok (h : d.makeDirectory path = .ok d') :
    d' = { d with directories := distinct (d.directories ++ (ancestors path ++ [path])) } := by
  unfold makeDirectory at h
  dsimp only at h
  split at h
  · cases h
  · exact (Except.ok.inj h).symm

theorem writeFile_eq_ok_iff : d.writeFile path text = .ok d' ↔
    ∃ made, d.makeDirectory (dir path) = .ok made ∧ made.Takes path ∧
      d' = { made with files := made.files.insert path text } := by
  unfold writeFile
  dsimp only
  cases d.makeDirectory (dir path) with
  | error fault => simp
  | ok made =>
      constructor
      · intro h
        dsimp only at h
        split at h
        · cases h
        · split at h
          · cases h
          · split at h
            · cases h
            · rename_i hfree hnul hshort
              exact ⟨made, rfl, ⟨by simpa using hfree, by simpa using hnul, by simpa using hshort⟩,
                (Except.ok.inj h).symm⟩
      · rintro ⟨_, hmade, htakes, rfl⟩
        obtain rfl := Except.ok.inj hmade
        simp [htakes.free, htakes.nul, htakes.short]

/-- Whether a file can be written does not depend on its text. -/
theorem exists_writeFile (h : d.writeFile path text = .ok d') (other : String) :
    ∃ d'', d.writeFile path other = .ok d'' := by
  obtain ⟨made, hmade, htakes, -⟩ := writeFile_eq_ok_iff.mp h
  exact ⟨_, writeFile_eq_ok_iff.mpr ⟨made, hmade, htakes, rfl⟩⟩

/-- Writing a file changes its own text and no other. -/
theorem find?_writeFile (h : d.writeFile path text = .ok d') (p : String) :
    d'.files.find? p = if p = path then some text else d.files.find? p := by
  obtain ⟨made, hmade, -, rfl⟩ := writeFile_eq_ok_iff.mp h
  rw [makeDirectory_eq_ok hmade]
  exact Table.find?_insert d.files path text

/-- Writing a file makes the directories above it and no other. -/
theorem directories_writeFile {names : List String} (hkept : ∀ s ∈ names, Kept s)
    (hup : ".." ∉ names) (h : d.writeFile (ofSegments true names) text = .ok d') :
    ∀ p ∈ d'.directories, p ∈ d.directories ∨ Beneath p (ofSegments true names) := by
  obtain ⟨made, hmade, htakes, rfl⟩ := writeFile_eq_ok_iff.mp h
  have hne : names ≠ [] := by
    rintro rfl
    have hfree := htakes.free
    simp [isDirectory, ofSegments] at hfree
  obtain ⟨above, name, rfl⟩ : ∃ above name, names = above ++ [name] :=
    ⟨_, _, (List.dropLast_concat_getLast hne).symm⟩
  have habove : ".." ∉ above := fun h => hup (List.mem_append_left _ h)
  have hkeptAbove : ∀ s ∈ above, Kept s := fun s hs => hkept s (List.mem_append_left _ hs)
  have hbeneath : ∀ n ≤ above.length,
      Beneath (ofSegments true (above.take n)) (ofSegments true (above ++ [name])) := by
    intro n hn
    rw [← List.take_append_of_le_length hn]
    exact beneath_ofSegments_take hkept hup (by simpa using Nat.lt_succ_of_le hn)
  have hsegments : cleanedSegments (ofSegments true above) = above := by
    rw [cleanedSegments, cleanSegments_ofSegments hkeptAbove habove]
  rw [dir_ofSegments hkept habove] at hmade
  rw [makeDirectory_eq_ok hmade]
  intro p hp
  rcases List.mem_append.mp (mem_distinct.mp hp) with hp | hp
  · exact .inl hp
  · refine .inr ?_
    rcases List.mem_append.mp hp with hp | hp
    · rw [ancestors, hsegments] at hp
      obtain ⟨n, hn, rfl⟩ := List.mem_map.mp hp
      exact hbeneath n (List.mem_range.mp hn).le
    · obtain rfl := List.mem_singleton.mp hp
      simpa using hbeneath above.length le_rfl

/-- A path joined to a root stays beneath it if it goes down again all that it took back. -/
theorem beneath_join_iff (hroot : isRooted root = true) (p : String) :
    Beneath root (join [root, "/", p]) ↔
      ∃ more ≠ [], descent p = (descent root).rtake (ascent p) ++ more := by
  have hsplit : descent root =
      (descent root).rdrop (ascent p) ++ (descent root).rtake (ascent p) := by
    rw [List.rdrop, List.rtake, List.take_append_drop]
  have hplace : descent (join [root, "/", p]) =
      (descent root).rdrop (ascent p) ++ descent p := by
    rw [join_slash hroot, descent_ofSegments (kept_of_mem_rdrop_append root p _)
      (up_not_mem_rdrop_append root p _)]
  refine exists_congr fun more => and_congr_right fun _ => ?_
  rw [hplace]
  conv_lhs => rhs; rw [hsplit, List.append_assoc]
  exact List.append_right_inj _

/-- What becomes of a text that is written to a locator beneath a root. The one file that changes
stands at the locator's path joined to the root, and directories are made only above it. That is
beneath the root exactly if the path goes down again the names that it took back. The text is
found under the locator exactly if the path is a text without NUL, names something, and either
has no step up or is joined to the root of the disk. -/
theorem write_readsBack_iff {d : Disk} {root uri : String} (hroot : rooted root = root)
    (hwrites : ∃ text d', d.write root uri text = .ok d') :
    let name := Name.ofLocator uri
    let target := join [root, "/", name]
    (∀ text d', d.write root uri text = .ok d' →
        (∀ p, d'.files.find? p = if p = target then some text else d.files.find? p) ∧
          ∀ p ∈ d'.directories, p ∈ d.directories ∨ Beneath p target) ∧
      (Beneath root target ↔
        ∃ more ≠ [], descent name = (descent root).rtake (ascent name) ++ more) ∧
      ((∀ text d', d.write root uri text = .ok d' → ∀ wanted,
          ∃ f, (d'.tree root).openAt wanted uri = .ok [f] ∧ f.body = .text text) ↔
        Name.isText (Tree.pathOf uri) = true ∧ descent name ≠ [] ∧
          (root = "/" ∨ ascent name = 0)) := by
  intro name target
  have hrooted : isRooted root = true := hroot ▸ isRooted_rooted root
  have hclean : clean root = root := (rooted_of_isRooted hrooted).symm.trans hroot
  have htarget : target = ofSegments true ((descent root).rdrop (ascent name) ++ descent name) :=
    join_slash hrooted name
  have hfind : ∀ {text d'}, d.write root uri text = .ok d' →
      ∀ p, d'.files.find? p = if p = target then some text else d.files.find? p :=
    fun h => find?_writeFile h
  refine ⟨fun text d' h => ⟨hfind h, ?_⟩, beneath_join_iff hrooted name, ?_⟩
  · have hwrite : d.writeFile target text = .ok d' := h
    rw [htarget] at hwrite ⊢
    exact directories_writeFile (kept_of_mem_rdrop_append root name _)
      (up_not_mem_rdrop_append root name _) hwrite
  · have hsame : join [root, Tree.pathOf uri] = target ↔ root = "/" ∨ ascent name = 0 := by
      have hjoin : target = join [root, name] := by
        rw [htarget, join_eq_ofSegments hrooted]
      rw [hjoin, Tree.pathOf, join_rooted_eq_iff hrooted, descent_eq_nil_iff hrooted, hclean]
    rw [← hsame]
    constructor
    · intro hreads
      obtain ⟨text, d', h⟩ := hwrites
      obtain ⟨htext, hne, hseen⟩ := (openAt_eq_iff hrooted).mp (hreads text d' h)
      refine ⟨htext, hne, ?_⟩
      by_contra hother
      -- elsewhere, the same text is found whatever was written
      obtain ⟨d'', h'⟩ := exists_writeFile h (text ++ "x")
      obtain ⟨-, -, hseen'⟩ := (openAt_eq_iff hrooted).mp (hreads (text ++ "x") d'' h')
      rw [hfind h, if_neg hother] at hseen
      rw [hfind h', if_neg hother, hseen] at hseen'
      simpa using congrArg String.length (Option.some.inj hseen')
    · rintro ⟨htext, hne, hplace⟩ text d' h
      refine (openAt_eq_iff hrooted).mpr ⟨htext, hne, ?_⟩
      rw [hfind h, if_pos hplace]

theorem write_readsBack_iff_escaped :
    let d : Disk := { directories := ["/out"] }
    let uri := "gen/./a%20b.ts?draft#top"
    ∃ d', d.write "/out" uri "text" = .ok d' ∧ d'.files = [("/out/gen/a b.ts", "text")] ∧
      ∀ wanted, ∃ f, (d'.tree "/out").openAt wanted uri = .ok [f] ∧ f.body = .text "text" := by
  intro d uri
  have hfiles : (d.write "/out" uri "text").toOption.map (·.files) =
      some [("/out/gen/a b.ts", "text")] := by
    decide +kernel
  obtain ⟨d', hwrite, hd'⟩ := Option.map_eq_some_iff.mp hfiles
  have hok : d.write "/out" uri "text" = .ok d' := Source.ok_of_toOption hwrite
  have hwrites : ∃ text d', d.write "/out" uri text = .ok d' := ⟨_, _, hok⟩
  obtain ⟨-, -, hreads⟩ := write_readsBack_iff (by decide) hwrites
  have hplace : Name.isText (Tree.pathOf uri) = true ∧ descent (Name.ofLocator uri) ≠ [] ∧
      ascent (Name.ofLocator uri) = 0 := by
    decide +kernel
  have hfound := hreads.mpr ⟨hplace.1, hplace.2.1, .inr hplace.2.2⟩
  exact ⟨d', hok, hd', hfound "text" d' hok⟩

/-- A locator that climbs is written outside the root and is not found again. -/
theorem written_outside_root :
    let d : Disk := { directories := ["/out"] }
    ∃ d', d.write "/out" "../x" "text" = .ok d' ∧ d'.files = [("/x", "text")] ∧
      ¬ Beneath "/out" "/x" ∧
        ((d'.tree "/out").openAt Tree.isInterface "../x").toOption = none := by
  intro d
  have hfacts : (d.write "/out" "../x" "text").toOption.map (fun d' =>
      (d'.files, ((d'.tree "/out").openAt Tree.isInterface "../x").toOption.isNone)) =
        some ([("/x", "text")], true) := by
    decide +kernel
  obtain ⟨d', hwrite, hd'⟩ := Option.map_eq_some_iff.mp hfacts
  obtain ⟨hfiles, hopen⟩ := Prod.mk.inj hd'
  have hbeneath : ¬ Beneath "/out" "/x" := by
    rintro ⟨more, -, hmore⟩
    have hx : descent "/x" = ["x"] := by decide
    have hout : descent "/out" = ["out"] := by decide
    simp [hx, hout] at hmore
  exact ⟨d', Source.ok_of_toOption hwrite, hfiles, hbeneath, Option.isNone_iff_eq_none.mp hopen⟩

end Writing

end Disk
end Files
end ClientGen
