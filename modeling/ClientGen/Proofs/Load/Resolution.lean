import ClientGen.Generate.Entries
import ClientGen.Proofs.Files.Path
import ClientGen.Proofs.Load.Closure

/-! # What an include means

An included path is looked up three times: by the walk that loads files, in the
table of names, and when the documents of an entry are gathered. The three agree on
every include whose target is a file (`loadAll_includes_agree`), but for one slip: the
table of names takes a path from the root to start at the including file first
(`include_taken_from_sibling`). An include of a directory loads its first file, which
the other two do not find.
-/

namespace ClientGen

/-! ## Documents by their paths -/

namespace Symbols

variable {docs : List Document} {d : Document} {path : String}

theorem docs_ofDocs (h : (docs.map (·.path)).Nodup) :
    (ofDocs docs).docs = docs.map fun d => (d.path, d) := by
  apply Table.ofList_of_nodup
  simpa [Function.comp_def] using h

theorem find?_ofDocs (h : (docs.map (·.path)).Nodup) :
    (ofDocs docs).docs.find? path = some d ↔ d ∈ docs ∧ d.path = path := by
  rw [docs_ofDocs h, Table.find?_eq_some_iff (by simpa [Table.keys, Function.comp_def] using h)]
  constructor
  · intro hmem
    obtain ⟨e, he, heq⟩ := List.mem_map.mp hmem
    obtain ⟨hpath, rfl⟩ := Prod.mk.inj heq
    exact ⟨he, hpath⟩
  · rintro ⟨hmem, rfl⟩
    exact List.mem_map.mpr ⟨d, hmem, rfl⟩

theorem has_ofDocs (h : (docs.map (·.path)).Nodup) :
    (ofDocs docs).docs.has path = true ↔ ∃ d ∈ docs, d.path = path := by
  rw [docs_ofDocs h, Table.has_iff]
  simp [Table.keys]

/-- From the directory of the including file the table of names finds what the scope
of an entry finds. -/
theorem includeTarget?_of_not_rooted (s : Symbols) (source : Document)
    (h : Path.isRooted path = false) :
    s.includeTarget? source path =
      (Generate.includedPath? s.docs source.path path).bind s.docs.find? := by
  have hfind : ∀ p, s.docs.has p = (s.docs.find? p).isSome := by
    intro p
    rw [Bool.eq_iff_iff, Table.has_iff, Option.isSome_iff_ne_none, ne_eq,
      Table.find?_eq_none_iff, Classical.not_not]
  unfold includeTarget? Generate.includedPath? Target.candidates
  rw [if_neg (by simp [h])]
  cases hnear : s.docs.find? (Path.join [Path.dir source.path, path]) with
  | some d => simp [hfind, hnear]
  | none => cases hroot : s.docs.find? (Path.rooted path) <;> simp [hfind, hnear, hroot]

end Symbols

namespace Load

open Source (Reporter Failure Code Diagnostic)
open Files (Memory SourceFile Kind)

/-! ## Targets in memory -/

section Targets

variable {m : Memory} {revise : Bool} {codes : List Code} {uri path : String}

theorem rooted_of_mem_keys {files : List (String × String)}
    (h : path ∈ (Memory.ofList files).files.keys) : Path.rooted path = path := by
  have hmem := Table.mem_keys_ofList.mp h
  simp only [List.map_map, List.mem_map, Function.comp] at hmem
  obtain ⟨⟨p, s⟩, -, rfl⟩ := hmem
  exact Path.rooted_rooted p

/-- A memory whose files stand at cleaned paths from the root, each once. -/
structure Tidy (m : Memory) : Prop where
  once : m.files.keys.Nodup
  rooted : ∀ path ∈ m.files.keys, Path.rooted path = path

theorem Tidy.ofList (files : List (String × String)) : Tidy (Memory.ofList files) :=
  ⟨Table.nodup_keys_ofList _, fun _ => rooted_of_mem_keys⟩

theorem openAt_file {s : String} (hm : Tidy m) (h : m.files.find? path = some s) :
    m.openAt path = .ok [.ofText path s (Kind.ofPath path)] := by
  have hroot : Path.rooted path = path :=
    hm.rooted path (List.mem_map_of_mem (Table.mem_of_find? h))
  simp [Memory.openAt, hroot, h]

/-- What opens, opens to the file at the path or to files beneath it. -/
theorem pathAt?_of_opens (revise : Bool) (hroot : Path.rooted uri = uri)
    (h : (m.openAt uri).toOption.isSome = true) :
    ∃ p, (Loader.ofMemory m revise).pathAt? uri = some p ∧ p ∈ m.files.keys ∧
      (uri ∈ m.files.keys → p = uri) ∧
      (uri ∉ m.files.keys → (Text.dropEnd uri "/" ++ "/").toList <+: p.toList) := by
  have hopened : (Loader.ofMemory m revise).pathAt? uri =
      ((m.openAt uri).toOption.bind List.head?).map (·.path) := rfl
  rw [hopened]
  unfold Memory.openAt at h ⊢
  dsimp only at h ⊢
  rw [hroot] at h ⊢
  cases hfile : m.files.find? uri with
  | some s =>
      have hmem : uri ∈ m.files.keys := List.mem_map_of_mem (Table.mem_of_find? hfile)
      exact ⟨uri, rfl, hmem, fun _ => rfl, fun habsent => absurd hmem habsent⟩
  | none =>
      rw [hfile] at h
      have habsent : uri ∉ m.files.keys := Table.find?_eq_none_iff.mp hfile
      cases hbeneath : m.beneath uri with
      | nil => simp [hbeneath, Except.toOption] at h
      | cons f fs =>
          have hf : f ∈ m.beneath uri := by simp [hbeneath]
          obtain ⟨⟨k, s⟩, hstored, rfl⟩ := List.mem_map.mp hf
          obtain ⟨hmem, hstart⟩ := List.mem_filter.mp (List.mem_mergeSort.mp hstored)
          refine ⟨k, rfl, List.mem_map_of_mem hmem, fun hfile => absurd hfile habsent, fun _ => ?_⟩
          exact Text.startsWith_iff.mp (Bool.and_eq_true_iff.mp hstart).1

/-- A target has the document of the file that it opens to. -/
theorem documentAt_of_pathAt? (hm : Tidy m)
    (h : (Loader.ofMemory m revise).pathAt? uri = some path) :
    (Loader.ofMemory m revise).documentAt codes uri =
      (Loader.ofMemory m revise).documentAt codes path := by
  obtain ⟨f, hhead, rfl⟩ := Option.map_eq_some_iff.mp h
  obtain ⟨fs, hopen, hfs⟩ := Option.bind_eq_some_iff.mp hhead
  cases fs with
  | nil => cases hfs
  | cons g rest =>
      obtain rfl : g = f := Option.some.inj hfs
      have hopened : m.openAt uri = .ok (g :: rest) := Source.ok_of_toOption hopen
      obtain ⟨s, hstored, hg⟩ := openAt_stored hm.once hopened
      have hsame : (Loader.ofMemory m revise).system.openAt g.path = .ok [g] :=
        (openAt_file hm hstored).trans (by rw [← hg])
      rw [Loader.documentAt_of_open hopened, Loader.documentAt_of_open hsame]

theorem documentAt_path {d : Document} (hm : Tidy m)
    (h : (Loader.ofMemory m revise).documentAt codes uri = .ok d) :
    (Loader.ofMemory m revise).documentAt codes d.path = .ok d := by
  rw [← documentAt_of_pathAt? hm (Loader.pathAt?_of_documentAt h), h]

theorem path_mem_keys {d : Document} (hm : Tidy m)
    (h : (Loader.ofMemory m revise).documentAt codes uri = .ok d) : d.path ∈ m.files.keys := by
  obtain ⟨f, fs, hopen, hcompile⟩ := Loader.documentAt_eq_ok h
  obtain ⟨s, hstored, -⟩ := openAt_stored hm.once hopen
  rw [(compileFile_fresh (Prod.ext hcompile rfl)).1]
  exact List.mem_map_of_mem (Table.mem_of_find? hstored)

theorem isRooted_of_documentAt {d : Document} (hm : Tidy m)
    (h : (Loader.ofMemory m revise).documentAt codes uri = .ok d) :
    Path.isRooted d.path = true := by
  rw [← hm.rooted d.path (path_mem_keys hm h), Path.isRooted_rooted]

end Targets

/-! ## Documents that were loaded -/

/-- Documents with different paths that hold whatever their includes mean. -/
structure Closed (l : Loader) (codes : List Code) (docs : List Document) : Prop where
  once : (docs.map (·.path)).Nodup
  stored : ∀ d ∈ docs, l.documentAt codes d.path = .ok d.unmarked
  targets : ∀ d ∈ docs, ∀ path ∈ d.includes, ∀ uri, l.target? d.path path = some uri →
    ∃ target ∈ docs, l.documentAt codes uri = .ok target.unmarked

def Loader.successors (l : Loader) (codes : List Code) (path : String) : List String :=
  match l.documentAt codes path with
  | .ok d => l.follow d.path d.includes
  | .error _ => []

section Loaded

variable {m : Memory} {revise : Bool} {size : Nat} {entries : List String} {r : Reporter}
  {docs : List Document}

/-- The documents that were loaded have different paths, and each is that of some target. -/
theorem documentAt_of_loadAll {l : Loader} (h : (l.loadAll size entries r).docs = .ok docs) :
    (docs.map (·.path)).Nodup ∧
      ∀ d ∈ docs, ∃ uri, l.documentAt r.nonfatal uri = .ok d.unmarked := by
  obtain ⟨w, hrun, rfl, -⟩ := loadAll_ok h
  have hstart : (Walk.start size r).Sound l r.nonfatal := .start l size r
  have hsound := Moves.sound (visitEntries_moves (List.Subset.refl _) hstart hrun) hstart
  refine ⟨?_, fun d hd => hsound.parsed d (Walk.mem_parsed_of_mem_docs hd)⟩
  rw [hsound.paths, List.nodup_reverse]
  exact hsound.once

theorem closed_of_loadAll (hm : Tidy m)
    (h : ((Loader.ofMemory m revise).loadAll size entries r).docs = .ok docs) :
    Closed (Loader.ofMemory m revise) r.nonfatal docs ∧
      ∀ entry ∈ entries, ∃ d ∈ docs, (Loader.ofMemory m revise).documentAt r.nonfatal
        (Target.normalize entry) = .ok d.unmarked := by
  obtain ⟨honce, hloaded⟩ := documentAt_of_loadAll h
  obtain ⟨w, hrun, rfl, -⟩ := loadAll_ok h
  have hstart : (Walk.start size r).Sound (Loader.ofMemory m revise) r.nonfatal := .start _ size r
  have hwithin : (Loader.ofMemory m revise).Within r.nonfatal m.files.keys :=
    fun _ _ hfound => path_mem_keys hm hfound
  have hlength : m.files.keys.length ≤ (Loader.ofMemory m revise).system.bound :=
    Nat.le_of_eq (List.length_map _)
  have hnext : ∀ uri d, (Loader.ofMemory m revise).documentAt r.nonfatal uri = .ok d →
      (Loader.ofMemory m revise).successors r.nonfatal d.path =
        (Loader.ofMemory m revise).follow d.path d.includes := by
    intro uri d hfound
    unfold Loader.successors
    rw [documentAt_path hm hfound]
  obtain ⟨starts, new, hstarts, hexplored⟩ :=
    visitEntries_explored hwithin hlength hnext hstart hrun
  obtain rfl : w.docs.map Document.unmarked = new := hexplored.docs
  have hlisted := hexplored.depthFirst [] [] (.done w.seen)
  rw [map_path_unmarked, List.append_nil, List.append_nil] at hlisted
  have hstored : ∀ d ∈ w.docs,
      (Loader.ofMemory m revise).documentAt r.nonfatal d.path = .ok d.unmarked := by
    intro d hd
    obtain ⟨uri, hfound⟩ := hloaded d hd
    exact documentAt_path hm hfound
  -- A path that is listed has its document, whatever target led to it.
  have hlist : ∀ uri p, (Loader.ofMemory m revise).pathAt? uri = some p →
      p ∈ w.docs.map (·.path) → ∃ d ∈ w.docs,
        (Loader.ofMemory m revise).documentAt r.nonfatal uri = .ok d.unmarked := by
    intro uri p hpath hp
    obtain ⟨d, hd, rfl⟩ := List.mem_map.mp hp
    exact ⟨d, hd, by rw [documentAt_of_pathAt? hm hpath, hstored d hd]⟩
  refine ⟨⟨honce, hstored, ?_⟩, ?_⟩
  · intro d hd path hpath uri huri
    obtain ⟨hopens, -⟩ := List.find?_eq_some_iff_append.mp huri
    obtain ⟨p, hp, -⟩ := pathAt?_of_opens revise
      (Target.rooted_candidate (isRooted_of_documentAt hm (hstored d hd))
        (List.mem_of_find?_eq_some huri)) hopens
    apply hlist uri p hp
    have hfollow : (Loader.ofMemory m revise).successors r.nonfatal d.path =
        (Loader.ofMemory m revise).follow d.path d.includes :=
      hnext d.path d.unmarked (hstored d hd)
    have hnexts : p ∈ (Loader.ofMemory m revise).successors r.nonfatal d.path := by
      rw [hfollow]
      exact List.mem_filterMap.mpr ⟨path, hpath, by simp [huri, hp]⟩
    exact (hlisted.covers.2 d.path (List.mem_map_of_mem hd) p hnexts).resolve_left List.not_mem_nil
  · intro entry hentry
    have hmem : (Loader.ofMemory m revise).pathAt? (Target.normalize entry) ∈ starts.map some := by
      rw [← hstarts]
      exact List.mem_map_of_mem hentry
    obtain ⟨p, hp, hpath⟩ := List.mem_map.mp hmem
    apply hlist _ p hpath.symm
    exact (hlisted.covers.1 p hp).resolve_left List.not_mem_nil

end Loaded

/-! ## The three ways -/

section Agreement

variable {m : Memory} {revise : Bool} {codes : List Code} {docs : List Document} {d D : Document}
  {path uri : String}

/-- The target of an include is a file exactly if its document stands there. -/
theorem path_eq_target_iff (hm : Tidy m) (hroot : Path.rooted uri = uri)
    (hfound : (Loader.ofMemory m revise).documentAt codes uri = .ok D) :
    D.path = uri ↔ uri ∈ m.files.keys := by
  have hpath := Loader.pathAt?_of_documentAt hfound
  obtain ⟨p, hp, -, hfile, -⟩ := pathAt?_of_opens revise hroot
    (Loader.opens_of_documentAt hfound)
  obtain rfl : D.path = p := Option.some.inj (hpath.symm.trans hp)
  constructor
  · intro hsame
    rw [← hsame]
    exact path_mem_keys hm hfound
  · exact hfile

/-- Among the candidates of an include, only the target itself can be the path of its
document: what lies beneath one candidate is longer than the other. -/
theorem path_eq_target_of_mem (hm : Tidy m) (hsource : Path.isRooted d.path = true)
    (htarget : (Loader.ofMemory m revise).target? d.path path = some uri)
    (hfound : (Loader.ofMemory m revise).documentAt codes uri = .ok D)
    (hmem : D.path ∈ Target.candidates d.path path) : D.path = uri := by
  have hroot := Target.rooted_candidate hsource (List.mem_of_find?_eq_some htarget)
  have hopens : ((Loader.ofMemory m revise).system.openAt D.path).toOption.isSome = true :=
    Loader.opens_of_documentAt (documentAt_path hm hfound)
  have hpath := Loader.pathAt?_of_documentAt hfound
  obtain ⟨p, hp, -, hfile, hbeneath⟩ := pathAt?_of_opens revise hroot
    (Loader.opens_of_documentAt hfound)
  obtain rfl : D.path = p := Option.some.inj (hpath.symm.trans hp)
  by_cases hkey : uri ∈ m.files.keys
  · exact hfile hkey
  · have hlong := (hbeneath hkey).length_le
    unfold Loader.target? Target.candidates at htarget
    unfold Target.candidates at hmem
    by_cases hp : Path.isRooted path = true
    · rw [if_pos hp] at htarget hmem
      have huri := List.mem_singleton.mp (List.mem_of_find?_eq_some htarget)
      rw [List.mem_singleton.mp hmem, huri]
    · rw [if_neg hp] at htarget hmem
      rcases List.mem_cons.mp hmem with hnear | hfar
      · -- The first candidate opens, so it is the target.
        rw [List.find?_cons, ← hnear, hopens] at htarget
        exact Option.some.inj htarget
      · have hfar := List.mem_singleton.mp hfar
        have huri := List.mem_of_find?_eq_some htarget
        rcases List.mem_cons.mp huri with huri | huri
        · rw [hfar, huri]
          apply Path.rooted_eq_join_dir hsource
          have hdrop : uri.toList.length ≤ (Text.dropEnd uri "/" ++ "/").toList.length := by
            have hkeep := Text.length_le_dropEnd uri "/"
            rw [String.toList_append, List.length_append]
            exact hkeep
          rw [← huri, ← hfar]
          omega
        · rw [hfar, List.mem_singleton.mp huri]

/-- The scope of an entry follows an include exactly where its target is a file. -/
theorem Closed.includedPath?_iff (hm : Tidy m) (h : Closed (Loader.ofMemory m revise) codes docs)
    (hd : d ∈ docs) (hD : D ∈ docs)
    (htarget : (Loader.ofMemory m revise).target? d.path path = some uri)
    (hfound : (Loader.ofMemory m revise).documentAt codes uri = .ok D.unmarked) :
    Generate.includedPath? (Symbols.ofDocs docs).docs d.path path = some D.path ↔
      D.path = uri := by
  constructor
  · intro hincluded
    have hsource := isRooted_of_documentAt hm (h.stored d hd)
    exact path_eq_target_of_mem (D := D.unmarked) hm hsource htarget hfound
      (List.mem_of_find?_eq_some hincluded)
  · intro hsame
    obtain ⟨-, before, after, hsplit, hbefore⟩ := List.find?_eq_some_iff_append.mp htarget
    apply List.find?_eq_some_iff_append.mpr
    refine ⟨(Symbols.has_ofDocs h.once).mpr ⟨D, hD, rfl⟩, before, after, hsame ▸ hsplit, ?_⟩
    -- Whatever stands before the target does not open, so it is no document.
    intro c hc
    have hclosed := hbefore c hc
    rw [Bool.not_eq_true'] at hclosed ⊢
    by_contra hhas
    obtain ⟨e, he, rfl⟩ := (Symbols.has_ofDocs h.once).mp (by simpa using hhas)
    rw [Loader.opens_of_documentAt (h.stored e he)] at hclosed
    cases hclosed

theorem Closed.includeTarget?_iff (hm : Tidy m) (h : Closed (Loader.ofMemory m revise) codes docs)
    (hd : d ∈ docs) (hD : D ∈ docs)
    (htarget : (Loader.ofMemory m revise).target? d.path path = some uri)
    (hdocument : (Loader.ofMemory m revise).documentAt codes uri = .ok D.unmarked) :
    (Symbols.ofDocs docs).includeTarget? d path = some D ↔
      if Path.isRooted path ∧ (Symbols.ofDocs docs).docs.has (Path.join [Path.dir d.path, path])
      then D.path = Path.join [Path.dir d.path, path] else D.path = uri := by
  have hfind : ∀ p, (Symbols.ofDocs docs).docs.find? p = some D ↔ D.path = p := by
    intro p
    rw [Symbols.find?_ofDocs h.once]
    exact and_iff_right hD
  by_cases hp : Path.isRooted path = true
  · have huri : uri = Path.rooted path := by
      have hmem := List.mem_of_find?_eq_some htarget
      rw [Target.candidates, if_pos hp] at hmem
      exact List.mem_singleton.mp hmem
    unfold Symbols.includeTarget?
    by_cases hhas : (Symbols.ofDocs docs).docs.has (Path.join [Path.dir d.path, path]) = true
    · rw [if_pos ⟨hp, hhas⟩, ← hfind]
      obtain ⟨N, hN⟩ := Table.exists_find? (Table.has_iff.mp hhas)
      simp [hN]
    · have hnone := Table.find?_eq_none_iff.mpr (fun hmem => hhas (Table.has_iff.mpr hmem))
      rw [if_neg (fun hboth => hhas hboth.2), ← hfind, huri]
      simp [hnone]
  · rw [if_neg (fun hboth => hp hboth.1), ← h.includedPath?_iff hm hd hD htarget hdocument,
      Symbols.includeTarget?_of_not_rooted _ _ (by simpa using hp)]
    constructor
    · intro hbound
      obtain ⟨p, hincluded, hfound⟩ := Option.bind_eq_some_iff.mp hbound
      rw [hincluded, (hfind p).mp hfound]
    · intro hincluded
      rw [hincluded]
      exact (hfind D.path).mpr rfl

end Agreement

/-- What the three ways of looking up an include have in common. For all files in
memory and all entries that can be loaded: if a walk takes an include of a loaded
document to a target, then the document of the target is loaded too. The scope of an
entry follows the include to this document exactly if the target is the path of a
file. So does the table of names, unless a path from the root is also the path of
another document from the directory of the including file: then it finds that one. -/
theorem loadAll_includes_agree (files : List (String × String)) (revise : Bool) (size : Nat)
    (entries : List String) (r : Reporter) (docs : List Document)
    (hdocs : ((Loader.ofMemory (Memory.ofList files) revise).loadAll size entries r).docs =
      .ok docs) :
    let m := Memory.ofList files
    let l := Loader.ofMemory m revise
    let s := Symbols.ofDocs docs
    ∀ d ∈ docs, ∀ path ∈ d.includes, ∀ w, Moves l r.nonfatal entries (Walk.start size r) w →
      ∀ uri, l.resolve? w.cache d.path path = some uri →
        ∃ D ∈ docs, l.documentAt r.nonfatal uri = .ok D.unmarked ∧
          (D.path = uri ↔ (m.content? uri).isSome) ∧
          (Generate.includedPath? s.docs d.path path = some D.path ↔ D.path = uri) ∧
          (s.includeTarget? d path = some D ↔
            if Path.isRooted path ∧ s.docs.has (Path.join [Path.dir d.path, path])
            then D.path = Path.join [Path.dir d.path, path] else D.path = uri) := by
  intro m l s d hd path hpath w hmoves uri hresolved
  have hm : Tidy m := .ofList files
  obtain ⟨hclosed, -⟩ := closed_of_loadAll hm hdocs
  have hsound := Moves.sound hmoves (Walk.Sound.start l size r)
  rw [hsound.resolve?] at hresolved
  have hroot : Path.rooted uri = uri :=
    Target.rooted_candidate (isRooted_of_documentAt hm (hclosed.stored d hd))
      (List.mem_of_find?_eq_some hresolved)
  obtain ⟨D, hD, hfound⟩ := hclosed.targets d hd path hpath uri hresolved
  refine ⟨D, hD, hfound, ?_, hclosed.includedPath?_iff hm hd hD hresolved hfound,
    hclosed.includeTarget?_iff hm hd hD hresolved hfound⟩
  have hfile : D.path = uri ↔ uri ∈ m.files.keys :=
    path_eq_target_iff (D := D.unmarked) hm hroot hfound
  rw [hfile, Memory.content?, hroot, Option.isSome_iff_ne_none, ne_eq, Table.find?_eq_none_iff,
    Classical.not_not]

/-- A file that includes two files of one name, from the root and from its directory. -/
def namesakes : List (String × String) :=
  [("a/m.thrift", "include '/x.thrift'\ninclude 'x.thrift'"), ("x.thrift", "struct T \x7b\x7d"),
    ("a/x.thrift", "struct T \x7b\x7d")]

theorem includes_namesakes :
    ((Loader.ofMemory (Memory.ofList namesakes) true).loadAll 1 ["a/m.thrift"] {}).docs.toOption.map
        (·.map fun d => (d.path, d.includes)) =
      some [("/a/m.thrift", ["/x.thrift", "x.thrift"]), ("/x.thrift", []),
        ("/a/x.thrift", [])] := by
  decide +kernel

theorem loadAll_includes_agree_namesakes :
    let m := Memory.ofList namesakes
    let l := Loader.ofMemory m true
    ∃ docs, (l.loadAll 1 ["a/m.thrift"] {}).docs = .ok docs ∧
      ∃ d ∈ docs, d.path = "/a/m.thrift" ∧ "x.thrift" ∈ d.includes ∧
        l.resolve? (Walk.start 1 {}).cache d.path "x.thrift" = some "/a/x.thrift" ∧
        ∃ D ∈ docs, D.path = "/a/x.thrift" ∧
          Generate.includedPath? (Symbols.ofDocs docs).docs d.path "x.thrift" = some D.path ∧
          (Symbols.ofDocs docs).includeTarget? d "x.thrift" = some D := by
  intro m l
  obtain ⟨docs, hdocs, hlisted⟩ := Option.map_eq_some_iff.mp includes_namesakes
  have hok : (l.loadAll 1 ["a/m.thrift"] {}).docs = .ok docs := Source.ok_of_toOption hdocs
  have hmem : ("/a/m.thrift", ["/x.thrift", "x.thrift"]) ∈
      docs.map fun d => (d.path, d.includes) := by
    rw [hlisted]
    exact List.mem_cons_self
  obtain ⟨d, hd, heq⟩ := List.mem_map.mp hmem
  obtain ⟨hpath, hincludes⟩ := Prod.mk.inj heq
  have hinclude : "x.thrift" ∈ d.includes := by simp [hincludes]
  have hresolve : l.resolve? (Walk.start 1 {}).cache d.path "x.thrift" = some "/a/x.thrift" := by
    rw [hpath]
    decide +kernel
  have hrelative : ¬ (Path.isRooted "x.thrift" = true ∧
      (Symbols.ofDocs docs).docs.has (Path.join [Path.dir d.path, "x.thrift"]) = true) :=
    fun h => absurd h.1 (by decide)
  have hfile : (m.content? "/a/x.thrift").isSome = true := by decide +kernel
  obtain ⟨D, hD, -, hstored, hincluded, htarget⟩ := loadAll_includes_agree namesakes true 1
    ["a/m.thrift"] {} docs hok d hd "x.thrift" hinclude (Walk.start 1 {}) .refl "/a/x.thrift"
    hresolve
  rw [if_neg hrelative] at htarget
  have hsame : D.path = "/a/x.thrift" := hstored.mpr hfile
  exact ⟨docs, hok, d, hd, hpath, hinclude, hresolve, D, hD, hsame, hincluded.mpr hsame,
    htarget.mpr hsame⟩

/-- The table of names takes a path from the root for one from the directory of the
including file, as neither the walk nor the scope of an entry does. -/
theorem include_taken_from_sibling :
    let l := Loader.ofMemory (Memory.ofList namesakes) true
    (l.loadAll 1 ["a/m.thrift"] {}).docs.toOption.map (fun docs =>
        docs.flatMap fun d => d.includes.map fun path =>
          (path, l.target? d.path path,
            Generate.includedPath? (Symbols.ofDocs docs).docs d.path path,
            ((Symbols.ofDocs docs).includeTarget? d path).map (·.path))) =
      some [("/x.thrift", some "/x.thrift", some "/x.thrift", some "/a/x.thrift"),
        ("x.thrift", some "/a/x.thrift", some "/a/x.thrift", some "/a/x.thrift")] := by
  decide +kernel

/-- An include of a directory loads a file that nothing else finds. -/
example :
    let l := Loader.ofMemory (Memory.ofList [("m.thrift", "include 'd'"), ("d/b.thrift", "")]) true
    (l.loadAll 1 ["m.thrift"] {}).docs.toOption.map (fun docs =>
        docs.flatMap fun d => d.includes.map fun path =>
          ((l.target? d.path path).bind l.pathAt?,
            Generate.includedPath? (Symbols.ofDocs docs).docs d.path path,
            ((Symbols.ofDocs docs).includeTarget? d path).map (·.path))) =
      some [(some "/d/b.thrift", none, none)] := by
  decide +kernel

end Load
end ClientGen
