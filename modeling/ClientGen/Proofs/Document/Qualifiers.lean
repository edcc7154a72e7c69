import ClientGen.Proofs.Document.Symbols
import ClientGen.Proofs.Text.Lines

/-! # Names qualified by an include

A declaration of an included file is named by the stem of the file, a dot and its own name.
Such a name is cut at its first dot: it finds the declaration exactly if the stem has no dot
itself and the including document declares nothing so spelled
(`resolve?_included`, `dotted_stem_not_found`).
-/

namespace ClientGen

namespace Path

variable {p : String}

/-- A path that ends in a file has this as its last segment. -/
theorem base_of_file (h : file p ≠ "") : base p = file p := by
  obtain ⟨before, hbefore⟩ := file_suffix p
  have hchars : (file p).toList ≠ [] := by simpa using h
  have hp : p ≠ "" := by
    rintro rfl
    exact hchars (List.append_eq_nil_iff.mp hbefore).2
  have hlast : ∀ c ∈ p.toList.getLast?, (c == '/') = false := by
    intro c hc
    rw [← hbefore, List.getLast?_append_of_ne_nil _ hchars] at hc
    have hmem : c ∈ (file p).toList := List.mem_of_getLast? hc
    exact beq_false_of_ne fun hslash => slash_not_mem_file p (hslash ▸ hmem)
  have htrim : Text.trimEndBy (· == '/') p = p := by
    rw [Text.trimEndBy, Text.dropTrailing_of_last hlast, String.ofList_toList]
  simp only [base, if_neg hp, htrim]

/-- The name of the file of a path, without its extension. -/
def fileStem (p : String) : String := stem (base p)

end Path

namespace Symbols

open ClientGen.Path (fileStem)

variable {s : Symbols} {source D : Document} {st : Statement} {path name scope : String}

/-- The table qualifies the names of an included file by its stem, if the path ends in a
file or has no dot in its last segment. -/
theorem qualifier_eq_fileStem (h : Path.file path = "" → '.' ∉ (Path.base path).toList) :
    qualifier path = fileStem path := by
  rw [qualifier, fileStem, Path.stem]
  by_cases hfile : Path.file path = ""
  · have hext : Path.ext path = "" := Path.ext_of_not_mem (by simp [hfile])
    have hbase : Path.ext (Path.base path) = "" :=
      Path.ext_of_not_mem fun hmem => h hfile ((Path.file_suffix _).subset hmem)
    rw [hext, hbase]
  · rw [Path.base_of_file hfile, Path.ext_file]

/-- A qualifier without a dot is the stem of the file. -/
theorem fileStem_of_qualifier (hscope : '.' ∉ scope.toList) (h : qualifier path = scope) :
    fileStem path = scope := by
  rw [← h]
  refine (qualifier_eq_fileStem fun hfile => ?_).symm
  have hext : Path.ext path = "" := Path.ext_of_not_mem (by simp [hfile])
  rw [qualifier, hext, Text.dropEnd_empty] at h
  rwa [h]

/-- An include names a document of the table: the one next to the including file or, if none
stands there, the one at the path from the root. -/
def Names (s : Symbols) (source : Document) (path : String) (D : Document) : Prop :=
  s.docs.find? (Path.join [Path.dir source.path, path]) = some D ∨
    (s.docs.find? (Path.join [Path.dir source.path, path]) = none ∧
      s.docs.find? (Path.rooted path) = some D)

theorem includeTarget?_eq_some_iff : s.includeTarget? source path = some D ↔
    s.Names source path D := by
  unfold includeTarget? Names
  cases s.docs.find? (Path.join [Path.dir source.path, path]) <;> simp

theorem name_of_local? {d : Document} (h : local? d name = some st) : st.name = name := by
  have hname : declares name st = true := List.find?_some h
  cases st with
  | service _ => cases hname
  | _ => exact eq_of_beq hname

def fromInclude? (s : Symbols) (source : Document) (scope base path : String) :
    Option (Statement × Document) := do
  let target ← s.includeTarget? source path
  if qualifier path ≠ scope then none
  let st ← local? target base
  return (st, target)

theorem fromInclude?_eq_some_iff {base : String} :
    s.fromInclude? source scope base path = some (st, D) ↔
      s.Names source path D ∧ qualifier path = scope ∧ local? D base = some st := by
  rw [← includeTarget?_eq_some_iff]
  unfold fromInclude?
  by_cases hscope : qualifier path = scope
  · simp [hscope, Option.bind_eq_some_iff]
  · simp [hscope]

theorem includeSearch?_of_cut {base : String} (hcut : Text.cut? name "." = some (scope, base)) :
    s.includeSearch? source name =
      source.includes.findSome? (s.fromInclude? source scope base) := by
  simp only [includeSearch?, hcut]
  rfl

/-- What a qualified name finds is named by what stands behind the first dot. -/
theorem name_of_includeSearch? {base : String} (hcut : Text.cut? name "." = some (scope, base))
    (h : s.includeSearch? source name = some (st, D)) : st.name = base := by
  rw [includeSearch?_of_cut hcut] at h
  obtain ⟨path, -, hhit⟩ := List.exists_of_findSome?_eq_some h
  exact name_of_local? (fromInclude?_eq_some_iff.mp hhit).2.2

theorem length_append_dot (a b : String) : (a ++ "." ++ b).length = a.length + 1 + b.length := by
  simp only [String.length_append]
  rfl

/-- A stem with a dot is cut in two, and more than the name of the declaration is left. -/
theorem cut?_of_dotted {stem : String} (h : '.' ∈ stem.toList) (name : String) :
    ∃ scope base, Text.cut? (stem ++ "." ++ name) "." = some (scope, base) ∧
      name.length < base.length := by
  obtain ⟨before, after, hchars, hbefore⟩ := List.eq_append_cons_of_mem h
  have hwhole : stem ++ "." ++ name =
      String.ofList before ++ "." ++ (String.ofList after ++ "." ++ name) := by
    apply String.toList_injective
    simp [hchars]
  have hdot : ".".toList = ['.'] := rfl
  refine ⟨String.ofList before, String.ofList after ++ "." ++ name, ?_, ?_⟩
  · rw [hwhole, Text.cut?_append hdot (by simpa using hbefore)]
  · rw [length_append_dot]
    omega

/-- The declaration that a document has under a qualified name is none with the name behind
the dot. -/
theorem ne_of_at?_qualified {st' : Statement} {stem : String} (hname : st.name = name)
    (hat : s.at? path (stem ++ "." ++ name) = some st') : st' ≠ st := by
  rintro rfl
  obtain ⟨d, -, hlocal⟩ := Option.bind_eq_some_iff.mp hat
  have hlength := congrArg String.length (hname.symm.trans (name_of_local? hlocal))
  rw [length_append_dot] at hlength
  omega

/-- A name behind a dotted stem finds no declaration of the name. -/
theorem includeSearch?_dotted {stem : String} (hdot : '.' ∈ stem.toList) (hname : st.name = name) :
    s.includeSearch? source (stem ++ "." ++ name) ≠ some (st, D) := by
  intro h
  obtain ⟨scope, base, hcut, hlonger⟩ := cut?_of_dotted hdot name
  rw [← name_of_includeSearch? hcut h, hname] at hlonger
  exact Nat.lt_irrefl _ hlonger

/-- A name behind a stem without a dot finds what the first include with this stem has whose
document declares it. -/
theorem includeSearch?_undotted {before after : List String} (hdot : '.' ∉ (fileStem path).toList)
    (hincludes : source.includes = before ++ path :: after) (hnames : s.Names source path D)
    (hfile : Path.file path = "" → '.' ∉ (Path.base path).toList)
    (hdeclares : local? D name = some st)
    (hearlier : ∀ p ∈ before, fileStem p = fileStem path →
      ∀ T, s.Names source p T → local? T name = none) :
    s.includeSearch? source (fileStem path ++ "." ++ name) = some (st, D) := by
  have hbefore : before.findSome? (s.fromInclude? source (fileStem path) name) = none := by
    rw [List.findSome?_eq_none_iff]
    intro p hp
    by_contra hsome
    obtain ⟨⟨st', T⟩, hhit⟩ := Option.ne_none_iff_exists'.mp hsome
    obtain ⟨hT, hqualifier, hlocal⟩ := fromInclude?_eq_some_iff.mp hhit
    have hnone := hearlier p hp (fileStem_of_qualifier hdot hqualifier) T hT
    rw [hlocal] at hnone
    cases hnone
  have hhit : s.fromInclude? source (fileStem path) name path = some (st, D) :=
    fromInclude?_eq_some_iff.mpr ⟨hnames, qualifier_eq_fileStem hfile, hdeclares⟩
  rw [includeSearch?_of_cut (Text.cut?_append rfl hdot name), hincludes, List.findSome?_append,
    hbefore, List.findSome?_cons, hhit]
  rfl

/-- Names qualified by an include. For any table, any Thrift document and any include of it
that names a document of the table, next to it or from the root, whose path ends in a file or
has no dot in its last segment, and any declaration of that document: if no include before it
with the same stem names a document that declares the name too, the name behind the stem and a
dot finds the declaration exactly if the stem has no dot and the including document itself
declares nothing that is spelled so. -/
theorem resolve?_included {s : Symbols} {source D : Document} {path name : String}
    {before after : List String} {st : Statement} (hthrift : source.dialect = .thrift)
    (hincludes : source.includes = before ++ path :: after) (hnames : s.Names source path D)
    (hfile : Path.file path = "" → '.' ∉ (Path.base path).toList)
    (hdeclares : local? D name = some st)
    (hearlier : ∀ p ∈ before, fileStem p = fileStem path →
      ∀ T, s.Names source p T → local? T name = none) :
    s.resolve? source (fileStem path ++ "." ++ name) = some (st, D) ↔
      '.' ∉ (fileStem path).toList ∧
        s.at? source.path (fileStem path ++ "." ++ name) = none := by
  have hname : st.name = name := name_of_local? hdeclares
  cases hat : s.at? source.path (fileStem path ++ "." ++ name) with
  | some st' =>
      have hresolve : s.resolve? source (fileStem path ++ "." ++ name) = some (st', source) := by
        rw [resolve?, hat]
      simp [hresolve, ne_of_at?_qualified hname hat]
  | none =>
      have hresolve : s.resolve? source (fileStem path ++ "." ++ name) =
          s.includeSearch? source (fileStem path ++ "." ++ name) := by
        simp only [resolve?, hat, hthrift]
      rw [hresolve, and_iff_left rfl]
      constructor
      · exact fun h hdot => includeSearch?_dotted hdot hname h
      · exact fun hdot => includeSearch?_undotted hdot hincludes hnames hfile hdeclares hearlier

/-! Two files of one stem, the nearer of which does not declare the name. -/

def nearFile : Document :=
  { path := "/api/other/base.thrift", dialect := .thrift, statements := [.struct { name := "Size" }] }

def rootFile : Document :=
  { path := "/common/base.thrift", dialect := .thrift, statements := [.struct { name := "Page" }] }

def apiFile : Document :=
  { path := "/api/a.thrift", dialect := .thrift,
    includes := ["other/base.thrift", "common/base.thrift"] }

theorem resolve?_included_rootFile :
    let s := ofDocs [apiFile, nearFile, rootFile]
    (apiFile.dialect = .thrift ∧ s.Names apiFile "common/base.thrift" rootFile ∧
        fileStem "other/base.thrift" = fileStem "common/base.thrift") ∧
      s.resolve? apiFile (fileStem "common/base.thrift" ++ "." ++ "Page") =
        some (.struct { name := "Page" }, rootFile) := by
  intro s
  have hnames : s.Names apiFile "common/base.thrift" rootFile := .inr ⟨rfl, rfl⟩
  have hearlier : ∀ p ∈ ["other/base.thrift"], fileStem p = fileStem "common/base.thrift" →
      ∀ T, s.Names apiFile p T → local? T "Page" = none := by
    intro p hp _ T hT
    obtain rfl := List.mem_singleton.mp hp
    have hfound : s.Names apiFile "other/base.thrift" nearFile := .inl rfl
    obtain rfl := Option.some.inj ((includeTarget?_eq_some_iff.mpr hfound).symm.trans
      (includeTarget?_eq_some_iff.mpr hT))
    rfl
  have hincludes : apiFile.includes = ["other/base.thrift"] ++ "common/base.thrift" :: [] := rfl
  have hfile : Path.file "common/base.thrift" = "" →
      '.' ∉ (Path.base "common/base.thrift").toList := by decide +kernel
  have hdeclares : local? rootFile "Page" = some (.struct { name := "Page" }) := rfl
  have hstem : '.' ∉ (fileStem "common/base.thrift").toList := by decide +kernel
  have hown : s.at? apiFile.path (fileStem "common/base.thrift" ++ "." ++ "Page") = none := rfl
  refine ⟨⟨rfl, hnames, by decide +kernel⟩, ?_⟩
  exact (resolve?_included rfl hincludes hnames hfile hdeclares hearlier).mpr ⟨hstem, hown⟩

def dottedFile : Document :=
  { path := "/a.b.thrift", dialect := .thrift, statements := [.struct { name := "T" }] }

def dottedUser : Document :=
  { path := "/m.thrift", dialect := .thrift, includes := ["a.b.thrift"] }

/-- A file with a dot in its stem is included and declares a structure, but the name that is
qualified by the stem is cut at the dot of the stem and finds nothing. -/
theorem dotted_stem_not_found :
    let s := ofDocs [dottedUser, dottedFile]
    s.Names dottedUser "a.b.thrift" dottedFile ∧ fileStem "a.b.thrift" = "a.b" ∧
      local? dottedFile "T" = some (.struct { name := "T" }) ∧
      s.resolve? dottedUser "a.b.T" = none := by
  intro s
  have hnames : s.Names dottedUser "a.b.thrift" dottedFile := .inl rfl
  have hstem : fileStem "a.b.thrift" = "a.b" := by decide +kernel
  have hmissing : s.resolve? dottedUser "a.b.T" = none := rfl
  exact ⟨hnames, hstem, rfl, hmissing⟩

/-- Behind a slash the extension is taken for a part of the stem. -/
example : fileStem "x.thrift/" = "x" ∧ qualifier "x.thrift/" = "x.thrift" := by decide +kernel

end Symbols
end ClientGen
