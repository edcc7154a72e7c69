import ClientGen.Proofs.Document.Symbols
import ClientGen.Proofs.Proto.Scoping

/-! # Names in packages

A name of Protobuf is looked up in the package of a document and in the packages that
enclose it, in all documents. A relative name means what the innermost package that
declares it has in the first document by path, in whatever order the documents were
collected (`resolve?_innermost`). A name behind a dot means what the outermost one has: it
is the full name itself exactly if some document declares that (`resolve?_rooted`), else the
search goes on inward (`rooted_name_in_package`).
-/

namespace ClientGen

/-- The first hit of a search in an ordered list is the least element that gives one. -/
theorem findSome?_eq_some_iff_least {α β : Type} {R : α → α → Prop} {f : α → Option β}
    {xs : List α} {b : β} (hsorted : xs.Pairwise R) (hrefl : ∀ x, R x x)
    (hantisymm : ∀ x ∈ xs, ∀ y ∈ xs, R x y → R y x → x = y) :
    xs.findSome? f = some b ↔ ∃ x ∈ xs, f x = some b ∧ ∀ y ∈ xs, f y ≠ none → R x y := by
  have hleast : ∀ c, xs.findSome? f = some c →
      ∃ x ∈ xs, f x = some c ∧ ∀ y ∈ xs, f y ≠ none → R x y := by
    intro c hc
    obtain ⟨before, x, after, rfl, hx, hbefore⟩ := List.findSome?_eq_some_iff.mp hc
    obtain ⟨-, hafter, -⟩ := List.pairwise_append.mp hsorted
    refine ⟨x, by simp, hx, fun y hy hfound => ?_⟩
    rcases List.mem_append.mp hy with hy | hy
    · exact absurd (hbefore y hy) hfound
    · rcases List.mem_cons.mp hy with rfl | hy
      · exact hrefl y
      · exact (List.pairwise_cons.mp hafter).1 y hy
  refine ⟨hleast b, ?_⟩
  rintro ⟨x, hx, hfx, hmin⟩
  obtain ⟨c, hc⟩ : ∃ c, xs.findSome? f = some c :=
    Option.isSome_iff_exists.mp (List.findSome?_isSome_iff.mpr ⟨x, hx, by simp [hfx]⟩)
  obtain ⟨y, hy, hfy, hmin'⟩ := hleast c hc
  have hsame : x = y :=
    hantisymm x hx y hy (hmin y hy (by simp [hfy])) (hmin' x hx (by simp [hfx]))
  rw [hc, ← hfy, ← hsame, hfx]

namespace Symbols

variable {s : Symbols} {docs : List Document} {d D T : Document} {st : Statement}
  {name full outer inner package : String}

/-! ## Packages inside each other -/

/-- Whether a package is another one or encloses it: it is what is left of the other one when
segments at its end are dropped, down to the empty package. -/
def Encloses (outer inner : String) : Prop :=
  outer = inner ∨ outer = "" ∨ ∃ rest, inner = outer ++ "." ++ rest

theorem Encloses.refl (package : String) : Encloses package package := .inl rfl

theorem encloses_of_empty (package : String) : Encloses "" package := .inr (.inl rfl)

theorem ne_append_dot (outer rest : String) : outer ++ "." ++ rest ≠ "" := by
  intro h
  simpa using congrArg String.toList h

theorem Encloses.trans {a b c : String} (hab : Encloses a b) (hbc : Encloses b c) :
    Encloses a c := by
  rcases hab with rfl | rfl | ⟨r, rfl⟩
  · exact hbc
  · exact encloses_of_empty c
  · rcases hbc with rfl | hempty | ⟨r', rfl⟩
    · exact .inr (.inr ⟨r, rfl⟩)
    · exact absurd hempty (ne_append_dot a r)
    · exact .inr (.inr ⟨r ++ "." ++ r', by simp only [String.append_assoc]⟩)

theorem Encloses.antisymm {a b : String} (hab : Encloses a b) (hba : Encloses b a) : a = b := by
  have hlength : ∀ {x y : String}, Encloses x y → x = y ∨ x.length < y.length ∨ x = "" := by
    rintro x y (rfl | rfl | ⟨r, rfl⟩)
    · exact .inl rfl
    · exact .inr (.inr rfl)
    · refine .inr (.inl ?_)
      simp only [String.length_append]
      have hdot : ".".length = 1 := rfl
      omega
  rcases hlength hab with h | h | rfl
  · exact h
  · rcases hlength hba with h' | h' | rfl
    · exact h'.symm
    · omega
    · simp at h
  · rcases hba with h' | h' | ⟨r, hr⟩
    · exact h'.symm
    · exact h'.symm
    · exact absurd hr.symm (ne_append_dot b r)

theorem encloses_empty_iff : Encloses outer "" ↔ outer = "" :=
  ⟨fun h => h.antisymm (encloses_of_empty outer), fun h => h ▸ .refl _⟩

theorem encloses_qualified (outer segment : String) : Encloses outer (qualified outer segment) := by
  unfold qualified
  split
  · rename_i h
    exact h ▸ encloses_of_empty segment
  · exact .inr (.inr ⟨segment, rfl⟩)

theorem encloses_of_mem_scanl {segments : List String}
    (h : inner ∈ segments.scanl qualified outer) : Encloses outer inner := by
  induction segments generalizing outer with
  | nil =>
      obtain rfl := List.mem_singleton.mp h
      exact .refl _
  | cons segment segments ih =>
      rw [List.scanl_cons] at h
      rcases List.mem_cons.mp h with rfl | h
      · exact .refl _
      · exact (encloses_qualified outer segment).trans (ih h)

theorem pairwise_scanl (outer : String) (segments : List String) :
    (segments.scanl qualified outer).Pairwise Encloses := by
  induction segments generalizing outer with
  | nil => exact List.pairwise_singleton _ _
  | cons segment segments ih =>
      rw [List.scanl_cons]
      refine List.pairwise_cons.mpr ⟨fun inner hinner => ?_, ih _⟩
      exact (encloses_qualified outer segment).trans (encloses_of_mem_scanl hinner)

theorem pairwise_packages (d : Document) : (packages d).Pairwise Encloses := by
  unfold packages
  split
  · exact List.pairwise_singleton _ _
  · exact pairwise_scanl "" _

/-! ## The packages around a document -/

/-- The package from which a document looks names up; dots in front of it name nothing. -/
def homePackage (d : Document) : String := Text.trimStartBy (· == '.') d.namespaceName

/-- A package as it is read has no dot in front. -/
theorem homePackage_eq (h : Text.startsWith d.namespaceName "." = false) :
    homePackage d = d.namespaceName := by
  have hchars : d.namespaceName.toList.dropWhile (· == '.') = d.namespaceName.toList := by
    cases hlist : d.namespaceName.toList with
    | nil => rfl
    | cons c cs =>
        have hc : '.' ≠ c := by
          rintro rfl
          simp [Text.startsWith, hlist] at h
        exact List.dropWhile_cons_of_neg (by simpa using hc.symm)
  rw [homePackage, Text.trimStartBy, hchars, String.ofList_toList]

theorem mem_scanl_qualified {first : String} (hfirst : first ≠ "") (segments : List String) :
    package ∈ segments.scanl qualified first ↔
      ∃ rest, rest <+: segments ∧ package = ".".intercalate (first :: rest) := by
  induction segments generalizing first with
  | nil => simp
  | cons segment segments ih =>
      have hnext : qualified first segment = first ++ "." ++ segment := if_neg hfirst
      rw [List.scanl_cons, List.mem_cons, hnext, ih (ne_append_dot first segment)]
      have hjoined : ∀ rest, ".".intercalate ((first ++ "." ++ segment) :: rest) =
          ".".intercalate (first :: segment :: rest) := fun rest => by
        rw [String.intercalate_cons_append, String.intercalate_cons_cons]
      constructor
      · rintro (rfl | ⟨rest, hrest, rfl⟩)
        · exact ⟨[], List.nil_prefix, by simp⟩
        · exact ⟨segment :: rest, List.cons_prefix_cons.mpr ⟨rfl, hrest⟩, hjoined rest⟩
      · rintro ⟨rest, hrest, rfl⟩
        rcases List.prefix_cons_iff.mp hrest with rfl | ⟨rest', rfl, hrest'⟩
        · exact .inl (by simp)
        · exact .inr ⟨rest', hrest', (hjoined rest').symm⟩

/-- What encloses a package is made of the first of its segments. -/
theorem encloses_iff_of_split {first : String} {segments : List String}
    (hsplit : Text.split inner "." = first :: segments) :
    Encloses outer inner ↔
      outer = "" ∨ ∃ rest, rest <+: segments ∧ outer = ".".intercalate (first :: rest) := by
  have hwhole : ".".intercalate (first :: segments) = inner := by
    rw [← hsplit, Text.intercalate_split rfl]
  constructor
  · rintro (rfl | rfl | ⟨after, rfl⟩)
    · exact .inr ⟨segments, List.prefix_rfl, hwhole.symm⟩
    · exact .inl rfl
    · rw [Text.split_append rfl] at hsplit
      rcases List.append_eq_cons_iff.mp hsplit with ⟨hnil, -⟩ | ⟨rest, houter, hafter⟩
      · exact absurd hnil (Text.split_ne_nil rfl outer)
      · refine .inr ⟨rest, ⟨_, hafter.symm⟩, ?_⟩
        rw [← houter, Text.intercalate_split rfl]
  · rintro (rfl | ⟨rest, ⟨after, rfl⟩, rfl⟩)
    · exact encloses_of_empty inner
    · cases after with
      | nil => exact .inl (by rw [← hwhole, List.append_nil])
      | cons next after =>
          refine .inr (.inr ⟨".".intercalate (next :: after), ?_⟩)
          rw [← hwhole, ← List.cons_append,
            String.intercalate_append_of_ne_nil (List.cons_ne_nil _ _) (List.cons_ne_nil _ _)]

theorem split_dot_cons (c : Char) (cs : List Char) :
    Text.split (String.ofList (c :: cs)) "." =
      if c = '.' then "" :: Text.split (String.ofList cs) "."
      else (Text.split (String.ofList cs) ".").modifyHead (String.ofList [c] ++ ·) := by
  have hdot : ".".toList = ['.'] := rfl
  rw [Text.split_single hdot, Text.split_single hdot, String.toList_ofList, String.toList_ofList,
    List.splitOn, List.splitOnP_cons_eq_if_modifyHead]
  by_cases hc : c = '.'
  · simp [hc, List.splitOn]
  · rw [if_neg (by simpa using hc), if_neg hc, List.splitOn]
    cases List.splitOnP (· == '.') cs with
    | nil => rfl
    | cons field fields =>
        rw [List.modifyHead_cons, List.map_cons, List.map_cons, List.modifyHead_cons,
          ← String.ofList_append, List.singleton_append]

/-- The packages made of the segments of a text are the one that is left without the dots in
front and those that enclose it. -/
theorem mem_scanl_split_iff (cs : List Char) :
    package ∈ (Text.split (String.ofList cs) ".").scanl qualified "" ↔
      Encloses package (String.ofList (cs.dropWhile (· == '.'))) := by
  induction cs with
  | nil =>
      have hempty : Text.split (String.ofList []) "." = [""] := rfl
      rw [hempty]
      simp [encloses_empty_iff, qualified]
  | cons c cs ih =>
      by_cases hc : c = '.'
      · -- a dot in front adds an empty segment, which qualifies nothing
        have hfirst : qualified "" "" = "" := rfl
        rw [split_dot_cons, if_pos hc, List.scanl_cons, List.mem_cons,
          List.dropWhile_cons_of_pos (by simpa using hc), hfirst, ih, or_iff_right_of_imp]
        rintro rfl
        exact encloses_of_empty _
      · have hdot : ".".toList = ['.'] := rfl
        obtain ⟨field, fields, hfields⟩ :=
          List.exists_cons_of_ne_nil (Text.split_ne_nil hdot (String.ofList cs))
        have hsplit : Text.split (String.ofList (c :: cs)) "." =
            (String.ofList [c] ++ field) :: fields := by
          rw [split_dot_cons, if_neg hc, hfields, List.modifyHead_cons]
        have hne : String.ofList [c] ++ field ≠ "" := fun h => by
          simpa using congrArg String.toList h
        have hfirst : qualified "" (String.ofList [c] ++ field) = String.ofList [c] ++ field := rfl
        rw [List.dropWhile_cons_of_neg (by simpa using hc), encloses_iff_of_split hsplit, hsplit,
          List.scanl_cons, List.mem_cons, hfirst, mem_scanl_qualified hne]

/-- The packages in which a document looks names up are the one from which it does and those
that enclose it. -/
theorem mem_packages_iff : package ∈ packages d ↔ Encloses package (homePackage d) := by
  have hsegments := @mem_scanl_split_iff package d.namespaceName.toList
  rw [String.ofList_toList] at hsegments
  unfold packages
  split
  · rename_i h
    rw [homePackage, Text.trimStartBy, h, List.mem_singleton]
    simp [encloses_empty_iff]
  · exact hsegments

/-! ## Full names -/

/-- A local name in the form in which it is declared, with underscores for its dots. -/
def flattened (name : String) : String := name.map fun c => if c = '.' then '_' else c

/-- A document declares a full name by a statement: inside the package of the document, if it
has one, the full name leaves a local name which, flattened, the statement has. -/
def DeclaresAs (d : Document) (full : String) (st : Statement) : Prop :=
  ∃ rest, full = qualified d.namespaceName rest ∧ local? d (flattened rest) = some st

def Declares (d : Document) (full : String) : Prop := ∃ st, DeclaresAs d full st

/-- Some document of the table declares a full name. -/
def Declared (s : Symbols) (full : String) : Prop :=
  ∃ T, s.docs.find? T.path = some T ∧ Declares T full

/-- What a full name means: the first document by path that declares it does so by this
statement. -/
structure Means (s : Symbols) (full : String) (st : Statement) (T : Document) : Prop where
  stored : s.docs.find? T.path = some T
  declares : DeclaresAs T full st
  least : ∀ T', s.docs.find? T'.path = some T' → Declares T' full → T.path ≤ T'.path

theorem within?_eq_some_iff {rest : String} :
    within? d full = some rest ↔ full = qualified d.namespaceName rest := by
  unfold within? qualified
  split
  · rw [Option.some.injEq]
  · rw [Option.map_eq_some_iff]
    constructor
    · rintro ⟨cs, hcs, rfl⟩
      apply String.toList_injective
      simpa using Text.eq_append_of_dropStart? hcs
    · rintro rfl
      refine ⟨rest.toList, ?_, String.ofList_toList⟩
      have hchars : (d.namespaceName ++ "." ++ rest).toList =
          (d.namespaceName ++ ".").toList ++ rest.toList := String.toList_append
      rw [hchars, Text.dropStart?_append]

def declaration? (d : Document) (full : String) : Option (Statement × Document) := do
  let rest ← within? d full
  let st ← local? d (Text.replace rest "." "_")
  return (st, d)

theorem declaration?_eq_some_iff :
    declaration? d full = some (st, T) ↔ T = d ∧ DeclaresAs d full st := by
  have hflat : ∀ rest, Text.replace rest "." "_" = flattened rest :=
    Text.replace_single rfl rfl
  unfold declaration? DeclaresAs
  simp only [Option.bind_eq_bind, Option.bind_eq_some_iff, within?_eq_some_iff, hflat,
    Option.pure_def, Option.some.injEq, Prod.mk.injEq]
  constructor
  · rintro ⟨rest, hrest, st', hst, rfl, rfl⟩
    exact ⟨rfl, rest, hrest, hst⟩
  · rintro ⟨rfl, rest, hrest, hst⟩
    exact ⟨rest, hrest, st, hst, rfl, rfl⟩

theorem declaration?_ne_none_iff : declaration? d full ≠ none ↔ Declares d full := by
  rw [Option.ne_none_iff_exists']
  constructor
  · rintro ⟨⟨st, T⟩, h⟩
    exact ⟨st, (declaration?_eq_some_iff.mp h).2⟩
  · rintro ⟨st, h⟩
    exact ⟨(st, d), declaration?_eq_some_iff.mpr ⟨rfl, h⟩⟩

/-- The declaration of a full name in the first document by path that has one. -/
def searchAll? (s : Symbols) (full : String) : Option (Statement × Document) :=
  s.docs.sorted.findSome? fun (_, d) => declaration? d full

theorem mem_sorted_iff (hs : s.Keyed) {entry : String × Document} :
    entry ∈ s.docs.sorted ↔ entry.1 = entry.2.path ∧ s.docs.find? entry.2.path = some entry.2 := by
  rw [(Table.sorted_perm s.docs).mem_iff]
  constructor
  · intro h
    have hfind := Table.find?_of_mem hs.once h
    exact ⟨(hs.path_eq _ _ hfind).symm, hs.find?_path hfind⟩
  · rintro ⟨hpath, hfind⟩
    have hmem := Table.mem_of_find? hfind
    rwa [← hpath] at hmem

theorem searchAll?_eq_some_iff (hs : s.Keyed) :
    s.searchAll? full = some (st, T) ↔ s.Means full st T := by
  unfold searchAll?
  rw [findSome?_eq_some_iff_least (Table.pairwise_sorted s.docs) (fun _ => String.le_refl _)]
  · constructor
    · rintro ⟨entry, hentry, hfound, hleast⟩
      obtain ⟨rfl, hdeclares⟩ := declaration?_eq_some_iff.mp hfound
      obtain ⟨hpath, hstored⟩ := (mem_sorted_iff hs).mp hentry
      refine ⟨hstored, hdeclares, fun T' hT' hdeclares' => ?_⟩
      rw [← hpath]
      exact hleast (T'.path, T') ((mem_sorted_iff hs).mpr ⟨rfl, hT'⟩)
        (declaration?_ne_none_iff.mpr hdeclares')
    · intro h
      refine ⟨(T.path, T), (mem_sorted_iff hs).mpr ⟨rfl, h.stored⟩,
        declaration?_eq_some_iff.mpr ⟨rfl, h.declares⟩, fun entry hentry hfound => ?_⟩
      obtain ⟨hpath, hstored⟩ := (mem_sorted_iff hs).mp hentry
      rw [hpath]
      exact h.least _ hstored (declaration?_ne_none_iff.mp hfound)
  · intro a ha b hb hab hba
    have hsorted := Table.sorted_perm s.docs
    exact Table.entry_unique hs.once (hsorted.mem_iff.mp ha) (hsorted.mem_iff.mp hb)
      (String.le_antisymm hab hba)

theorem searchAll?_ne_none_iff (hs : s.Keyed) : s.searchAll? full ≠ none ↔ s.Declared full := by
  unfold searchAll?
  rw [← Option.isSome_iff_ne_none, List.findSome?_isSome_iff]
  simp only [Option.isSome_iff_ne_none, declaration?_ne_none_iff]
  constructor
  · rintro ⟨entry, hentry, hdeclares⟩
    exact ⟨entry.2, ((mem_sorted_iff hs).mp hentry).2, hdeclares⟩
  · rintro ⟨T, hT, hdeclares⟩
    exact ⟨(T.path, T), (mem_sorted_iff hs).mpr ⟨rfl, hT⟩, hdeclares⟩

/-! ## The search from a package -/

theorem packageSearch?_eq : s.packageSearch? D name =
    (if Text.startsWith name "." then packages D else (packages D).reverse).findSome? fun package =>
      s.searchAll? (qualified package (Text.dropStart name ".")) := rfl

theorem packageSearch?_ne_none_iff (hs : s.Keyed) :
    s.packageSearch? D name ≠ none ↔
      ∃ package, Encloses package (homePackage D) ∧
        s.Declared (qualified package (Text.dropStart name ".")) := by
  rw [packageSearch?_eq, ← Option.isSome_iff_ne_none, List.findSome?_isSome_iff]
  simp only [Option.isSome_iff_ne_none, searchAll?_ne_none_iff hs, ← mem_packages_iff]
  split
  · rfl
  · simp only [List.mem_reverse]

/-- A relative name means what the innermost package that declares it has. -/
theorem packageSearch?_relative_iff (hs : s.Keyed) (hdot : Text.startsWith name "." = false) :
    s.packageSearch? D name = some (st, T) ↔
      ∃ package, Encloses package (homePackage D) ∧ s.Means (qualified package name) st T ∧
        ∀ inner, Encloses inner (homePackage D) → s.Declared (qualified inner name) →
          Encloses inner package := by
  rw [packageSearch?_eq, if_neg (by simp [hdot]), Text.dropStart_of_not_startsWith hdot,
    findSome?_eq_some_iff_least (R := fun inner outer => Encloses outer inner)
      (List.pairwise_reverse.mpr (pairwise_packages D)) Encloses.refl
      (fun a _ b _ hab hba => hba.antisymm hab)]
  simp only [List.mem_reverse, mem_packages_iff, searchAll?_eq_some_iff hs,
    searchAll?_ne_none_iff hs]

/-- A name behind a dot means what the outermost package that declares it has. -/
theorem packageSearch?_rooted_iff (hs : s.Keyed) :
    s.packageSearch? D ("." ++ name) = some (st, T) ↔
      ∃ package, Encloses package (homePackage D) ∧ s.Means (qualified package name) st T ∧
        ∀ outer, Encloses outer (homePackage D) → s.Declared (qualified outer name) →
          Encloses package outer := by
  rw [packageSearch?_eq, if_pos (Text.startsWith_append "." name), Text.dropStart_append,
    findSome?_eq_some_iff_least (pairwise_packages D) Encloses.refl
      (fun a _ b _ hab hba => hab.antisymm hba)]
  simp only [mem_packages_iff, searchAll?_eq_some_iff hs, searchAll?_ne_none_iff hs]

/-! ## What a name means -/

theorem resolve?_eq_packageSearch? (hD : s.docs.find? D.path = some D)
    (hproto : D.dialect = .protobuf) (hown : local? D name = none) :
    s.resolve? D name = s.packageSearch? D name := by
  have hat : s.at? D.path name = none := by simp [at?, hD, hown]
  simp only [resolve?, hat, hproto]

/-- Which documents were collected is all that names depend on, not their order. -/
theorem resolve?_of_perm {docs' : List Document} (honce : (docs.map (·.path)).Nodup)
    (hperm : docs'.Perm docs) (D : Document) (name : String) :
    (ofDocs docs').resolve? D name = (ofDocs docs).resolve? D name := by
  have honce' : (docs'.map (·.path)).Nodup := (hperm.map _).nodup_iff.mpr honce
  have hfind : (ofDocs docs').docs.find? = (ofDocs docs).docs.find? := by
    funext path
    apply Option.ext
    intro d
    rw [find?_ofDocs honce', find?_ofDocs honce, hperm.mem_iff]
  have hsorted : (ofDocs docs').docs.sorted = (ofDocs docs).docs.sorted := by
    refine Table.sorted_of_perm (keyed_ofDocs docs).once ?_
    rw [docs_ofDocs honce', docs_ofDocs honce]
    exact hperm.map _
  unfold resolve? at? packageSearch? includeSearch? includeTarget?
  rw [hfind, hsorted]

/-- What a relative name means in Protobuf. For any documents with different paths, any one
of them and any name that stands behind no dot and that the document does not declare itself:
the name means something exactly if some document declares it as a name of the package of the
document or of one that encloses this; what it means is declared in the innermost such package,
and there in the least document by path; and this is so for every order in which the documents
are collected. -/
theorem resolve?_innermost {docs : List Document} {D : Document} {name : String}
    (honce : (docs.map (·.path)).Nodup) (hD : D ∈ docs) (hproto : D.dialect = .protobuf)
    (hdot : Text.startsWith name "." = false) (hown : local? D name = none) :
    ((∃ st T, (ofDocs docs).resolve? D name = some (st, T)) ↔
        ∃ package, Encloses package (homePackage D) ∧
          ∃ T ∈ docs, Declares T (qualified package name)) ∧
      (∀ st T, (ofDocs docs).resolve? D name = some (st, T) →
        T ∈ docs ∧ ∃ package, Encloses package (homePackage D) ∧
          DeclaresAs T (qualified package name) st ∧
          (∀ inner, Encloses inner (homePackage D) →
            (∃ T' ∈ docs, Declares T' (qualified inner name)) → Encloses inner package) ∧
          ∀ T' ∈ docs, Declares T' (qualified package name) → T.path ≤ T'.path) ∧
      ∀ docs', docs'.Perm docs →
        (ofDocs docs').resolve? D name = (ofDocs docs).resolve? D name := by
  have hs := keyed_ofDocs docs
  have hfind : ∀ T, (ofDocs docs).docs.find? T.path = some T ↔ T ∈ docs := fun T => by
    rw [find?_ofDocs honce, and_iff_left rfl]
  have hdeclared : ∀ full, (ofDocs docs).Declared full ↔ ∃ T ∈ docs, Declares T full := fun full => by
    simp only [Declared, hfind]
  have hsearch := resolve?_eq_packageSearch? ((hfind D).mpr hD) hproto hown
  simp only [hsearch]
  refine ⟨?_, fun st T h => ?_, fun docs' hperm => ?_⟩
  · have hfound : (ofDocs docs).packageSearch? D name ≠ none ↔ _ := packageSearch?_ne_none_iff hs
    rw [Text.dropStart_of_not_startsWith hdot, Option.ne_none_iff_exists'] at hfound
    simpa only [Prod.exists, hdeclared] using hfound
  · obtain ⟨package, haround, hmeans, hinnermost⟩ := (packageSearch?_relative_iff hs hdot).mp h
    refine ⟨(hfind T).mp hmeans.stored, package, haround, hmeans.declares, fun inner hinner hin => ?_,
      fun T' hT' hdeclares => hmeans.least T' ((hfind T').mpr hT') hdeclares⟩
    exact hinnermost inner hinner ((hdeclared _).mpr hin)
  · rw [resolve?_of_perm honce hperm, hsearch]

/-! Four files: two of one package declare the same message, one of no package declares it
too, and the fourth one is inside the package. -/

def outsideFile : Document :=
  { path := "/a.proto", dialect := .protobuf, statements := [.struct { name := "A_B" }] }

def packageFile : Document :=
  { path := "/b.proto", dialect := .protobuf, namespaceName := "p",
    statements := [.struct { name := "A_B" }] }

def siblingFile : Document :=
  { path := "/c.proto", dialect := .protobuf, namespaceName := "p",
    statements := [.struct { name := "A_B" }] }

def insideFile : Document :=
  { path := "/d.proto", dialect := .protobuf, namespaceName := "p.q" }

theorem sorted_fourFiles :
    (ofDocs [outsideFile, packageFile, siblingFile, insideFile]).docs.sorted =
      [("/a.proto", outsideFile), ("/b.proto", packageFile), ("/c.proto", siblingFile),
        ("/d.proto", insideFile)] := by
  apply List.mergeSort_of_pairwise
  decide +kernel

theorem resolve?_innermost_fourFiles :
    let docs := [siblingFile, insideFile, outsideFile, packageFile]
    ((docs.map (·.path)).Nodup ∧ insideFile ∈ docs ∧ insideFile.dialect = .protobuf ∧
        Text.startsWith "A.B" "." = false ∧ local? insideFile "A.B" = none) ∧
      (ofDocs docs).resolve? insideFile "A.B" = some (.struct { name := "A_B" }, packageFile) ∧
      ∃ package, Encloses package "p.q" ∧
        DeclaresAs packageFile (qualified package "A.B") (.struct { name := "A_B" }) := by
  intro docs
  have honce : (docs.map (·.path)).Nodup := by decide +kernel
  have hmem : insideFile ∈ docs := by simp [docs]
  have hdot : Text.startsWith "A.B" "." = false := by decide
  have hown : local? insideFile "A.B" = none := rfl
  obtain ⟨-, hmeaning, horder⟩ := resolve?_innermost honce hmem rfl hdot hown
  have hperm : [outsideFile, packageFile, siblingFile, insideFile].Perm docs :=
    @List.perm_append_comm _ [outsideFile, packageFile] [siblingFile, insideFile]
  have hfound : (ofDocs docs).resolve? insideFile "A.B" =
      some (.struct { name := "A_B" }, packageFile) := by
    rw [← horder _ hperm]
    simp only [resolve?, packageSearch?, sorted_fourFiles]
    rfl
  obtain ⟨-, package, haround, hdeclares, -, -⟩ := hmeaning _ _ hfound
  have hhome : homePackage insideFile = "p.q" := homePackage_eq rfl
  rw [hhome] at haround
  exact ⟨⟨honce, hmem, rfl, hdot, hown⟩, hfound, package, haround, hdeclares⟩

/-- What a name behind a dot means in Protobuf. For any collected documents and any one of
them that does not declare it in this spelling: what the name means is declared in a document
that declares exactly the full name behind the dot if and only if some document does, and then
by the first one; and in general it is what the outermost package around the document has that
declares the name behind the dot as one of its names. -/
theorem resolve?_rooted {docs : List Document} {D : Document} {name : String}
    (hD : (ofDocs docs).docs.find? D.path = some D) (hproto : D.dialect = .protobuf)
    (hown : local? D ("." ++ name) = none) :
    (∀ st T, (ofDocs docs).resolve? D ("." ++ name) = some (st, T) →
        (Declares T name ↔ (ofDocs docs).Declared name) ∧
          ((ofDocs docs).Declared name → (ofDocs docs).Means name st T)) ∧
      ∀ st T, (ofDocs docs).resolve? D ("." ++ name) = some (st, T) ↔
        ∃ package, Encloses package (homePackage D) ∧
          (ofDocs docs).Means (qualified package name) st T ∧
          ∀ outer, Encloses outer (homePackage D) →
            (ofDocs docs).Declared (qualified outer name) → Encloses package outer := by
  have hs := keyed_ofDocs docs
  simp only [resolve?_eq_packageSearch? hD hproto hown]
  refine ⟨fun st T h => ?_, fun st T => packageSearch?_rooted_iff hs⟩
  obtain ⟨package, haround, hmeans, houtermost⟩ := (packageSearch?_rooted_iff hs).mp h
  have hexact : (ofDocs docs).Declared name → (ofDocs docs).Means name st T := by
    intro hdeclared
    have hroot : package = "" :=
      encloses_empty_iff.mp (houtermost "" (encloses_of_empty _) hdeclared)
    rw [hroot] at hmeans
    exact hmeans
  exact ⟨⟨fun hdeclares => ⟨T, hmeans.stored, hdeclares⟩,
    fun hdeclared => ⟨st, (hexact hdeclared).declares⟩⟩, hexact⟩

theorem resolve?_rooted_packageFile :
    let docs := [outsideFile, packageFile, siblingFile, insideFile]
    ((ofDocs docs).docs.find? insideFile.path = some insideFile ∧
        insideFile.dialect = .protobuf ∧ local? insideFile ("." ++ "p.A.B") = none) ∧
      (ofDocs docs).resolve? insideFile ("." ++ "p.A.B") =
        some (.struct { name := "A_B" }, packageFile) ∧
      Declares packageFile "p.A.B" := by
  intro docs
  have hfind : (ofDocs docs).docs.find? insideFile.path = some insideFile := rfl
  have hown : local? insideFile ("." ++ "p.A.B") = none := rfl
  have hfound : (ofDocs docs).resolve? insideFile ("." ++ "p.A.B") =
      some (.struct { name := "A_B" }, packageFile) := by
    simp only [docs, resolve?, packageSearch?, sorted_fourFiles]
    rfl
  have hflat : flattened "A.B" = "A_B" := by decide +kernel
  have hdeclared : (ofDocs docs).Declared "p.A.B" :=
    ⟨packageFile, rfl, .struct { name := "A_B" }, "A.B", rfl, by rw [hflat]; rfl⟩
  obtain ⟨hexact, -⟩ := (resolve?_rooted hfind rfl hown).1 _ _ hfound
  exact ⟨⟨hfind, rfl, hown⟩, hfound, hexact.mpr hdeclared⟩

/-- Behind a dot stands a name that no document declares in full: the search goes on in the
package of the document and finds a declaration of another full name. -/
theorem rooted_name_in_package :
    (ofDocs [packageFile]).resolve? packageFile ".A_B" =
        some (.struct { name := "A_B" }, packageFile) ∧
      ¬ Declares packageFile "A_B" ∧ Declares packageFile "p.A_B" := by
  have hsorted : (ofDocs [packageFile]).docs.sorted = [("/b.proto", packageFile)] :=
    List.mergeSort_singleton _
  have hflat : flattened "A_B" = "A_B" := by decide +kernel
  refine ⟨?_, ?_, .struct { name := "A_B" }, "A_B", rfl, by rw [hflat]; rfl⟩
  · simp only [resolve?, packageSearch?, hsorted]
    rfl
  · rintro ⟨st, rest, hrest, -⟩
    have hwithin : within? packageFile "A_B" = some rest := within?_eq_some_iff.mpr hrest
    have hnone : within? packageFile "A_B" = none := by decide
    rw [hnone] at hwithin
    cases hwithin

end Symbols
end ClientGen
