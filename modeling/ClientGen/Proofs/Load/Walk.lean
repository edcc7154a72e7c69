import ClientGen.Load.Closure
import ClientGen.Proofs.Collection.Table
import ClientGen.Proofs.Load.History
import Mathlib.Data.List.Basic
import Mathlib.Logic.Relation

/-! # Walks over includes

A walk is a sequence of moves: a document is recalled from the cache or parsed, an
include is given up, a document is entered, an entry is marked. What each move
keeps, every walk keeps; above all, the cache holds for a target the document that
parsing the target would give (`Walk.Sound`).
-/

namespace ClientGen

def Document.unmarked (d : Document) : Document := { d with entry := false }

@[simp] theorem Document.path_unmarked (d : Document) : d.unmarked.path = d.path := rfl

@[simp] theorem Document.includes_unmarked (d : Document) : d.unmarked.includes = d.includes := rfl

theorem Document.path_eq_of_unmarked {d e : Document} (h : d.unmarked = e.unmarked) :
    d.path = e.path := by
  simpa using congrArg Document.path h

theorem Document.includes_eq_of_unmarked {d e : Document} (h : d.unmarked = e.unmarked) :
    d.includes = e.includes := by
  simpa using congrArg Document.includes h

namespace Load

open Source (Reporter Failure Code Diagnostic)

/-! ## The cache -/

namespace Cache

variable (c : Cache) (uri key : String) (n : Nat)

theorem peek?_touch : (c.touch uri).peek? key = c.peek? key := by
  unfold touch peek?
  cases huri : c.entries.find? uri with
  | none => rfl
  | some n =>
      by_cases hkey : key = uri
      · rw [Table.find?_cons, if_pos hkey, hkey, huri]
      · rw [Table.find?_cons, if_neg hkey, Table.find?_filter_ne c.entries hkey]

theorem length_touch : (c.touch uri).entries.length ≤ c.entries.length := by
  unfold touch
  cases huri : c.entries.find? uri with
  | none => exact Nat.le_refl _
  | some n =>
      have hmem := Table.mem_of_find? huri
      exact List.length_filter_lt_length_iff_exists.mpr ⟨_, hmem, by simp⟩

theorem length_add : (c.add uri n).entries.length ≤ c.entries.length + 1 := by
  have hfilter := List.length_filter_le (fun entry : String × Nat => entry.1 ≠ uri) c.entries
  simp only [add, List.length_take, List.length_cons]
  omega

variable {c uri key n}

theorem peek?_add_eq_some {m : Nat} (h : (c.add uri n).peek? key = some m) :
    (key = uri ∧ m = n) ∨ (key ≠ uri ∧ c.peek? key = some m) := by
  have hfound := Table.find?_of_take h
  rw [Table.find?_cons] at hfound
  by_cases hkey : key = uri
  · rw [if_pos hkey] at hfound
    exact .inl ⟨hkey, (Option.some.inj hfound).symm⟩
  · rw [if_neg hkey, Table.find?_filter_ne c.entries hkey] at hfound
    exact .inr ⟨hkey, hfound⟩

end Cache

/-! ## Targets and their documents -/

namespace Loader

variable (l : Loader) (codes : List Code)

/-- The document at a target, parsed by itself. -/
def documentAt (uri : String) : Except Failure Document :=
  match l.system.openAt uri with
  | .error e => .error e
  | .ok [] => .error .absentDocument
  | .ok (f :: _) =>
    match (compileFile f l.revise { nonfatal := codes }).1 with
    | .error e => .error e
    | .ok none => .error .absentDocument
    | .ok (some d) => .ok d

/-- The target that an include means: the first candidate that opens. -/
def target? (source path : String) : Option String :=
  (Target.candidates source path).find? fun uri => (l.system.openAt uri).toOption.isSome

/-- The targets that entries and the includes of documents mean. -/
def named (entries : List String) (docs : List Document) : List String :=
  entries.map Target.normalize ++ docs.flatMap fun d => d.includes.filterMap (l.target? d.path)

variable {l codes} {uri : String} {d : Document}

theorem documentAt_of_open {f : Files.SourceFile} {fs : List Files.SourceFile}
    (h : l.system.openAt uri = .ok (f :: fs)) :
    l.documentAt codes uri =
      match (compileFile f l.revise { nonfatal := codes }).1 with
      | .error e => .error e
      | .ok none => .error .absentDocument
      | .ok (some d) => .ok d := by
  unfold documentAt
  rw [h]

theorem documentAt_eq_ok (h : l.documentAt codes uri = .ok d) :
    ∃ f fs, l.system.openAt uri = .ok (f :: fs) ∧
      (compileFile f l.revise { nonfatal := codes }).1 = .ok (some d) := by
  unfold documentAt at h
  split at h
  · cases h
  · cases h
  · rename_i f fs hopen
    split at h
    · cases h
    · cases h
    · rename_i hcompile
      cases h
      exact ⟨f, fs, hopen, hcompile⟩

theorem unmarked_of_documentAt (h : l.documentAt codes uri = .ok d) : d.unmarked = d := by
  obtain ⟨f, fs, -, hcompile⟩ := documentAt_eq_ok h
  have hentry := (compileFile_fresh (Prod.ext hcompile rfl)).2
  cases d
  simp_all [Document.unmarked]

theorem opens_of_documentAt (h : l.documentAt codes uri = .ok d) :
    (l.system.openAt uri).toOption.isSome = true := by
  obtain ⟨f, fs, hopen, -⟩ := documentAt_eq_ok h
  rw [hopen]
  rfl

end Loader

/-! ## Sound walks -/

/-- The cache holds what parsing would give, and the result lists each path once. -/
structure Walk.Sound (l : Loader) (codes : List Code) (w : Walk) : Prop where
  harmless : w.reporter.nonfatal = codes
  cached : ∀ uri n, w.cache.peek? uri = some n →
    ∃ d, w.parsed[n]? = some d ∧ l.documentAt codes uri = .ok d.unmarked
  room : w.cache.entries.length ≤ w.parsed.length
  parsed : ∀ d ∈ w.parsed, ∃ uri, l.documentAt codes uri = .ok d.unmarked
  numbers : ∀ n ∈ w.order, n < w.parsed.length
  paths : w.docs.map (·.path) = w.seen.reverse
  once : w.seen.Nodup

/-- The walk after a document has been parsed for a target. -/
def Walk.learn (w : Walk) (uri : String) (d : Document) (r : Reporter) : Walk :=
  { w with reporter := r, parsed := w.parsed ++ [d], cache := w.cache.add uri w.parsed.length }

/-- What loading a target does to a sound walk. -/
inductive Loads (l : Loader) (codes : List Code) (uri : String) (w : Walk) :
    Except Failure Nat × Walk → Prop where
  | recalled {n : Nat} {d : Document} (hhit : w.cache.peek? uri = some n)
      (hknown : w.parsed[n]? = some d) (hfound : l.documentAt codes uri = .ok d.unmarked) :
      Loads l codes uri w (.ok n, { w with cache := w.cache.touch uri })
  | parsed {d : Document} {r : Reporter} (habsent : w.cache.peek? uri = none)
      (hfound : l.documentAt codes uri = .ok d) (hsame : r.nonfatal = codes)
      (hsilent : codes = Code.harmless → r = w.reporter) :
      Loads l codes uri w (.ok w.parsed.length, w.learn uri d r)
  | failed {e : Failure} {w' : Walk} (hfound : l.documentAt codes uri = .error e) :
      Loads l codes uri w (.error e, w')

section Loading

variable {l : Loader} {codes : List Code} {w : Walk}

theorem Walk.Sound.loads {uri : String} {x : Except Failure Nat × Walk} (hw : w.Sound l codes)
    (h : l.load uri w = x) : Loads l codes uri w x := by
  subst h
  unfold Loader.load
  cases hhit : w.cache.peek? uri with
  | some n =>
      obtain ⟨d, hknown, hdocument⟩ := hw.cached uri n hhit
      exact .recalled hhit hknown hdocument
  | none =>
      cases hopen : l.system.openAt uri with
      | error e => exact .failed (by simp [Loader.documentAt, hopen])
      | ok files =>
          cases files with
          | nil => exact .failed (by simp [Loader.documentAt, hopen])
          | cons f fs =>
              have hfound : l.documentAt codes uri = _ := Loader.documentAt_of_open hopen
              rw [← hw.harmless, ← compileFile_codes, hw.harmless] at hfound
              have hcodes := codes_compileFile f l.revise w.reporter
              dsimp only
              cases hcompile : compileFile f l.revise w.reporter with
              | mk result r =>
                  rw [hcompile] at hfound hcodes
                  cases result with
                  | error e => exact .failed hfound
                  | ok result =>
                      cases result with
                      | none => exact .failed hfound
                      | some d =>
                          refine .parsed hhit hfound (hcodes.trans hw.harmless) ?_
                          intro hdefault
                          exact compileFile_silent (hw.harmless.trans hdefault) hcompile

/-- Whether a candidate is in the cache makes no difference. -/
theorem Walk.Sound.resolve? (hw : w.Sound l codes) (source path : String) :
    l.resolve? w.cache source path = l.target? source path := by
  have hopens : ∀ uri, ((w.cache.peek? uri).isSome || (l.system.openAt uri).toOption.isSome) =
      (l.system.openAt uri).toOption.isSome := by
    intro uri
    cases hhit : w.cache.peek? uri with
    | none => rfl
    | some n =>
        obtain ⟨d, -, hfound⟩ := hw.cached uri n hhit
        rw [Loader.opens_of_documentAt hfound]
        rfl
  simp only [Loader.resolve?, Loader.target?, hopens]

end Loading

/-! ## Moves -/

/-- The walk after a document has been added to its result. -/
def Walk.enter (w : Walk) (n : Nat) (path : String) : Walk :=
  { w with seen := path :: w.seen, order := w.order ++ [n] }

/-- The walk after an include that means no target. -/
def Walk.miss (w : Walk) (source path : String) : Walk :=
  { w with reporter := w.reporter.report (Loader.unresolvedInclude source path),
           unresolved := w.unresolved ++ [⟨source, path⟩] }

inductive Move (l : Loader) (codes : List Code) (entries : List String) (w : Walk) :
    Walk → Prop where
  | load {uri : String} {n : Nat} {w' : Walk} (hmeant : uri ∈ l.named entries w.docs)
      (hloads : Loads l codes uri w (.ok n, w')) : Move l codes entries w w'
  | miss (source path : String) : Move l codes entries w (w.miss source path)
  | enter {n : Nat} {d : Document} (hknown : w.parsed[n]? = some d) (hfresh : d.path ∉ w.seen) :
      Move l codes entries w (w.enter n d.path)
  | mark {entry : String} {n : Nat} {d : Document} (hgiven : entry ∈ entries)
      (hknown : w.parsed[n]? = some d)
      (hfound : l.documentAt codes (Target.normalize entry) = .ok d.unmarked) :
      Move l codes entries w (Loader.markEntry n w)

abbrev Moves (l : Loader) (codes : List Code) (entries : List String) : Walk → Walk → Prop :=
  Relation.ReflTransGen (Move l codes entries)

namespace Walk

variable {w : Walk} {n : Nat} {d : Document}

theorem docs_learn (uri : String) (d : Document) (r : Reporter)
    (hnumbers : ∀ n ∈ w.order, n < w.parsed.length) : (w.learn uri d r).docs = w.docs :=
  List.filterMap_congr fun n hn => List.getElem?_append_left (hnumbers n hn)

theorem docs_enter (h : w.parsed[n]? = some d) : (w.enter n d.path).docs = w.docs ++ [d] := by
  simp [docs, enter, h]

theorem getElem?_markEntry (k : Nat) : (Loader.markEntry n w).parsed[k]? =
    (w.parsed[k]?).map fun d => if n = k then { d with entry := true } else d := by
  simp [Loader.markEntry, List.getElem?_modify]

theorem unmarked_markEntry (k : Nat) : ((Loader.markEntry n w).parsed[k]?).map Document.unmarked =
    (w.parsed[k]?).map Document.unmarked := by
  rw [getElem?_markEntry]
  cases w.parsed[k]? with
  | none => rfl
  | some d => by_cases hk : n = k <;> simp [hk, Document.unmarked]

theorem docs_markEntry :
    (Loader.markEntry n w).docs.map Document.unmarked = w.docs.map Document.unmarked := by
  simp only [docs, List.map_filterMap, unmarked_markEntry]
  rfl

theorem length_markEntry : (Loader.markEntry n w).parsed.length = w.parsed.length :=
  List.length_modify _ _ _

end Walk

theorem map_path_unmarked (docs : List Document) :
    (docs.map Document.unmarked).map (·.path) = docs.map (·.path) := by
  simp

section Keeping

variable {l : Loader} {codes : List Code} {entries : List String} {w w' : Walk}

/-- Loading keeps a walk sound. -/
theorem Loads.sound {uri : String} {n : Nat} (h : Loads l codes uri w (.ok n, w'))
    (hw : w.Sound l codes) : w'.Sound l codes := by
  cases h with
  | recalled hhit hknown hfound =>
      refine ⟨hw.harmless, ?_, ?_, hw.parsed, hw.numbers, hw.paths, hw.once⟩
      · intro key n hhit
        rw [Cache.peek?_touch] at hhit
        exact hw.cached key n hhit
      · exact Nat.le_trans (Cache.length_touch w.cache uri) hw.room
  | @parsed d r habsent hfound hsame hsilent =>
      have hd := Loader.unmarked_of_documentAt hfound
      have hlength : (w.learn uri d r).parsed.length = w.parsed.length + 1 := by simp [Walk.learn]
      refine ⟨hsame, ?_, ?_, ?_, ?_, ?_, hw.once⟩
      · intro key n hhit
        rcases Cache.peek?_add_eq_some hhit with ⟨rfl, rfl⟩ | ⟨-, hhit⟩
        · exact ⟨d, List.getElem?_concat_length, by rw [hd, hfound]⟩
        · obtain ⟨e, hknown, he⟩ := hw.cached key n hhit
          have hn : n < w.parsed.length := (List.getElem?_eq_some_iff.mp hknown).choose
          exact ⟨e, (List.getElem?_append_left hn).trans hknown, he⟩
      · have hadd : (w.learn uri d r).cache.entries.length ≤ w.cache.entries.length + 1 :=
          Cache.length_add w.cache uri w.parsed.length
        have hroom := hw.room
        omega
      · intro e he
        rcases List.mem_append.mp he with he | he
        · exact hw.parsed e he
        · obtain rfl := List.mem_singleton.mp he
          exact ⟨uri, by rw [hd, hfound]⟩
      · intro n hn
        have hbefore := hw.numbers n hn
        omega
      · rw [Walk.docs_learn _ _ _ hw.numbers]
        exact hw.paths

/-- Loading leaves the result as it is. -/
theorem Loads.frame {uri : String} {n : Nat} (h : Loads l codes uri w (.ok n, w'))
    (hw : w.Sound l codes) :
    w'.docs = w.docs ∧ w'.seen = w.seen ∧ w'.unresolved = w.unresolved := by
  cases h with
  | recalled hhit hknown hfound => exact ⟨rfl, rfl, rfl⟩
  | parsed habsent hfound hsame hsilent => exact ⟨Walk.docs_learn _ _ _ hw.numbers, rfl, rfl⟩

/-- Loading gives the document of the target. -/
theorem Loads.document {uri : String} {n : Nat} (h : Loads l codes uri w (.ok n, w')) :
    ∃ d, w'.parsed[n]? = some d ∧ l.documentAt codes uri = .ok d.unmarked := by
  cases h with
  | recalled hhit hknown hfound => exact ⟨_, hknown, hfound⟩
  | parsed habsent hfound hsame hsilent =>
      refine ⟨_, List.getElem?_concat_length, ?_⟩
      rw [Loader.unmarked_of_documentAt hfound, hfound]

namespace Walk.Sound

theorem miss (hw : w.Sound l codes) (source path : String) : (w.miss source path).Sound l codes :=
  ⟨hw.harmless, hw.cached, hw.room, hw.parsed, hw.numbers, hw.paths, hw.once⟩

theorem enter {n : Nat} {d : Document} (hw : w.Sound l codes) (hknown : w.parsed[n]? = some d)
    (hfresh : d.path ∉ w.seen) : (w.enter n d.path).Sound l codes := by
  refine ⟨hw.harmless, hw.cached, hw.room, hw.parsed, ?_, ?_, ?_⟩
  · intro k hk
    rcases List.mem_append.mp hk with hk | hk
    · exact hw.numbers k hk
    · obtain rfl := List.mem_singleton.mp hk
      exact (List.getElem?_eq_some_iff.mp hknown).choose
  · rw [Walk.docs_enter hknown, List.map_append, hw.paths]
    simp [Walk.enter]
  · exact List.nodup_cons.mpr ⟨hfresh, hw.once⟩

theorem mark (hw : w.Sound l codes) (n : Nat) : (Loader.markEntry n w).Sound l codes := by
  have hsame := Walk.unmarked_markEntry (w := w) (n := n)
  refine ⟨hw.harmless, ?_, ?_, ?_, ?_, ?_, hw.once⟩
  · intro uri k hhit
    obtain ⟨e, hk, he⟩ := hw.cached uri k hhit
    have hmarked := hsame k
    rw [hk] at hmarked
    obtain ⟨e', hk', he'⟩ := Option.map_eq_some_iff.mp hmarked
    exact ⟨e', hk', by rw [he', he]⟩
  · rw [Walk.length_markEntry]
    exact hw.room
  · intro e he
    obtain ⟨k, hk⟩ := List.mem_iff_getElem?.mp he
    have hmarked := hsame k
    rw [hk] at hmarked
    obtain ⟨e', hk', he'⟩ := Option.map_eq_some_iff.mp hmarked.symm
    obtain ⟨uri, huri⟩ := hw.parsed e' (List.mem_of_getElem? hk')
    exact ⟨uri, by rw [huri, he']⟩
  · intro k hk
    rw [Walk.length_markEntry]
    exact hw.numbers k hk
  · rw [← map_path_unmarked, Walk.docs_markEntry, map_path_unmarked]
    exact hw.paths

end Walk.Sound

/-- Every move keeps a walk sound. -/
theorem Move.sound (h : Move l codes entries w w') (hw : w.Sound l codes) : w'.Sound l codes := by
  cases h with
  | load hmeant hloads => exact hloads.sound hw
  | miss source path => exact hw.miss source path
  | enter hknown hfresh => exact hw.enter hknown hfresh
  | mark hgiven hknown hfound => exact hw.mark _

theorem Moves.sound (h : Moves l codes entries w w') (hw : w.Sound l codes) : w'.Sound l codes := by
  induction h with
  | refl => exact hw
  | tail _ hmove ih => exact hmove.sound ih

/-- A move adds to the result and takes nothing back. -/
theorem Move.docs_prefix (h : Move l codes entries w w') (hw : w.Sound l codes) :
    w.docs.map Document.unmarked <+: w'.docs.map Document.unmarked := by
  cases h with
  | load hmeant hloads => rw [(hloads.frame hw).1]
  | miss source path => exact List.prefix_refl _
  | enter hknown hfresh =>
      rw [Walk.docs_enter hknown, List.map_append]
      exact List.prefix_append _ _
  | mark hgiven hknown hfound =>
      rw [Walk.docs_markEntry]

theorem Moves.docs_prefix (h : Moves l codes entries w w') (hw : w.Sound l codes) :
    w.docs.map Document.unmarked <+: w'.docs.map Document.unmarked := by
  induction h with
  | refl => exact List.prefix_refl _
  | tail hmoves hmove ih => exact ih.trans (hmove.docs_prefix (Moves.sound hmoves hw))

theorem Loader.named_unmarked (docs : List Document) :
    l.named entries (docs.map Document.unmarked) = l.named entries docs := by
  simp [named, List.flatMap_map]

theorem Moves.named_subset (h : Moves l codes entries w w') (hw : w.Sound l codes) :
    l.named entries w.docs ⊆ l.named entries w'.docs := by
  obtain ⟨new, hnew⟩ := Moves.docs_prefix h hw
  rw [← Loader.named_unmarked w.docs, ← Loader.named_unmarked w'.docs, ← hnew]
  unfold Loader.named
  rw [List.flatMap_append, ← List.append_assoc]
  exact List.subset_append_left _ _

end Keeping

/-! ## Runs that succeed -/

section Runs

variable {l : Loader} {codes : List Code} {entries : List String} {w w' : Walk}

theorem followIncludes_cons_ok {visit : Nat → Step Unit} {source path : String}
    {rest : List String} (hw : w.Sound l codes)
    (h : l.followIncludes visit source (path :: rest) w = (.ok (), w')) :
    (l.target? source path = none ∧
        l.followIncludes visit source rest (w.miss source path) = (.ok (), w')) ∨
      ∃ uri n w₁ w₂, l.target? source path = some uri ∧ l.load uri w = (.ok n, w₁) ∧
        visit n w₁ = (.ok (), w₂) ∧ l.followIncludes visit source rest w₂ = (.ok (), w') := by
  rw [Loader.followIncludes, hw.resolve?] at h
  cases htarget : l.target? source path with
  | none =>
      simp only [htarget] at h
      split at h
      · cases h
      · exact .inl ⟨rfl, h⟩
  | some uri =>
      simp only [htarget] at h
      split at h
      · cases h
      · rename_i n w₁ hload
        split at h
        · cases h
        · rename_i w₂ hvisit
          exact .inr ⟨uri, n, w₁, w₂, rfl, hload, hvisit, h⟩

theorem visit_ok {fuel n : Nat} (h : l.visit (fuel + 1) n w = (.ok (), w')) :
    ∃ d, w.parsed[n]? = some d ∧
      ((d.path ∈ w.seen ∧ w' = w) ∨
        (d.path ∉ w.seen ∧ l.followIncludes (l.visit fuel) d.path d.includes
          (w.enter n d.path) = (.ok (), w'))) := by
  rw [Loader.visit] at h
  split at h
  · cases h
  · rename_i d hknown
    refine ⟨d, hknown, ?_⟩
    split at h
    · rename_i hseen
      cases h
      exact .inl ⟨by simpa using hseen, rfl⟩
    · rename_i hseen
      exact .inr ⟨by simpa using hseen, h⟩

theorem visitEntries_cons_ok {entry : String} {rest : List String}
    (h : l.visitEntries (entry :: rest) w = (.ok (), w')) :
    ∃ n w₁ w₂, l.load (Target.normalize entry) w = (.ok n, w₁) ∧
      l.visit (2 * l.system.bound + 2) n (Loader.markEntry n w₁) = (.ok (), w₂) ∧
      l.visitEntries rest w₂ = (.ok (), w') := by
  rw [Loader.visitEntries] at h
  split at h
  · cases h
  · rename_i n w₁ hload
    split at h
    · cases h
    · rename_i w₂ hvisit
      exact ⟨n, w₁, w₂, hload, hvisit, h⟩

theorem followIncludes_moves {visit : Nat → Step Unit} {source : String} {paths : List String}
    (hvisit : ∀ n w w', w.Sound l codes → visit n w = (.ok (), w') → Moves l codes entries w w')
    (hmeant : ∀ path ∈ paths, ∀ uri ∈ l.target? source path, uri ∈ l.named entries w.docs)
    (hw : w.Sound l codes) (h : l.followIncludes visit source paths w = (.ok (), w')) :
    Moves l codes entries w w' := by
  induction paths generalizing w with
  | nil =>
      cases h
      exact .refl
  | cons path rest ih =>
      rcases followIncludes_cons_ok hw h with
        ⟨-, hrest⟩ | ⟨uri, n, w₁, w₂, htarget, hload, hrun, hrest⟩
      · have hmove : Move l codes entries w (w.miss source path) := .miss source path
        refine .head hmove (ih ?_ (hmove.sound hw) hrest)
        intro path' hpath'
        exact hmeant path' (List.mem_cons_of_mem path hpath')
      · have hnamed := hmeant path List.mem_cons_self uri htarget
        have hmove : Move l codes entries w w₁ := .load hnamed (hw.loads hload)
        have hmoves : Moves l codes entries w w₂ :=
          .head hmove (hvisit n w₁ w₂ (hmove.sound hw) hrun)
        refine hmoves.trans (ih ?_ (Moves.sound hmoves hw) hrest)
        intro path' hpath' uri' huri'
        have hnamed' := hmeant path' (List.mem_cons_of_mem path hpath') uri' huri'
        exact Moves.named_subset hmoves hw hnamed'

theorem visit_moves {fuel n : Nat} (hw : w.Sound l codes) (h : l.visit fuel n w = (.ok (), w')) :
    Moves l codes entries w w' := by
  induction fuel generalizing n w w' with
  | zero =>
      cases h
      exact .refl
  | succ fuel ih =>
      obtain ⟨d, hknown, ⟨-, rfl⟩ | ⟨hfresh, hfollow⟩⟩ := visit_ok h
      · exact .refl
      · have hmove : Move l codes entries w (w.enter n d.path) := .enter hknown hfresh
        refine .head hmove (followIncludes_moves (fun _ _ _ => ih) ?_ (hmove.sound hw) hfollow)
        intro path hpath uri huri
        rw [Walk.docs_enter hknown]
        refine List.mem_append_right _ (List.mem_flatMap.mpr ⟨d, by simp, ?_⟩)
        exact List.mem_filterMap.mpr ⟨path, hpath, huri⟩

/-- A run that succeeds is a sequence of moves. -/
theorem visitEntries_moves {pending : List String} (hgiven : pending ⊆ entries)
    (hw : w.Sound l codes) (h : l.visitEntries pending w = (.ok (), w')) :
    Moves l codes entries w w' := by
  induction pending generalizing w with
  | nil =>
      cases h
      exact .refl
  | cons entry rest ih =>
      obtain ⟨n, w₁, w₂, hload, hvisit, hrest⟩ := visitEntries_cons_ok h
      have hentry : entry ∈ entries := hgiven List.mem_cons_self
      have hnamed : Target.normalize entry ∈ l.named entries w.docs :=
        List.mem_append_left _ (List.mem_map_of_mem hentry)
      have hloads := hw.loads hload
      have hmove : Move l codes entries w w₁ := .load hnamed hloads
      obtain ⟨d, hknown, hfound⟩ := hloads.document
      have hmark : Move l codes entries w₁ (Loader.markEntry n w₁) := .mark hentry hknown hfound
      have hmarked := hmark.sound (hmove.sound hw)
      have hmoves : Moves l codes entries w w₂ :=
        .head hmove (.head hmark (visit_moves hmarked hvisit))
      have hrests : rest ⊆ entries := fun x hx => hgiven (List.mem_cons_of_mem entry hx)
      exact hmoves.trans (ih hrests (Moves.sound hmoves hw) hrest)

/-- The walk that has done nothing yet. -/
def Walk.start (size : Nat) (r : Reporter) : Walk := { cache := { size }, reporter := r }

theorem Walk.Sound.start (l : Loader) (size : Nat) (r : Reporter) :
    (Walk.start size r).Sound l r.nonfatal :=
  ⟨rfl, by simp [Walk.start, Cache.peek?, Table.find?], Nat.le_refl _, by simp [Walk.start],
    by simp [Walk.start], rfl, List.nodup_nil⟩

theorem loadAll_ok {size : Nat} {r : Reporter} {docs : List Document}
    (h : (l.loadAll size entries r).docs = .ok docs) :
    ∃ w, l.visitEntries entries (Walk.start size r) = (.ok (), w) ∧ docs = w.docs ∧
      (l.loadAll size entries r).reporter = check w.docs w.reporter := by
  unfold Loader.loadAll at h ⊢
  split at h
  · cases h
  · rename_i w hrun
    cases h
    exact ⟨w, hrun, rfl, rfl⟩

end Runs

end Load
end ClientGen
