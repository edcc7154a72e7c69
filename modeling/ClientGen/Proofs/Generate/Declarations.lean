import ClientGen.Proofs.Generate.References
import ClientGen.Proofs.Plugin.Rewriting

/-! # The declarations of an entry

The scope of an entry is its document followed by those that the includes of the parsed
documents lead to, each once, also where includes lead back. The types module declares each
name of the scope once, in order of the first statements that have it
(`generate_declares_once`).
-/

namespace ClientGen
namespace Generate

open Pipeline (Registry)
open Plugin (includesOf mem_spellIncludes)
open Relation (ReflTransGen)
open Typescript (Declaration)

/-! ## Includes of parsed documents -/

/-- An include of the document `a` means the document `b` of `docs`: a path from the root
means the document that stands there, any other path the one next to `a`, and only if
there is none the one that stands there from the root. -/
inductive Includes (docs : List Document) (a b : Document) : Prop
  | near (path : String) (hpath : path ∈ a.includes) (hrooted : Path.isRooted path = false)
      (hb : b ∈ docs) (hstands : b.path = Path.join [Path.dir a.path, path])
  | root (path : String) (hpath : path ∈ a.includes)
      (hfree : Path.isRooted path = true ∨ ∀ c ∈ docs, c.path ≠ Path.join [Path.dir a.path, path])
      (hb : b ∈ docs) (hstands : b.path = Path.rooted path)

section Graph

variable {docs : List Document} {a b d x : Document} {p q source path : String}

/-- The documents at their paths, with their included paths spelled out. -/
def spelledTable (docs : List Document) : Table Document :=
  (Symbols.ofDocs (docs.map includesOf)).docs

theorem has_spelledTable : (spelledTable docs).has p = true ↔ ∃ c ∈ docs, c.path = p := by
  have hkeys : (spelledTable docs).keys = Table.keys
      (Table.ofList ((docs.map includesOf).map fun d => (d.path, d))) := rfl
  rw [Table.has_iff, hkeys, Table.mem_keys_ofList]
  simp [includesOf]

theorem find?_spelledTable (honce : (docs.map (·.path)).Nodup) (ha : a ∈ docs) :
    (spelledTable docs).find? a.path = some (includesOf a) := by
  have hnodup : ((docs.map includesOf).map (·.path)).Nodup := by
    simpa [Function.comp_def, includesOf] using honce
  exact (Symbols.find?_ofDocs hnodup).mpr ⟨List.mem_map_of_mem ha, rfl⟩

theorem includedPath?_relative (table : Table Document) (source path : String) :
    includedPath? table source (Target.relative path) = includedPath? table source path := by
  rw [includedPath?, includedPath?, Target.candidates_relative]

theorem includedPath?_eq_some_iff {table : Table Document} :
    includedPath? table source path = some q ↔ table.has q = true ∧
      (Path.isRooted path = false ∧ q = Path.join [Path.dir source, path] ∨
        (Path.isRooted path = true ∨ table.has (Path.join [Path.dir source, path]) = false) ∧
          q = Path.rooted path) := by
  have hone : ∀ p, [p].find? table.has = some q ↔ table.has q = true ∧ q = p := by
    intro p
    rw [List.find?_singleton, Option.ite_none_right_eq_some, Option.some.injEq]
    constructor
    · rintro ⟨hp, rfl⟩
      exact ⟨hp, rfl⟩
    · rintro ⟨hp, rfl⟩
      exact ⟨hp, rfl⟩
  unfold includedPath? Target.candidates
  cases hrooted : Path.isRooted path with
  | true =>
      rw [if_pos rfl, hone]
      simp
  | false =>
      rw [if_neg (by simp), List.find?_cons]
      cases hnear : table.has (Path.join [Path.dir source, path]) with
      | true =>
          simp only [Option.some.injEq]
          constructor
          · rintro rfl
            simp [hnear]
          · rintro ⟨-, ⟨-, rfl⟩ | ⟨hfree, -⟩⟩
            · rfl
            · simp at hfree
      | false =>
          dsimp only
          rw [hone]
          refine and_congr_right fun hq => ?_
          have hfar : q ≠ Path.join [Path.dir source, path] := by
            rintro rfl
            rw [hnear] at hq
            cases hq
          simp [hfar]

/-- Spelling out the included paths does not change what they mean. -/
theorem leads_iff (honce : (docs.map (·.path)).Nodup) (ha : a ∈ docs) :
    Leads (spelledTable docs) a.path q ↔ ∃ b, Includes docs a b ∧ b.path = q := by
  have hsome : Leads (spelledTable docs) a.path q ↔
      ∃ path ∈ a.includes, includedPath? (spelledTable docs) a.path path = some q := by
    unfold Leads
    rw [find?_spelledTable honce ha]
    constructor
    · rintro ⟨d, hd, spelled, hspelled, hq⟩
      obtain rfl := Option.some.inj hd
      obtain ⟨-, path, hpath, rfl⟩ := mem_spellIncludes.mp hspelled
      exact ⟨path, hpath, by rwa [includedPath?_relative] at hq⟩
    · rintro ⟨path, hpath, hq⟩
      refine ⟨_, rfl, Target.relative path, ?_, by rwa [includedPath?_relative]⟩
      exact mem_spellIncludes.mpr ⟨List.not_mem_nil, path, hpath, rfl⟩
  have hnone : ∀ p, (spelledTable docs).has p = false ↔ ∀ c ∈ docs, c.path ≠ p := by
    intro p
    rw [← Bool.not_eq_true, has_spelledTable]
    simp
  rw [hsome]
  constructor
  · rintro ⟨path, hpath, hq⟩
    obtain ⟨hhas, hrule⟩ := includedPath?_eq_some_iff.mp hq
    obtain ⟨b, hb, rfl⟩ := has_spelledTable.mp hhas
    rcases hrule with ⟨hrooted, hnear⟩ | ⟨hfree, hroot⟩
    · exact ⟨b, .near path hpath hrooted hb hnear, rfl⟩
    · exact ⟨b, .root path hpath (hfree.imp_right (hnone _).mp) hb hroot, rfl⟩
  · rintro ⟨b, hincludes, rfl⟩
    cases hincludes with
    | near path hpath hrooted hb hnear =>
        refine ⟨path, hpath, includedPath?_eq_some_iff.mpr ⟨?_, .inl ⟨hrooted, hnear⟩⟩⟩
        exact has_spelledTable.mpr ⟨b, hb, rfl⟩
    | root path hpath hfree hb hroot =>
        refine ⟨path, hpath, includedPath?_eq_some_iff.mpr ⟨?_, .inr ⟨?_, hroot⟩⟩⟩
        · exact has_spelledTable.mpr ⟨b, hb, rfl⟩
        · exact hfree.imp_right (hnone _).mpr

theorem Includes.mem (h : Includes docs a b) : b ∈ docs := by
  cases h with
  | near _ _ _ hb => exact hb
  | root _ _ _ hb => exact hb

/-- What includes lead to, through paths of the table as among the documents themselves. -/
theorem leads_star_iff (honce : (docs.map (·.path)).Nodup) (hd : d ∈ docs) :
    ReflTransGen (Leads (spelledTable docs)) d.path p ↔
      ∃ b ∈ docs, ReflTransGen (Includes docs) d b ∧ b.path = p := by
  constructor
  · intro h
    induction h with
    | refl => exact ⟨d, hd, .refl, rfl⟩
    | tail _ hstep ih =>
        obtain ⟨b, hb, hreach, rfl⟩ := ih
        obtain ⟨c, hincludes, rfl⟩ := (leads_iff honce hb).mp hstep
        exact ⟨c, hincludes.mem, hreach.tail hincludes, rfl⟩
  · rintro ⟨b, -, hreach, rfl⟩
    have hboth : ReflTransGen (Leads (spelledTable docs)) d.path b.path ∧ b ∈ docs := by
      induction hreach with
      | refl => exact ⟨.refl, hd⟩
      | tail _ hincludes ih =>
          obtain ⟨hpaths, hb⟩ := ih
          exact ⟨hpaths.tail ((leads_iff honce hb).mpr ⟨_, hincludes, rfl⟩), hincludes.mem⟩
    exact hboth.1

/-- A scope holds the documents that includes of parsed documents lead to, and no others. -/
theorem mem_reachable_spelledTable (honce : (docs.map (·.path)).Nodup) (hd : d ∈ docs) :
    x ∈ reachable (spelledTable docs) (includesOf d) ↔
      ∃ b, ReflTransGen (Includes docs) d b ∧ x = includesOf b := by
  have hkey : (includesOf d).path ∈ (spelledTable docs).keys :=
    Table.has_iff.mp (has_spelledTable.mpr ⟨d, hd, rfl⟩)
  rw [mem_reachable_iff hkey]
  constructor
  · rintro ⟨p, hreach, hx⟩
    obtain ⟨b, hb, hincludes, rfl⟩ := (leads_star_iff honce hd).mp hreach
    rw [find?_spelledTable honce hb] at hx
    exact ⟨b, hincludes, (Option.some.inj hx).symm⟩
  · rintro ⟨b, hincludes, rfl⟩
    have hb : b ∈ docs := by
      rcases hincludes.cases_tail with rfl | ⟨c, -, hlast⟩
      · exact hd
      · exact hlast.mem
    exact ⟨b.path, (leads_star_iff honce hd).mpr ⟨b, hb, hincludes, rfl⟩,
      find?_spelledTable honce hb⟩

/-- A scope begins with the document it is the scope of and holds each document once. -/
theorem reachable_eq_cons {s : Symbols} (hs : s.Keyed) (hd : s.docs.find? d.path = some d) :
    (∃ others, reachable s.docs d = d :: others) ∧
      ((reachable s.docs d).map (·.path)).Nodup := by
  have hkey : d.path ∈ s.docs.keys := List.mem_map_of_mem (Table.mem_of_find? hd)
  obtain ⟨m, hvisiting, -⟩ := Visiting.all hkey
  have hpaths : ∀ {paths : List String}, (∀ p ∈ paths, p ∈ s.docs.keys) →
      (paths.filterMap s.docs.find?).map (·.path) = paths := by
    intro paths hknown
    induction paths with
    | nil => rfl
    | cons p paths ih =>
        obtain ⟨x, hx⟩ := Table.exists_find? (hknown p List.mem_cons_self)
        rw [List.filterMap_cons_some hx, List.map_cons, hs.path_eq p x hx,
          ih fun q hq => hknown q (List.mem_cons_of_mem p hq)]
  constructor
  · obtain ⟨rest, hrest⟩ := prefix_visitFrom s.docs (s.docs.length + 1) 0 [d.path]
    refine ⟨rest.filterMap s.docs.find?, ?_⟩
    rw [reachable, ← hrest, List.singleton_append, List.filterMap_cons_some hd]
  · rw [reachable, hpaths hvisiting.known]
    exact hvisiting.once

end Graph

/-! ## Names -/

section Names

variable {g : Registry} {style : TypeStyle}

/-- The names that statements declare in the types module, repeated ones included. -/
def declaredNames (sts : List Statement) : List String :=
  (sts.filter declaresType).map (·.name)

/-- The first of some statements that declares a name in the types module. -/
def firstDeclaring? (sts : List (Document × Statement)) (name : String) :
    Option (Document × Statement) :=
  sts.find? fun p => declaresType p.2 && p.2.name == name

theorem firstDeclaring?_cons {p : Document × Statement} {rest : List (Document × Statement)}
    {name : String} (h : declaresType p.2 = true → p.2.name ≠ name) :
    firstDeclaring? (p :: rest) name = firstDeclaring? rest name := by
  unfold firstDeclaring?
  apply List.find?_cons_of_neg
  intro hboth
  obtain ⟨htype, hname⟩ := Bool.and_eq_true_iff.mp hboth
  exact h htype (eq_of_beq hname)

/-- The names that were seen before, followed by the declared ones, are those of all
statements, each at its first place. -/
theorem names_declareAll {seen : Table String} {sts : List (Document × Statement)}
    {ds : List Declaration} (h : (declareAll g style seen sts).1 = .ok ds) :
    seen.keys ++ ds.map declaredName = (declaredNames (sts.map (·.2))).foldl addNew seen.keys := by
  induction sts generalizing seen ds with
  | nil =>
      obtain rfl := Except.ok.inj h
      simp [declaredNames]
  | cons p rest ih =>
      rw [List.map_cons, declaredNames]
      rcases declareAll_cons h with
        ⟨hrest, hold⟩ | ⟨x, others, htype, hnew, -, hname, hothers, rfl⟩
      · by_cases htype : declaresType p.2 = true
        · rw [List.filter_cons_of_pos htype, List.map_cons, List.foldl_cons,
            addNew_of_mem (hold htype)]
          exact ih hrest
        · rw [List.filter_cons_of_neg htype]
          exact ih hrest
      · rw [List.filter_cons_of_pos htype, List.map_cons, List.map_cons, List.foldl_cons,
          addNew_of_not_mem hnew, hname, List.append_cons]
        have hkeys : (seen.insert p.2.name p.1.path).keys = seen.keys ++ [p.2.name] := by
          rw [Table.keys_insert, if_neg hnew]
        rw [← hkeys]
        exact ih hothers

/-- The first statement of a name is the one that is rendered. -/
theorem first_declareAll {seen : Table String} {sts : List (Document × Statement)}
    {ds : List Declaration} (h : (declareAll g style seen sts).1 = .ok ds) :
    ∀ x ∈ ds, declaredName x ∉ seen.keys ∧ ∃ p, firstDeclaring? sts (declaredName x) = some p ∧
      declarationOf g style p.1 p.2 = .ok (some x) := by
  induction sts generalizing seen ds with
  | nil =>
      obtain rfl := Except.ok.inj h
      simp
  | cons p rest ih =>
      intro x hx
      rcases declareAll_cons h with
        ⟨hrest, hold⟩ | ⟨y, others, htype, hnew, hdeclared, hname, hothers, rfl⟩
      · obtain ⟨hfresh, q, hq, hdeclared⟩ := ih hrest x hx
        refine ⟨hfresh, q, ?_, hdeclared⟩
        have hskip : declaresType p.2 = true → p.2.name ≠ declaredName x :=
          fun htype hname => hfresh (hname ▸ hold htype)
        rw [firstDeclaring?_cons hskip, hq]
      · rcases List.mem_cons.mp hx with rfl | hx
        · refine ⟨by rwa [hname], p, ?_, hdeclared⟩
          rw [firstDeclaring?, List.find?_cons_of_pos (by simp [htype, hname])]
        · obtain ⟨hfresh, q, hq, hdeclared⟩ := ih hothers x hx
          rw [Table.mem_keys_insert, not_or] at hfresh
          refine ⟨hfresh.2, q, ?_, hdeclared⟩
          rw [firstDeclaring?_cons fun _ hname => hfresh.1 hname.symm, hq]

/-- The types module of some documents declares the names of their statements, each at its
first place. -/
theorem names_typeDeclarations {docs : List Document} {ds : List Declaration}
    (h : (typeDeclarations g style docs).1 = .ok ds) :
    ds.map declaredName = distinct (declaredNames (docs.flatMap (·.statements))) := by
  have hstatements : (statementsOf docs).map (·.2) = docs.flatMap (·.statements) := by
    simp [statementsOf, List.map_flatMap, Function.comp_def]
  have hnames := names_declareAll h
  rwa [hstatements] at hnames

end Names

/-! ## Runs -/

/-- What the types module of an entry declares. For every run without plugins that succeeds,
wherever it reads and writes, and every entry: the scope of the entry is its document
followed by the documents that includes of the parsed documents lead to, and no others,
each once. The types module declares each name that a structure, an enumeration, a type
name or a constant of the scope has, once, in order of their first statements; and it
renders those. -/
theorem generate_declares_once {σ : Type} (o : Options) (origin : Origin) (sink : Sink σ) (s : σ)
    (written : Written) (hplugins : o.plugins = [])
    (h : (generate o origin (some sink) s).result = .ok written) :
    ∃ R : Rendered o origin, written = .ofFiles R.output ∧ ∀ e ∈ R.entries, ∃ d ∈ R.loaded,
      d.path = e.path ∧ R.job.docs.find? e.path = some (includesOf d) ∧
      let scope := reachable R.job.docs (includesOf d)
      (∃ others, scope = includesOf d :: others) ∧
      (scope.map (·.path)).Nodup ∧
      (∀ x, x ∈ scope ↔ ∃ b, ReflTransGen (Includes R.loaded) d b ∧ x = includesOf b) ∧
      ∃ ds, (Module.path o (.types e (includesOf d)), Declaration.renderAll ds) ∈ R.files ∧
        (ds.map declaredName).Nodup ∧
        ds.map declaredName = distinct (declaredNames (scope.flatMap (·.statements))) ∧
        ∀ x ∈ ds, ∃ p, firstDeclaring? (statementsOf scope) (declaredName x) = some p ∧
          declarationOf R.job.registry R.job.style p.1 p.2 = .ok (some x) := by
  obtain ⟨R, hwritten, -⟩ := renders_of_generate hplugins h
  refine ⟨R, hwritten, fun e he => ?_⟩
  obtain ⟨d', hd'⟩ := R.found e he
  have hfound : R.job.docs.find? e.path = some d' := hd'
  obtain ⟨d, hd, rfl, hpath⟩ := R.mem_docs hfound
  have honce : (R.loaded.map (·.path)).Nodup := by
    simpa [Function.comp_def, includesOf] using R.nodup_paths
  have hself : R.job.docs.find? (includesOf d).path = some (includesOf d) :=
    R.keyed.find?_path hfound
  obtain ⟨hbegins, hnodup⟩ := reachable_eq_cons R.keyed hself
  obtain ⟨text, hfile, ds, hds, rfl⟩ := R.exists_file (m := .types e (includesOf d))
    (List.mem_append_left _ (List.mem_flatMap.mpr
      ⟨e, he, Job.mem_modulesAt.mpr ⟨_, hfound, mem_entryModules.mpr (.inl rfl)⟩⟩))
  have hnames := names_typeDeclarations hds
  refine ⟨d, hd, hpath, hfound, hbegins, hnodup, fun x => mem_reachable_spelledTable honce hd,
    ds, hfile, ?_, hnames, fun x hx => (first_declareAll hds x hx).2⟩
  rw [hnames]
  exact nodup_distinct _

/-- Two files that include each other, and of whose names one is repeated. -/
def includeCycle : List (String × String) :=
  [("a.thrift", "include 'b.thrift'\nstruct A \x7b\x7d\nconst i32 N = 1\nstruct B \x7b\x7d"),
    ("b.thrift", "include 'a.thrift'\nenum B \x7b X \x7d\nservice S \x7b\x7d\ntypedef i32 C")]

theorem generate_declares_once_cycle :
    let o : Options := { entries := [("a", "a.thrift")] }
    ∃ written, (generate o (.ofFiles includeCycle) (some .memories) [{}]).result = .ok written ∧
      ∃ R : Rendered o (.ofFiles includeCycle), ∃ ds,
        ("a/types.ts", Declaration.renderAll ds) ∈ R.files ∧
          ds.map declaredName = ["A", "N", "B", "C"] := by
  intro o
  obtain ⟨written, hwritten⟩ : ∃ written,
      (generate o (.ofFiles includeCycle) (some .memories) [{}]).result = .ok written :=
    generates_memories rfl rfl rfl (by decide +kernel)
  obtain ⟨R, -, hentries⟩ :=
    generate_declares_once o (.ofFiles includeCycle) .memories [{}] written rfl hwritten
  have hresolved : R.entries = [⟨"a", "/a.thrift"⟩] :=
    Except.ok.inj (R.resolved.symm.trans (Source.ok_of_toOption (by decide +kernel)))
  obtain ⟨d, -, -, hfound, -, -, -, ds, hfile, -, hnames, -⟩ :=
    hentries ⟨"a", "/a.thrift"⟩ (by simp [hresolved])
  have hdocs : R.job.docs = spelledTable (loadedFrom includeCycle ["/a.thrift"]) := by
    have hloaded := R.loaded_eq rfl
    rw [hresolved] at hloaded
    exact congrArg spelledTable hloaded
  have hdeclared : ((spelledTable (loadedFrom includeCycle ["/a.thrift"])).find? "/a.thrift").map
      (fun d => distinct (declaredNames ((reachable
        (spelledTable (loadedFrom includeCycle ["/a.thrift"])) d).flatMap (·.statements)))) =
      some ["A", "N", "B", "C"] := by
    decide +kernel
  rw [hdocs] at hfound hnames
  rw [hfound, Option.map_some, Option.some_inj] at hdeclared
  have hpath : Module.path o (.types ⟨"a", "/a.thrift"⟩ (includesOf d)) = "a/types.ts" := by
    have hjoin : Path.join ["", "a", "types.ts"] = "a/types.ts" := by decide
    exact hjoin
  rw [hpath] at hfile
  exact ⟨written, hwritten, R, ds, hfile, hnames.trans hdeclared⟩

end Generate
end ClientGen
