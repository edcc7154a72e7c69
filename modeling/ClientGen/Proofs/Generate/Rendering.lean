import ClientGen.Proofs.Generate.References
import ClientGen.Proofs.Plugin.Methods

/-! # Rendering of loaded documents

Types, constants and methods of documents that were loaded always render: their scalars
are known, and the constants of Thrift, the only ones that are declared, have a JSON form.
The schema needs no such facts, since the only numbers in it are those of enumerations
(`rendering_succeeds`).
-/

namespace ClientGen

open Source (Failure Reporter exists_ok_bind exists_ok_pure exists_ok_within exists_ok_mapM)

/-- A JSON document in which all numbers are whole numbers. -/
inductive Json.Whole : Json → Prop
  | null : Whole .null
  | bool (b : Bool) : Whole (.bool b)
  | number (n : Int) : Whole (.number (Text.ofInt n))
  | string (text : String) : Whole (.string text)
  | array {items : List Json} (h : ∀ v ∈ items, Whole v) : Whole (.array items)
  | object {fields : List (String × Json)} (h : ∀ p ∈ fields, Whole p.2) : Whole (.object fields)

namespace Generate

open Load (Loader)
open Pipeline (Registry)
open Plugin (methodOf)
open Typescript (Mapper ok_typeName)

/-! ## Declarations -/

section Declarations

variable (g : Registry) (style : TypeStyle) {d : Document}

theorem ok_constText {c : Const} (h : c.Plain) : ∃ x, constText c = .ok x := by
  unfold constText
  split
  · exact ⟨_, rfl⟩
  · exact exists_ok_pure.mpr ((Value.ok_layout_iff _ _).mpr h.encodable)

theorem ok_declarationOf {dialect : Dialect} {st : Statement} (h : st.Sound dialect) :
    ∃ x, declarationOf g style d st = .ok x := by
  cases st with
  | service s => exact ⟨_, rfl⟩
  | enum e => exact ⟨_, rfl⟩
  | struct s =>
      refine exists_ok_pure.mpr (exists_ok_mapM.mpr fun f hf => ?_)
      exact exists_ok_pure.mpr (exists_ok_within.mpr (ok_typeName _ _ _ (h f hf).type))
  | typedef t =>
      exact exists_ok_within.mpr (exists_ok_pure.mpr (ok_typeName _ _ _ h))
  | const c =>
      obtain ⟨type, htype⟩ := ok_typeName g.types (g.symbols.resolver d) style.enumKeysAsNumbers h.1
      exact exists_ok_within.mpr
        (exists_ok_bind.mpr ⟨type, htype, exists_ok_pure.mpr (ok_constText h.2)⟩)

theorem ok_declareAll {sts : List (Document × Statement)}
    (h : ∀ p ∈ sts, p.2.Sound p.1.dialect) (seen : Table String) :
    ∃ ds, (declareAll g style seen sts).1 = .ok ds := by
  induction sts generalizing seen with
  | nil => exact ⟨[], rfl⟩
  | cons p rest ih =>
      obtain ⟨d, st⟩ := p
      have hrest := ih fun q hq => h q (List.mem_cons_of_mem _ hq)
      obtain ⟨x, hx⟩ := ok_declarationOf g style (d := d) (h (d, st) List.mem_cons_self)
      unfold declareAll
      split
      · exact hrest seen
      · split
        · exact hrest seen
        · rw [hx]
          obtain ⟨ds, hds⟩ := hrest (seen.insert st.name d.path)
          exact ⟨x.toList ++ ds, by simp only [hds, Except.map]⟩

theorem ok_typeDeclarations {scope : List Document} (h : ∀ d ∈ scope, d.Sound) :
    ∃ ds, (typeDeclarations g style scope).1 = .ok ds := by
  refine ok_declareAll g style (fun p hp => ?_) []
  obtain ⟨d, hd, hmap⟩ := List.mem_flatMap.mp hp
  obtain ⟨st, hst, rfl⟩ := List.mem_map.mp hmap
  exact h d hd st hst

end Declarations

/-! ## Schemas -/

/-- A schema in whose parts all numbers are whole numbers. -/
structure Schema.Whole (s : Schema) : Prop where
  defs : ∀ p ∈ s.defs, p.2.Whole
  items : ∀ v ∈ s.items, v.Whole
  properties : ∀ fields ∈ s.properties, ∀ p ∈ fields, p.2.Whole
  additional : ∀ v ∈ s.additional, v.Whole

theorem Schema.Whole.toJson {s : Schema} (h : s.Whole) : s.toJson.Whole := by
  have hite : ∀ {c : Prop} [Decidable c] {fields : List (String × Json)},
      (∀ p ∈ fields, p.2.Whole) → (if c then Json.bool true else .object fields).Whole := by
    intro c _ fields hfields
    split
    · exact .bool true
    · exact .object hfields
  unfold Schema.toJson
  refine hite ?_
  rintro ⟨key, v⟩ hmem
  simp only [List.mem_append, List.mem_ite_nil_left, List.mem_singleton, Option.mem_toList,
    Option.map_map, Option.map_eq_some_iff, Function.comp, Prod.mk.injEq, or_assoc] at hmem
  -- One case for each part of a schema, in the order in which they are written.
  rcases hmem with ⟨-, -, rfl⟩ | ⟨-, -, rfl⟩ | ⟨-, -, rfl⟩ | ⟨v, hv, -, rfl⟩ |
    ⟨v, hv, -, rfl⟩ | ⟨v, hv, -, rfl⟩ | ⟨-, -, rfl⟩ | ⟨-, -, rfl⟩ | ⟨-, -, rfl⟩ | ⟨-, -, rfl⟩
  · exact .string _
  · exact .string _
  · exact .object h.defs
  · exact h.items _ hv
  · exact .object (h.properties _ hv)
  · exact h.additional _ hv
  · exact .string _
  · refine .array fun v hv => ?_
    obtain ⟨n, -, rfl⟩ := List.mem_map.mp hv
    exact .number n
  · refine .array fun v hv => ?_
    obtain ⟨text, -, rfl⟩ := List.mem_map.mp hv
    exact .string text
  · exact .string _

section Schemas

variable (g : Registry) (d : Document)

theorem whole_typeSchema (t : FieldType) : (typeSchema g d t).Whole := by
  have hplain : ∀ type ref : String, ({ type, ref } : Schema).Whole :=
    fun _ _ => ⟨by simp, by simp, by simp, by simp⟩
  induction t with
  | void => exact hplain _ _
  | base name =>
      unfold typeSchema
      rw [scalarSchema_eq]
      exact hplain _ _
  | identifier name =>
      unfold typeSchema
      split
      · exact hplain _ _
      · exact hplain _ _
  | list e ih =>
      unfold typeSchema
      constructor <;> simp [ih.toJson]
  | set e ih =>
      unfold typeSchema
      constructor <;> simp [ih.toJson]
  | map k v _ ih =>
      unfold typeSchema
      constructor <;> simp [ih.toJson]
  | other kind name => exact hplain _ _

theorem whole_definition? {st : Statement} {s : Schema} (h : definition? g d st = some s) :
    s.Whole := by
  cases st with
  | service _ => cases h
  | const _ => cases h
  | enum e =>
      obtain rfl := Option.some.inj h
      exact ⟨by simp, by simp, by simp, by simp⟩
  | typedef t =>
      obtain rfl := Option.some.inj h
      obtain ⟨hdefs, hitems, hproperties, hadditional⟩ := whole_typeSchema g d t.type
      exact ⟨hdefs, hitems, hproperties, hadditional⟩
  | struct st =>
      obtain rfl := Option.some.inj h
      refine ⟨by simp, by simp, ?_, by simp⟩
      rintro fields hfields ⟨key, v⟩ hp
      obtain rfl := Option.some.inj hfields
      obtain ⟨f, -, heq⟩ := List.mem_map.mp (Table.mem_of_mem_ofList hp)
      obtain ⟨-, rfl⟩ := Prod.mk.inj heq
      obtain ⟨hdefs, hitems, hproperties, hadditional⟩ := whole_typeSchema g d f.type
      have hfield : (fieldSchema g d f).Whole := ⟨hdefs, hitems, hproperties, hadditional⟩
      dsimp only
      exact hfield.toJson

theorem whole_schemaJson (docs : List Document) : (schemaJson g docs).Whole := by
  refine Schema.Whole.toJson ⟨fun p hp => ?_, by simp, by simp, by simp⟩
  obtain ⟨hentries, -⟩ := mem_definitions g docs
  obtain ⟨d, -, st, s, hs, heq⟩ := hentries p ((Table.sorted_perm _).mem_iff.mp hp)
  rw [heq]
  exact (whole_definition? g d hs).toJson

end Schemas

/-! ## Loaded documents -/

/-- Rendering of loaded documents. For all documents that were loaded, wherever they were
read, in which no type name leads back to itself, whatever 64-bit integers are mapped to and
however types are rendered: the declarations of any of the documents render, and declare
every name that these declare; the schema of any of them is the text of a JSON document
whose numbers are whole; every routed function has a method; and looking up a name of a
document comes to an end. -/
theorem rendering_succeeds (l : Loader) (size : Nat) (entries : List String) (r : Reporter)
    (docs : List Document) (hload : (l.loadAll size entries r).docs = .ok docs)
    (hacyclic : (Symbols.ofDocs docs).Acyclic docs) (types : Mapper) (style : TypeStyle) :
    let g : Registry := { types, symbols := Symbols.ofDocs docs }
    (∀ scope, scope ⊆ docs →
      (∃ ds, (typeDeclarations g style scope).1 = .ok ds ∧
        ∀ x, x ∈ ds.map declaredName ↔
          ∃ d ∈ scope, ∃ st ∈ d.statements, declaresType st = true ∧ st.name = x) ∧
      ∃ j : Json, j.Whole ∧ schemaText g scope = (j.layout .escaped).indented "" "  " ++ "\n") ∧
    (∀ d ∈ docs, ∀ s ∈ d.services, ∀ f ∈ s.functions, ∀ route ∈ f.route,
      ∃ m, methodOf g style.enumKeysAsNumbers d s f route = .ok m) ∧
    ∀ d ∈ docs, ∀ name, g.symbols.Resolves d name (g.symbols.resolver d name) := by
  intro g
  have hsound := Load.sound_of_loadAll hload
  obtain ⟨honce, -⟩ := Load.documentAt_of_loadAll hload
  have hfind : ∀ d, (Symbols.ofDocs docs).docs.find? d.path = some d ↔ d ∈ docs := by
    intro d
    rw [Symbols.find?_ofDocs honce]
    exact and_iff_left rfl
  refine ⟨fun scope hscope => ⟨?_, ?_⟩, ?_, ?_⟩
  · obtain ⟨ds, hds⟩ := ok_typeDeclarations g style fun d hd => hsound d (hscope hd)
    exact ⟨ds, hds, mem_typeDeclarations hds⟩
  · exact ⟨schemaJson g scope, whole_schemaJson g scope, rfl⟩
  · intro d hd s hs f hf route _
    obtain ⟨hreturns, hparams⟩ := (hsound d hd).service hs f hf
    exact Plugin.ok_methodOf g style.enumKeysAsNumbers d s hreturns hparams route
  · intro d hd name
    exact Symbols.resolves_resolver (Symbols.keyed_ofDocs docs) (fun d => (hfind d).mp) hacyclic
      ((hfind d).mpr hd) name

/-- An enumeration behind two type names, as the key of a map. -/
def renamed : List (String × String) :=
  [("a.thrift", "include 'b.thrift'\ntypedef b.Kind Sort\nconst double rate = -1.5e3\n" ++
    "struct R \x7b 1: map<Sort, i64> totals \x7d\n" ++
    "service S \x7b R get(1: R r) (api.get = \"/r\") \x7d"),
    ("b.thrift", "enum E \x7b A \x7d\ntypedef E Kind")]

theorem rendering_succeeds_renamed :
    ∃ docs, ((Loader.ofMemory (.ofList renamed) true).loadAll 1 ["a.thrift"] {}).docs = .ok docs ∧
      (Symbols.ofDocs docs).Acyclic docs ∧
      let g : Registry := { types := { i64 := "string" }, symbols := Symbols.ofDocs docs }
      (∃ ds, (typeDeclarations g { enumKeysAsNumbers := true } docs).1 = .ok ds ∧
        ∀ x ∈ ["Sort", "rate", "R", "E", "Kind"], x ∈ ds.map declaredName) ∧
      (∃ j : Json, j.Whole ∧ schemaText g docs = (j.layout .escaped).indented "" "  " ++ "\n") ∧
      ∃ d ∈ docs, ∃ s ∈ d.services, ∃ f ∈ s.functions, ∃ route ∈ f.route,
        (∃ m, methodOf g true d s f route = .ok m) ∧
          g.symbols.Resolves d "Sort" (g.symbols.resolver d "Sort") := by
  have hlisted : ((Loader.ofMemory (.ofList renamed) true).loadAll 1
      ["a.thrift"] {}).docs.toOption.map (fun docs => (
        docs.flatMap fun d => (d.statements.filter declaresType).map (·.name),
        docs.flatMap fun d => d.services.flatMap fun s => s.functions.map (·.route.isSome),
        (Symbols.ofDocs docs).aliases.all fun x => ((Symbols.ofDocs docs).aliased? x).all fun y =>
          decide (y.2.length < x.2.length))) =
      some (["Sort", "rate", "R", "E", "Kind"], [true], true) := by
    decide +kernel
  obtain ⟨docs, hdocs, hfacts⟩ := Option.map_eq_some_iff.mp hlisted
  obtain ⟨hnames, hfacts⟩ := Prod.mk.inj hfacts
  obtain ⟨hroutes, hshorter⟩ := Prod.mk.inj hfacts
  have hload := Source.ok_of_toOption hdocs
  obtain ⟨honce, -⟩ := Load.documentAt_of_loadAll hload
  have hacyclic : (Symbols.ofDocs docs).Acyclic docs := by
    refine Symbols.acyclic_ofDocs honce String.length fun x hx y hy => ?_
    have hall := List.all_eq_true.mp hshorter x hx
    rw [hy] at hall
    exact of_decide_eq_true hall
  obtain ⟨hscopes, hmethods, hresolves⟩ := rendering_succeeds _ 1 ["a.thrift"] {} docs hload
    hacyclic { i64 := "string" } { enumKeysAsNumbers := true }
  obtain ⟨⟨ds, hds, hdeclared⟩, hschema⟩ := hscopes docs (List.Subset.refl docs)
  refine ⟨docs, hload, hacyclic, ⟨ds, hds, ?_⟩, hschema, ?_⟩
  · intro x hx
    rw [← hnames] at hx
    obtain ⟨d, hd, hmap⟩ := List.mem_flatMap.mp hx
    obtain ⟨st, hst, rfl⟩ := List.mem_map.mp hmap
    obtain ⟨hst, htype⟩ := List.mem_filter.mp hst
    exact (hdeclared st.name).mpr ⟨d, hd, st, hst, htype, rfl⟩
  · have hmem : true ∈ docs.flatMap fun d => d.services.flatMap fun s =>
        s.functions.map (·.route.isSome) := by
      rw [hroutes]
      exact List.mem_cons_self
    obtain ⟨d, hd, hmem⟩ := List.mem_flatMap.mp hmem
    obtain ⟨s, hs, hmap⟩ := List.mem_flatMap.mp hmem
    obtain ⟨f, hf, hroute⟩ := List.mem_map.mp hmap
    obtain ⟨route, hroute⟩ := Option.isSome_iff_exists.mp hroute
    exact ⟨d, hd, s, hs, f, hf, route, hroute, hmethods d hd s hs f hf route hroute,
      hresolves d hd "Sort"⟩

end Generate
end ClientGen
