import ClientGen.Proofs.Collection.Table
import ClientGen.Proofs.Plugin.Methods

/-! # Imported types

A service module finds the types that it imports in the texts of its types, which it cuts
into words of letters, digits, underscores and dollar signs; words that TypeScript knows are
passed over. The words of a type text are those of the names that it refers to. So the
module imports just these names if each of them is one such word, and else something else
(`imports_exact_iff`): a name with other letters is cut into pieces, and a declared name
that TypeScript knows is not imported (`unusual_names_not_imported`).
-/

namespace ClientGen
namespace Typescript

open Source (Failure ok_of_bind)

/-! ## Words -/

section Words

variable {p : Char → Bool} {word cs : List Char} {c : Char}

/-- A character that is no part of a word ends the one before it. -/
theorem runs_append_cons (hc : p c = false) (word before after : List Char) :
    runs p word (before ++ c :: after) = runs p word before ++ runs p [] after := by
  induction before generalizing word with
  | nil =>
      simp only [List.nil_append, runs, hc, Bool.false_eq_true, if_false]
      split
      · rfl
      · rfl
  | cons b before ih =>
      rw [List.cons_append, runs, runs]
      split
      · exact ih (b :: word)
      · split
        · exact ih []
        · rw [ih [], List.cons_append]

/-- A text without other characters is one word. -/
theorem runs_of_all (h : ∀ c ∈ cs, p c = true) (hne : word ++ cs ≠ []) :
    runs p word cs = [String.ofList (word.reverse ++ cs)] := by
  induction cs generalizing word with
  | nil =>
      have hword : word ≠ [] := by simpa using hne
      rw [runs, if_neg (by simpa using hword), List.append_nil]
  | cons c cs ih =>
      rw [runs, if_pos (h c List.mem_cons_self),
        ih (fun b hb => h b (List.mem_cons_of_mem c hb)) (by simp), List.reverse_cons,
        List.append_assoc, List.singleton_append]

/-- What was read of a word, last character first. -/
theorem word_of_reverse (hword : ∀ c ∈ word, p c = true) (hne : ¬ word.isEmpty = true) :
    String.ofList word.reverse ≠ "" ∧ ∀ c ∈ (String.ofList word.reverse).toList, p c = true := by
  refine ⟨fun hempty => hne ?_, by simpa using hword⟩
  have hchars := congrArg String.toList hempty
  simpa using hchars

theorem mem_runs {w : String} (hword : ∀ c ∈ word, p c = true) (h : w ∈ runs p word cs) :
    w ≠ "" ∧ ∀ c ∈ w.toList, p c = true := by
  induction cs generalizing word with
  | nil =>
      rw [runs] at h
      split at h
      · cases h
      · rename_i hne
        obtain rfl := List.mem_singleton.mp h
        exact word_of_reverse hword hne
  | cons c cs ih =>
      rw [runs] at h
      split at h
      · rename_i hc
        exact ih (List.forall_mem_cons.mpr ⟨hc, hword⟩) h
      · split at h
        · exact ih (by simp) h
        · rename_i hne
          rcases List.mem_cons.mp h with rfl | h
          · exact word_of_reverse hword hne
          · exact ih (by simp) h

end Words

/-! ## Names that can be imported -/

structure Importable (name : String) : Prop where
  ne_empty : name ≠ ""
  chars : name.toList.all isNameChar = true
  declared : name ∉ builtinNames

section Names

variable {name x : String} {c : Char}

theorem importable_of_mem (h : x ∈ importedNames name) : Importable x := by
  obtain ⟨hrun, hdeclared⟩ := List.mem_filter.mp h
  obtain ⟨hne, hchars⟩ := mem_runs (by simp) hrun
  exact ⟨hne, List.all_eq_true.mpr hchars, by simpa using hdeclared⟩

theorem importedNames_of_importable (h : Importable name) : importedNames name = [name] := by
  have hne : ([] : List Char) ++ name.toList ≠ [] := by simpa using h.ne_empty
  rw [importedNames, runs_of_all (List.all_eq_true.mp h.chars) hne, List.reverse_nil,
    List.nil_append, String.ofList_toList, List.filter_cons_of_pos (by simpa using h.declared),
    List.filter_nil]

/-- Names on both sides of a character that is no part of a name. -/
theorem importedNames_append {sep : String} (hsep : sep.toList = [c]) (hc : isNameChar c = false)
    (a b : String) : importedNames (a ++ sep ++ b) = importedNames a ++ importedNames b := by
  have hchars : (a ++ sep ++ b).toList = a.toList ++ c :: b.toList := by simp [hsep]
  rw [importedNames, hchars, runs_append_cons hc, List.filter_append, importedNames,
    importedNames]

theorem importedNames_builtin (h : name ∈ builtinNames) : importedNames name = [] := by
  revert name
  decide +kernel

end Names

/-! ## Names in types -/

/-- The names in generated code that a type refers to: those that the declared names in it
resolve to. Keys of maps become numbers or texts. -/
def referredNames (resolve : Resolver) : FieldType → List String
  | .identifier name => ((resolve name).map (·.name)).toList
  | .list e => referredNames resolve e
  | .set e => referredNames resolve e
  | .map _ v => referredNames resolve v
  | _ => []

section Types

variable {m : Mapper} {resolve : Resolver} {keys : Bool} {x : String}

theorem importedNames_listOf (t : String) :
    importedNames (typeName.listOf t) = importedNames t := by
  have hopen : importedNames "" = [] := rfl
  have hclose : importedNames "[]" = [] := by decide +kernel
  have hshut : importedNames "]" = [] := by decide +kernel
  unfold typeName.listOf
  split
  · have htext : "(" ++ t ++ ")[]" = "" ++ "(" ++ (t ++ ")" ++ "[]") := by
      apply String.toList_injective
      simp
    rw [htext, importedNames_append (c := '(') rfl rfl, importedNames_append (c := ')') rfl rfl,
      hopen, hclose, List.nil_append, List.append_nil]
  · have htext : t ++ "[]" = t ++ "[" ++ "]" := by
      apply String.toList_injective
      simp
    rw [htext, importedNames_append (c := '[') rfl rfl, hshut, List.append_nil]

theorem importedNames_record (k v : String) : importedNames ("Record<" ++ k ++ ", " ++ v ++ ">") =
    importedNames k ++ importedNames v := by
  have htext : "Record<" ++ k ++ ", " ++ v ++ ">" =
      "Record" ++ "<" ++ (k ++ "," ++ ("" ++ " " ++ (v ++ ">" ++ ""))) := by
    apply String.toList_injective
    simp
  have hrecord : importedNames "Record" = [] := importedNames_builtin (by decide)
  have hempty : importedNames "" = [] := rfl
  rw [htext, importedNames_append (c := '<') rfl rfl, importedNames_append (c := ',') rfl rfl,
    importedNames_append (c := ' ') rfl rfl, importedNames_append (c := '>') rfl rfl, hrecord,
    hempty, List.nil_append, List.nil_append, List.append_nil]

/-- Scalars are types that TypeScript knows. -/
theorem builtin_of_scalar (hi64 : m.i64 ∈ ["", "number", "string"]) {name : String}
    (h : m.scalar name = .ok x) : x ∈ builtinNames := by
  unfold Mapper.scalar at h
  split at h
  · obtain rfl := Except.ok.inj h
    simp only [List.mem_cons, List.not_mem_nil, or_false] at hi64
    obtain hm | hm | hm := hi64 <;> simp [hm, builtinNames]
  · obtain rfl := Except.ok.inj h
    decide
  · obtain rfl := Except.ok.inj h
    decide
  · obtain rfl := Except.ok.inj h
    decide
  · obtain rfl := Except.ok.inj h
    decide
  · cases h

theorem builtin_of_keyType {t : FieldType} (h : keyType m resolve keys t = .ok x) :
    x ∈ builtinNames := by
  have hone : ∀ {c : Prop} [Decidable c], (if c then "number" else "string") ∈ builtinNames := by
    intro c _
    split <;> decide
  unfold keyType at h
  split at h
  · obtain ⟨t, -, h⟩ := ok_of_bind h
    rw [← Except.ok.inj h]
    exact hone
  · split at h
    · rw [← Except.ok.inj h]
      exact hone
    · obtain rfl := Except.ok.inj h
      decide
  · obtain rfl := Except.ok.inj h
    decide

/-- The words of a type text are those of the names that the type refers to. -/
theorem importedNames_typeName (hi64 : m.i64 ∈ ["", "number", "string"]) {t : FieldType}
    (h : typeName m resolve keys t = .ok x) :
    importedNames x = (referredNames resolve t).flatMap importedNames := by
  induction t generalizing x with
  | void =>
      obtain rfl := Except.ok.inj h
      exact importedNames_builtin (by decide)
  | base name => exact importedNames_builtin (builtin_of_scalar hi64 h)
  | identifier name =>
      obtain rfl := Except.ok.inj h
      cases hresolve : resolve name with
      | none =>
          have hany : importedNames "any" = [] := importedNames_builtin (by decide)
          simpa [referredNames, hresolve] using hany
      | some r => simp [referredNames, hresolve]
  | list e ih =>
      obtain ⟨t, ht, h⟩ := ok_of_bind h
      obtain rfl := Except.ok.inj h
      rw [importedNames_listOf, ih ht, referredNames]
  | set e ih =>
      obtain ⟨t, ht, h⟩ := ok_of_bind h
      obtain rfl := Except.ok.inj h
      rw [importedNames_listOf, ih ht, referredNames]
  | map k v _ ih =>
      obtain ⟨key, hkey, h⟩ := ok_of_bind h
      obtain ⟨value, hvalue, h⟩ := ok_of_bind h
      obtain rfl := Except.ok.inj h
      rw [importedNames_record, importedNames_builtin (builtin_of_keyType hkey), ih hvalue,
        List.nil_append, referredNames]
  | other kind name => cases h

end Types

/-! ## Names of methods -/

section Methods

open Pipeline (Registry)
open Plugin (Built methodOf)

variable {g : Registry} {keys : Bool} {d : Document} {s : Service} {f : Function} {m : Method}

/-- The types that a method is over: that of the first parameter, if there is one, and that
of the result. -/
def methodTypes (f : Function) : List FieldType :=
  (f.params.head?.map (·.type)).toList ++ [f.returns]

/-- The names in generated code that the types of a function refer to. -/
def usedNames (g : Registry) (d : Document) (f : Function) : List String :=
  (methodTypes f).flatMap (referredNames (g.symbols.resolver d))

theorem importedNames_built (hi64 : g.types.i64 ∈ ["", "number", "string"])
    (h : Built g keys d s f m) : importedNames m.request ++ importedNames m.response =
      (usedNames g d f).flatMap importedNames := by
  obtain ⟨route, -, h⟩ := h
  unfold methodOf at h
  obtain ⟨response, hresponse, h⟩ := ok_of_bind h
  unfold usedNames methodTypes
  split at h
  · rename_i hparams
    obtain rfl := Except.ok.inj h
    have hnone : importedNames "" = [] := rfl
    simp [hparams, hnone, importedNames_typeName hi64 hresponse]
  · rename_i p rest hparams
    obtain ⟨request, hrequest, h⟩ := ok_of_bind h
    obtain rfl := Except.ok.inj h
    simp [hparams, importedNames_typeName hi64 hresponse, importedNames_typeName hi64 hrequest]

theorem importedNames_methods (hi64 : g.types.i64 ∈ ["", "number", "string"])
    {fs : List Function} {methods : List Method}
    (h : List.Forall₂ (Built g keys d s) fs methods) :
    (methods.flatMap fun m => importedNames m.request ++ importedNames m.response) =
      (fs.flatMap (usedNames g d)).flatMap importedNames := by
  induction h with
  | nil => rfl
  | cons hbuilt _ ih =>
      rw [List.flatMap_cons, ih, importedNames_built hi64 hbuilt, List.flatMap_cons,
        List.flatMap_append]

end Methods

/-! ## Service modules -/

/-- The import of types from their module; there is none without names. -/
def typeImport (names : List String) (source : String) : String :=
  if names.isEmpty then ""
  else "import type \x7b " ++ ", ".intercalate names ++ " \x7d from '" ++ source ++ "';\n"

def runtimeImport (names : List String) (source : String) : String :=
  "import \x7b " ++ ", ".intercalate names ++ " \x7d from '" ++ source ++ "';\n"

/-- The text of a module whose methods all have names: the import of the runtime, with the
provider if a method asks it for a parameter, that of the types, the further imports, and the
methods. -/
theorem render_module {module : ServiceModule} (hnamed : ∀ m ∈ module.methods, m.name ≠ "")
    (provider : String) :
    ∃ bodies, List.Forall₂ (fun m body => m.render provider = .ok body) module.methods bodies ∧
      module.render provider = .ok
        (runtimeImport ("createAPI" ::
            if module.methods.any fun m => !m.unmapped.isEmpty then [providerOr provider] else [])
          module.runtime ++
          typeImport module.typeNames module.types ++
          String.join (module.imports.map fun i => Text.dropEnd i "\n" ++ "\n") ++
          String.join (bodies.map fun b => "\n" ++ b)) := by
  obtain ⟨bodies, hbodies⟩ : ∃ bodies,
      (module.methods.mapM fun m => m.render provider) = .ok bodies :=
    Source.exists_ok_mapM.mpr fun m hm => ⟨_, if_neg (hnamed m hm)⟩
  have htypes : String.join (if module.typeNames.isEmpty then []
      else ["import type \x7b " ++ ", ".intercalate module.typeNames ++ " \x7d from '" ++
        module.types ++ "';\n"]) = typeImport module.typeNames module.types := by
    unfold typeImport
    split
    · rfl
    · simp
  refine ⟨bodies, Source.forall₂_of_mapM hbodies, ?_⟩
  unfold ServiceModule.render
  rw [hbodies]
  refine congrArg Except.ok ?_
  rw [String.join_append, String.join_append, htypes]
  simp [runtimeImport, String.append_assoc]

/-- A module is not rendered with a method that has no name. -/
theorem render_unnamed {module : ServiceModule} (h : ∃ m ∈ module.methods, m.name = "")
    (provider : String) :
    module.render provider = .error (.plain "method without a name") := by
  obtain ⟨m, hm, hname⟩ := h
  cases hbodies : module.methods.mapM fun m => m.render provider with
  | ok bodies =>
      obtain ⟨body, hbody⟩ := Source.exists_ok_mapM.mp ⟨bodies, hbodies⟩ m hm
      rw [Method.render, if_pos hname] at hbody
      cases hbody
  | error f =>
      obtain ⟨m', -, hfailed⟩ := Source.error_of_mapM hbodies
      have hf : f = .plain "method without a name" := by
        unfold Method.render at hfailed
        split at hfailed
        · exact (Except.error.inj hfailed).symm
        · cases hfailed
      rw [ServiceModule.render, hbodies, hf]
      rfl

/-- A module begins with the import of the runtime and that of the types. -/
theorem render_imports {module : ServiceModule} (hnamed : ∀ m ∈ module.methods, m.name ≠ "")
    (provider : String) :
    ∃ names rest, module.render provider = .ok
      (runtimeImport ("createAPI" :: names) module.runtime ++
        typeImport module.typeNames module.types ++ rest) := by
  obtain ⟨bodies, -, hrender⟩ := render_module hnamed provider
  exact ⟨_, _, hrender.trans (congrArg Except.ok (String.append_assoc ..))⟩

section Exact

variable {names : List String}

theorem flatMap_importedNames_of_importable (h : ∀ x ∈ names, Importable x) :
    names.flatMap importedNames = names := by
  induction names with
  | nil => rfl
  | cons x names ih =>
      obtain ⟨hx, hrest⟩ := List.forall_mem_cons.mp h
      rw [List.flatMap_cons, importedNames_of_importable hx, ih hrest, List.singleton_append]

/-- What is imported for some names are these names exactly if each of them can be imported. -/
theorem sortDistinct_importedNames_iff :
    sortDistinct (names.flatMap importedNames) = sortDistinct names ↔
      ∀ x ∈ names, Importable x := by
  constructor
  · intro h x hx
    obtain ⟨y, -, hxy⟩ := List.mem_flatMap.mp ((sortDistinct_eq_iff.mp h x).mpr hx)
    exact importable_of_mem hxy
  · intro h
    rw [flatMap_importedNames_of_importable h]

end Exact

/-- What a service module imports from the types module. Let its methods be built from routed
functions of a service, where 64-bit integers are numbers or texts. The import names, in
increasing order and each once, the words of the names that the requests and the results of
these functions refer to, at any depth. They are just these names if and only if each of
them can be imported: it is one word, and not one that TypeScript knows. If all methods have
names, the text of the module holds this import, behind that of the runtime. -/
theorem imports_exact_iff {g : Pipeline.Registry} {keys : Bool} {d : Document} {s : Service}
    {fs : List Function} (module : ServiceModule)
    (hi64 : g.types.i64 ∈ ["", "number", "string"])
    (hbuilt : List.Forall₂ (Plugin.Built g keys d s) fs module.methods) :
    let used := fs.flatMap (usedNames g d)
    module.typeNames.Pairwise (· < ·) ∧
      (∀ x, x ∈ module.typeNames ↔ ∃ name ∈ used, x ∈ importedNames name) ∧
      (module.typeNames = sortDistinct used ↔ ∀ x ∈ used, Importable x) ∧
      ∀ provider, (∀ m ∈ module.methods, m.name ≠ "") → ∃ names rest, module.render provider =
        .ok (runtimeImport ("createAPI" :: names) module.runtime ++
          typeImport module.typeNames module.types ++ rest) := by
  intro used
  have hnames : module.typeNames = sortDistinct (used.flatMap importedNames) := by
    rw [ServiceModule.typeNames, importedNames_methods hi64 hbuilt]
  refine ⟨?_, fun x => ?_, ?_, fun provider hnamed => render_imports hnamed provider⟩
  · rw [hnames]
    exact pairwise_sortDistinct _
  · rw [hnames, mem_sortDistinct, List.mem_flatMap]
  · rw [hnames]
    exact sortDistinct_importedNames_iff

/-- A service whose types refer to declared names in maps and lists. -/
def pageDocument : Document :=
  { path := "/a.thrift", dialect := .thrift,
    statements := [.struct { name := "Ask" }, .struct { name := "Page" }] }

def pageFunction : Function :=
  { name := "list_pages", params := [{ name := "ask", type := .identifier "Ask" }],
    returns := .map (.base "i64") (.list (.map (.base "string") (.identifier "Page"))),
    route := some { method := "GET", uri := "/pages" } }

theorem imports_exact_pages :
    let g : Pipeline.Registry := { symbols := Symbols.ofDocs [pageDocument] }
    ∃ m, Plugin.Built g false pageDocument { name := "S" } pageFunction m ∧
      m.response = "Record<number, (Record<string, Page>)[]>" ∧
      ({ methods := [m] } : ServiceModule).typeNames = ["Ask", "Page"] := by
  intro g
  obtain ⟨m, hm, hresponse⟩ : ∃ m, Plugin.Built g false pageDocument { name := "S" }
      pageFunction m ∧ m.response = "Record<number, (Record<string, Page>)[]>" :=
    ⟨_, ⟨_, rfl, rfl⟩, by decide +kernel⟩
  have hused : [pageFunction].flatMap (usedNames g pageDocument) = ["Ask", "Page"] := by
    decide +kernel
  have hi64 : g.types.i64 ∈ ["", "number", "string"] := by decide
  obtain ⟨-, -, hexact, -⟩ := imports_exact_iff { methods := [m] } hi64 (.cons hm .nil)
  have hsorted : sortDistinct ["Ask", "Page"] = ["Ask", "Page"] := by
    apply List.mergeSort_of_pairwise
    decide
  refine ⟨m, hm, hresponse, ?_⟩
  rw [hexact.mpr, hused, hsorted]
  rw [hused]
  intro x hx
  simp only [List.mem_cons, List.not_mem_nil, or_false] at hx
  obtain rfl | rfl := hx
  · exact ⟨by decide, by decide, by decide⟩
  · exact ⟨by decide, by decide, by decide⟩

/-- A service over a structure whose name has other letters and over one whose name TypeScript
knows. -/
def unusualNames : String :=
  "struct Größe \x7b\x7d
struct Record \x7b\x7d
service S \x7b Größe get(1: Record r) (api.get = '/g') \x7d"

def methodsOf (d : Document) : List Method :=
  d.services.flatMap fun s => s.functions.filterMap fun f => f.route.bind fun route =>
    (Plugin.methodOf { symbols := Symbols.ofDocs [d] } false d s f route).toOption

/-- One name is imported in pieces, the other one not at all. -/
theorem unusual_names_not_imported :
    (Load.parseText .thrift "a.thrift" unusualNames true {}).1.toOption.map (fun d =>
        ((d.services.flatMap (·.functions)).flatMap (usedNames { symbols := Symbols.ofDocs [d] } d),
          ({ methods := methodsOf d } : ServiceModule).typeNames)) =
      some (["Record", "Größe"], ["Gr", "e"]) := by
  have hfacts : (Load.parseText .thrift "a.thrift" unusualNames true {}).1.toOption.map (fun d =>
      ((d.services.flatMap (·.functions)).flatMap (usedNames { symbols := Symbols.ofDocs [d] } d),
        (methodsOf d).flatMap fun m => importedNames m.request ++ importedNames m.response)) =
      some (["Record", "Größe"], ["Gr", "e"]) := by
    decide +kernel
  obtain ⟨d, hd, heq⟩ := Option.map_eq_some_iff.mp hfacts
  obtain ⟨hused, hwords⟩ := Prod.mk.inj heq
  have hsorted : sortDistinct ["Gr", "e"] = ["Gr", "e"] := by
    apply List.mergeSort_of_pairwise
    decide
  rw [hd, Option.map_some, hused, ServiceModule.typeNames, hwords, hsorted]

end Typescript
end ClientGen
