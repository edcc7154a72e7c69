import ClientGen.Proofs.Generate.Sampling
import ClientGen.Proofs.Load.Resolution

/-! # The modules of a run

What a run without plugins renders: for each entry a types module, perhaps a schema,
a client and perhaps samples for each service with a route, and an index; then
perhaps one index of all entries. A run that succeeds has rendered each of them, in
this order and at its path (`renders_of_generate`).
-/

namespace ClientGen
namespace Generate

open Pipeline
open Source (Failure Reporter)
open Typescript (Declaration Export ServiceModule)

/-- A file that a run renders. -/
inductive Module where
  | types (e : Entry) (d : Document)
  | schema (e : Entry) (d : Document)
  | client (e : Entry) (d : Document) (s : Service)
  | mocks (e : Entry) (d : Document) (s : Service)
  | index (e : Entry) (d : Document)
  /-- The index of all entries. -/
  | root

def isRouted (s : Service) : Bool := s.functions.any (·.route.isSome)

def Module.path (o : Options) : Module → String
  | types e _ => Path.join [o.typesDirectory, e.name, "types.ts"]
  | schema e _ => Path.join [e.name, "schema.json"]
  | client e _ s => Path.join [e.name, Text.kebab s.name] ++ ".ts"
  | mocks e _ s => Path.join [e.name, Text.kebab s.name] ++ ".mock.ts"
  | index e _ => Path.join [e.name, "index.ts"]
  | root => "index.ts"

def serviceModules (o : Options) (e : Entry) (d : Document) (s : Service) : List Module :=
  if isRouted s then
    (if o.skipClient then [] else [.client e d s]) ++ if o.mock then [.mocks e d s] else []
  else []

/-- The modules of an entry, in the order in which they are rendered. -/
def entryModules (o : Options) (e : Entry) (d : Document) : List Module :=
  .types e d :: (if o.schema then [.schema e d] else []) ++
    d.services.flatMap (serviceModules o e d) ++ [.index e d]

def serviceExports (o : Options) (e : Entry) (d : Document) (s : Service) : List Export :=
  if isRouted s && !o.skipClient then
    [{ module := importPath (Module.path o (.index e d)) (Module.path o (.client e d s)) }]
  else []

namespace Job

variable (j : Job) (entries : List Entry)

/-- The modules of an entry, none if its document is missing. -/
def modulesAt (e : Entry) : List Module :=
  ((j.docs.find? e.path).map (entryModules j.options e)).getD []

/-- The modules of some entries, in the order in which they are rendered. -/
def modules : List Module :=
  entries.flatMap j.modulesAt ++ if j.options.aggregate then [.root] else []

def Renders : Module → String → Prop
  | .types _ d, text => ∃ ds,
      (typeDeclarations j.registry j.style (reachable j.docs d)).1 = .ok ds ∧
      text = Declaration.renderAll ds
  | .schema _ d, text => text = schemaText j.registry (reachable j.docs d)
  | .client e d s, text => ∃ methods,
      Plugin.addMethods j.registry j.options.enumKeysAsNumbers d s s.functions [] = .ok methods ∧
      ServiceModule.render
        { runtime := j.options.runtimeModule,
          types := importPath (Module.path j.options (.client e d s)) (j.typesPath e), methods }
        j.options.provider = .ok text
  | .mocks _ d s, text => ∃ methods samples r,
      Plugin.addMethods j.registry j.options.enumKeysAsNumbers d s s.functions [] = .ok methods ∧
      r.registry = some j.registry ∧
      Sampler.sampleMethods
        { bus := j.bus, symbols := j.registry.symbols, maxDepth := j.options.sampleDepth }
        d s methods r = (.ok samples, r) ∧
      Typescript.renderMocks samples = .ok text
  | .index e d, text => text = Typescript.renderIndex
      ({ module := importPath (Module.path j.options (.index e d)) (j.typesPath e) } ::
        d.services.flatMap (serviceExports j.options e d))
  | .root, text => text = Typescript.renderIndex (entries.map entryExport)

/-- Files that hold some modules, one after the other, each at its path. -/
abbrev Holds (ms : List Module) (files : List (String × String)) : Prop :=
  List.Forall₂ (fun m file => file.1 = m.path j.options ∧ j.Renders entries m file.2) ms files

/-- From `r` to `r'` some modules were rendered. -/
def Adds (r : Run) (ms : List Module) (r' : Run) : Prop :=
  ∃ files, j.Holds entries ms files ∧ Grown r files r'

variable {j entries}

namespace Adds

variable {r r₁ r₂ : Run} {ms more : List Module} {m : Module} {content : String}

theorem nil (r : Run) : j.Adds entries r [] r := ⟨[], .nil, .refl r⟩

theorem append (h : j.Adds entries r ms r₁) (h' : j.Adds entries r₁ more r₂) :
    j.Adds entries r (ms ++ more) r₂ := by
  obtain ⟨files, hfiles, hgrown⟩ := h
  obtain ⟨files', hfiles', hgrown'⟩ := h'
  exact ⟨files ++ files', List.rel_append hfiles hfiles', hgrown.trans hgrown'⟩

theorem one (h : j.Renders entries m content) :
    j.Adds entries r [m] (r.put (m.path j.options) content) :=
  ⟨[(m.path j.options, content)], .cons ⟨rfl, h⟩ .nil, .put _ _⟩

theorem registry (h : j.Adds entries r ms r₁) : r₁.registry = r.registry := by
  obtain ⟨files, -, hgrown⟩ := h
  exact hgrown.registry

end Adds

end Job

section Members

variable {o : Options} {e : Entry} {d : Document} {s : Service} {m : Module}

theorem mem_serviceModules : m ∈ serviceModules o e d s ↔ isRouted s = true ∧
    (o.skipClient = false ∧ m = .client e d s ∨ o.mock = true ∧ m = .mocks e d s) := by
  unfold serviceModules
  cases isRouted s <;> cases o.skipClient <;> cases o.mock <;> simp

theorem mem_entryModules : m ∈ entryModules o e d ↔ m = .types e d ∨
    (o.schema = true ∧ m = .schema e d) ∨ (∃ s ∈ d.services, m ∈ serviceModules o e d s) ∨
      m = .index e d := by
  unfold entryModules
  cases o.schema <;> simp

theorem Job.mem_modulesAt {j : Job} :
    m ∈ j.modulesAt e ↔ ∃ d, j.docs.find? e.path = some d ∧ m ∈ entryModules j.options e d := by
  unfold modulesAt
  cases j.docs.find? e.path <;> simp

end Members

/-! ## Services -/

section Services

variable {g : Registry} {keys : Bool} {d : Document} {s : Service}

theorem isEmpty_upsert (m : Typescript.Method) (ms : List Typescript.Method) :
    (Plugin.upsert m ms).isEmpty = false := by
  cases ms with
  | nil => rfl
  | cons x xs =>
      unfold Plugin.upsert
      split <;> rfl

/-- A service has methods exactly if some function of it has a route. -/
theorem isEmpty_of_addMethods {fs : List Function} {ms methods : List Typescript.Method}
    (h : Plugin.addMethods g keys d s fs ms = .ok methods) :
    methods.isEmpty = (ms.isEmpty && !fs.any (·.route.isSome)) := by
  induction fs generalizing ms with
  | nil =>
      obtain rfl := Except.ok.inj h
      simp
  | cons f rest ih =>
      unfold Plugin.addMethods at h
      cases hroute : f.route with
      | none =>
          rw [hroute] at h
          simp [ih h, hroute]
      | some route =>
          rw [hroute] at h
          obtain ⟨m, -, h⟩ := Source.ok_of_bind h
          simp [ih h, isEmpty_upsert, hroute]

end Services

/-! ## Rendering -/

namespace Job

variable {j : Job} {entries : List Entry} {e : Entry} {d : Document} {r r' : Run} {keys mock : Bool}

theorem adds_renderTypes (h : j.renderTypes e (reachable j.docs d) r = (.ok (), r')) :
    j.Adds entries r [.types e d] r' := by
  unfold renderTypes at h
  obtain ⟨_, r₁, hwarn, h⟩ := ok_of_bind_work h
  obtain ⟨-, rfl⟩ := Prod.mk.inj hwarn
  obtain ⟨ds, r₂, hdeclared, h⟩ := ok_of_bind_work h
  obtain ⟨hds, rfl⟩ := ok_of_lift hdeclared
  obtain ⟨-, rfl⟩ := Prod.mk.inj h
  exact ⟨[(j.typesPath e, _)], .cons ⟨rfl, ds, hds, rfl⟩ .nil, rfl, rfl⟩

theorem adds_renderClient {s : Service} {c : FileContext} {methods : List Typescript.Method}
    (hmethods : Plugin.addMethods j.registry j.options.enumKeysAsNumbers d s s.functions [] =
      .ok methods)
    (hc : c = { entry := e.name, document := d, service := s, methods })
    (h : j.renderClient e (Module.path j.options (.client e d s)) c r = (.ok (), r')) :
    j.Adds entries r [.client e d s] r' := by
  subst hc
  unfold renderClient at h
  obtain ⟨text, r₁, hrender, h⟩ := ok_of_bind_work h
  obtain ⟨htext, rfl⟩ := ok_of_lift (ok_of_within_work hrender)
  obtain ⟨-, rfl⟩ := Prod.mk.inj h
  exact Adds.one (m := .client e d s) ⟨methods, hmethods, htext⟩

theorem adds_renderMocks {s : Service} {c : FileContext} {methods : List Typescript.Method}
    (hbus : j.bus = builtinBus keys mock) (hregistry : r.registry = some j.registry)
    (hmethods : Plugin.addMethods j.registry j.options.enumKeysAsNumbers d s s.functions [] =
      .ok methods)
    (hc : c = { entry := e.name, document := d, service := s, methods })
    (h : j.renderMocks d (Module.path j.options (.mocks e d s)) c r = (.ok (), r')) :
    j.Adds entries r [.mocks e d s] r' := by
  subst hc
  unfold renderMocks at h
  obtain ⟨samples, r₁, hsample, hrest⟩ := ok_of_bind_work h
  have hsampled := ok_of_within_work hsample
  have hsilent := Sampler.silent_sampleMethods
    (s := { bus := j.bus, symbols := j.registry.symbols, maxDepth := j.options.sampleDepth })
    hbus d s methods r
  rw [hsampled] at hsilent
  obtain rfl : r₁ = r := hsilent
  obtain ⟨text, r₂, hrender, hput⟩ := ok_of_bind_work hrest
  obtain ⟨htext, rfl⟩ := ok_of_lift hrender
  obtain ⟨-, rfl⟩ := Prod.mk.inj hput
  exact Adds.one (m := .mocks e d s) ⟨methods, samples, r₁, hmethods, hregistry, hsampled, htext⟩

theorem adds_renderService {s : Service} {exports : List Export}
    (hbus : j.bus = builtinBus j.options.enumKeysAsNumbers mock)
    (hregistry : r.registry = some j.registry)
    (h : j.renderService e d s r = (.ok exports, r')) :
    j.Adds entries r (serviceModules j.options e d s) r' ∧
      exports = serviceExports j.options e d s := by
  unfold renderService at h
  obtain ⟨c, r₀, hstage, hrest⟩ := ok_of_bind_work h
  rw [hbus] at hstage
  obtain ⟨methods, hmethods, hc, hsame⟩ := ok_of_runGenerateFile hregistry hstage
  rw [hsame] at hrest
  have hempty : c.methods.isEmpty = !isRouted s := by
    rw [hc]
    exact isEmpty_of_addMethods hmethods
  have hservice : c.service = s := by rw [hc]
  rw [hempty, hservice] at hrest
  unfold serviceModules serviceExports
  cases hrouted : isRouted s with
  | false =>
      rw [hrouted] at hrest
      obtain ⟨hexports, rfl⟩ := ok_of_pure_work hrest
      exact ⟨.nil r, hexports.symm⟩
  | true =>
      rw [hrouted] at hrest
      dsimp only [Bool.not_true, Bool.false_eq_true, if_false] at hrest
      -- First the client, then the samples, each only if the options ask for it.
      cases hskip : j.options.skipClient with
      | true =>
          rw [hskip] at hrest
          cases hmock : j.options.mock with
          | true =>
              rw [hmock] at hrest
              obtain ⟨_, r₁, hmocks, hpure⟩ := ok_of_bind_work hrest
              obtain ⟨hexports, rfl⟩ := ok_of_pure_work hpure
              exact ⟨adds_renderMocks hbus hregistry hmethods hc hmocks, hexports.symm⟩
          | false =>
              rw [hmock] at hrest
              obtain ⟨hexports, rfl⟩ := ok_of_pure_work hrest
              exact ⟨.nil r, hexports.symm⟩
      | false =>
          rw [hskip] at hrest
          obtain ⟨_, r₁, hclient, hrest⟩ := ok_of_bind_work hrest
          have hfirst : j.Adds entries r [.client e d s] r₁ :=
            adds_renderClient hmethods hc hclient
          cases hmock : j.options.mock with
          | true =>
              rw [hmock] at hrest
              obtain ⟨_, r₂, hmocks, hpure⟩ := ok_of_bind_work hrest
              obtain ⟨hexports, rfl⟩ := ok_of_pure_work hpure
              have hsecond : j.Adds entries r₁ [.mocks e d s] r₂ :=
                adds_renderMocks hbus (hfirst.registry.trans hregistry) hmethods hc hmocks
              exact ⟨hfirst.append hsecond, hexports.symm⟩
          | false =>
              rw [hmock] at hrest
              obtain ⟨hexports, rfl⟩ := ok_of_pure_work hrest
              exact ⟨hfirst, hexports.symm⟩

theorem adds_renderServices {services : List Service} {exports : List (List Export)}
    (hbus : j.bus = builtinBus j.options.enumKeysAsNumbers mock)
    (hregistry : r.registry = some j.registry)
    (h : services.mapM (j.renderService e d) r = (.ok exports, r')) :
    j.Adds entries r (services.flatMap (serviceModules j.options e d)) r' ∧
      exports.flatten = services.flatMap (serviceExports j.options e d) := by
  induction services generalizing r exports with
  | nil =>
      obtain ⟨rfl, rfl⟩ := ok_of_pure_work h
      exact ⟨.nil r, rfl⟩
  | cons s rest ih =>
      rw [List.mapM_cons] at h
      obtain ⟨first, r₁, hfirst, h⟩ := ok_of_bind_work h
      obtain ⟨others, r₂, hothers, h⟩ := ok_of_bind_work h
      obtain ⟨rfl, rfl⟩ := ok_of_pure_work h
      obtain ⟨hadds, rfl⟩ := adds_renderService hbus hregistry hfirst
      obtain ⟨hmore, hexports⟩ := ih (hadds.registry.trans hregistry) hothers
      exact ⟨hadds.append hmore, by rw [List.flatten_cons, hexports, List.flatMap_cons]⟩

theorem adds_renderEntry (hbus : j.bus = builtinBus j.options.enumKeysAsNumbers mock)
    (hregistry : r.registry = some j.registry) (h : j.renderEntry e d r = (.ok (), r')) :
    j.Adds entries r (entryModules j.options e d) r' := by
  unfold renderEntry at h
  obtain ⟨_, r₁, htypes, h⟩ := ok_of_bind_work h
  have htypes : j.Adds entries r [.types e d] r₁ := adds_renderTypes htypes
  -- The schema is there only if the options ask for it; what follows does not depend on it.
  have hrest : ∀ {r₂ r' : Run}, r₂.registry = some j.registry →
      (d.services.mapM (j.renderService e d) >>= fun exports =>
        put (Path.join [e.name, "index.ts"]) (Typescript.renderIndex
          ({ module := importPath (Path.join [e.name, "index.ts"]) (j.typesPath e) } ::
            exports.flatten))) r₂ = (.ok (), r') →
      j.Adds entries r₂ (d.services.flatMap (serviceModules j.options e d) ++ [.index e d]) r' := by
    intro r₂ r' hregistry h
    obtain ⟨exports, r₃, hservices, h⟩ := ok_of_bind_work h
    obtain ⟨hadds, hexports⟩ := adds_renderServices hbus hregistry hservices
    obtain ⟨-, rfl⟩ := Prod.mk.inj h
    rw [hexports]
    exact hadds.append (.one (m := .index e d) rfl)
  unfold entryModules
  cases hschema : j.options.schema with
  | true =>
      rw [hschema] at h
      obtain ⟨_, r₂, hput, h⟩ := ok_of_bind_work h
      obtain ⟨-, rfl⟩ := Prod.mk.inj hput
      have hschema : j.Adds entries r₁ [.schema e d] _ := .one (m := .schema e d) rfl
      have hall := (htypes.append hschema).append (hrest (htypes.registry.trans hregistry) h)
      simpa using hall
  | false =>
      rw [hschema] at h
      have hall := htypes.append (hrest (htypes.registry.trans hregistry) h)
      simpa using hall

theorem adds_loop {step : Entry → Work (ForInStep PUnit)} {todo : List Entry} {u : PUnit}
    (hstep : ∀ e x r r', r.registry = some j.registry → step e r = (.ok x, r') →
      x = .yield .unit ∧ (∃ d, j.docs.find? e.path = some d) ∧ j.Adds entries r (j.modulesAt e) r')
    (hregistry : r.registry = some j.registry)
    (h : (forIn todo PUnit.unit fun e _ => step e) r = (.ok u, r')) :
    (∀ e ∈ todo, ∃ d, j.docs.find? e.path = some d) ∧
      j.Adds entries r (todo.flatMap j.modulesAt) r' := by
  induction todo generalizing r with
  | nil =>
      obtain ⟨-, rfl⟩ := ok_of_pure_work h
      exact ⟨by simp, .nil r⟩
  | cons e rest ih =>
      rw [List.forIn_cons] at h
      obtain ⟨x, r₁, hx, h⟩ := ok_of_bind_work h
      obtain ⟨rfl, hfound, hadds⟩ := hstep e x r r₁ hregistry hx
      obtain ⟨hothers, hmore⟩ := ih (hadds.registry.trans hregistry) h
      refine ⟨?_, hadds.append hmore⟩
      intro e' he'
      rcases List.mem_cons.mp he' with rfl | he'
      · exact hfound
      · exact hothers e' he'

theorem adds_renderEntries (hbus : j.bus = builtinBus j.options.enumKeysAsNumbers mock)
    (hregistry : r.registry = some j.registry) (h : j.renderEntries entries r = (.ok (), r')) :
    (∀ e ∈ entries, ∃ d, j.docs.find? e.path = some d) ∧
      j.Adds entries r (j.modules entries) r' := by
  unfold renderEntries at h
  obtain ⟨_, r₁, hloop, hroot⟩ := ok_of_bind_work h
  have hentries : (∀ e ∈ entries, ∃ d, j.docs.find? e.path = some d) ∧
      j.Adds entries r (entries.flatMap j.modulesAt) r₁ := adds_loop ?_ hregistry hloop
  · refine ⟨hentries.1, hentries.2.append ?_⟩
    cases haggregate : j.options.aggregate with
    | true =>
        rw [haggregate] at hroot
        obtain ⟨-, rfl⟩ := Prod.mk.inj hroot
        exact .one (m := .root) rfl
    | false =>
        rw [haggregate] at hroot
        obtain ⟨-, rfl⟩ := ok_of_pure_work hroot
        exact .nil r₁
  · intro e x r r' hregistry hx
    unfold modulesAt
    cases hfound : j.docs.find? e.path with
    | none =>
        rw [hfound] at hx
        obtain ⟨_, r₁, hthrow, -⟩ := ok_of_bind_work hx
        cases hthrow
    | some d =>
        rw [hfound] at hx
        obtain ⟨_, r₁, hentry, hpure⟩ := ok_of_bind_work hx
        obtain ⟨rfl, rfl⟩ := ok_of_pure_work hpure
        exact ⟨rfl, ⟨d, rfl⟩, adds_renderEntry hbus hregistry (ok_of_within_work hentry)⟩

end Job

/-! ## Runs -/

def Origin.ofFiles (files : List (String × String)) : Origin where
  system := (Files.Memory.ofList files).system
  paths := (Files.Memory.ofList files).paths

def loadedFrom (files : List (String × String)) (entries : List String) : List Document :=
  ((Load.Loader.ofMemory (.ofList files) true).loadAll Load.defaultCacheSize entries
    (Source.Reporter.withHarmless [])).docs.toOption.getD []

/-- What the entries of a run without plugins are rendered with. -/
def Job.ofLoaded (o : Options) (types : Typescript.Mapper) (loaded : List Document) : Job where
  options := o
  bus := builtinBus o.enumKeysAsNumbers o.mock
  registry := { types, symbols := Symbols.ofDocs (loaded.map Plugin.includesOf) }
  docs := (Symbols.ofDocs (loaded.map Plugin.includesOf)).docs

/-- What a run without plugins has rendered: its entries, the documents that were
loaded for them, and its modules as files. -/
structure Rendered (o : Options) (origin : Origin) where
  types : Typescript.Mapper
  entries : List Entry
  loaded : List Document
  files : List (String × String)
  resolved : resolveEntries origin.paths o.entries = .ok entries
  loads : (({ system := origin.system, revise := o.revise } : Load.Loader).loadAll
    Load.defaultCacheSize (entries.map (·.path)) (Reporter.withHarmless [])).docs = .ok loaded
  found : ∀ e ∈ entries, ∃ d, (Job.ofLoaded o types loaded).docs.find? e.path = some d
  holds : (Job.ofLoaded o types loaded).Holds entries
    ((Job.ofLoaded o types loaded).modules entries) files

namespace Rendered

variable {o : Options} {origin : Origin} (R : Rendered o origin)

def job : Job := .ofLoaded o R.types R.loaded

def modules : List Module := R.job.modules R.entries

/-- The files that are written, in order: of several with one path the last one. -/
def output : List (String × String) := (Table.ofList R.files).sorted

theorem nodup_paths : ((R.loaded.map Plugin.includesOf).map (·.path)).Nodup := by
  obtain ⟨honce, -⟩ := Load.documentAt_of_loadAll R.loads
  simpa [Function.comp_def, Plugin.includesOf] using honce

theorem mem_docs {path : String} {d : Document} (h : R.job.docs.find? path = some d) :
    ∃ d' ∈ R.loaded, d = Plugin.includesOf d' ∧ d'.path = path := by
  obtain ⟨hmem, rfl⟩ := (Symbols.find?_ofDocs R.nodup_paths).mp h
  obtain ⟨d', hd', rfl⟩ := List.mem_map.mp hmem
  exact ⟨d', hd', rfl, rfl⟩

theorem exists_file {m : Module} (h : m ∈ R.modules) :
    ∃ text, (m.path o, text) ∈ R.files ∧ R.job.Renders R.entries m text := by
  have hfiles : ∀ {ms : List Module} {files : List (String × String)},
      R.job.Holds R.entries ms files → m ∈ ms →
        ∃ text, (m.path o, text) ∈ files ∧ R.job.Renders R.entries m text := by
    intro ms files hholds hm
    induction hholds with
    | nil => cases hm
    | @cons m' file ms files hfile _ ih =>
        rcases List.mem_cons.mp hm with rfl | hm
        · have hpath : file.1 = m.path o := hfile.1
          exact ⟨file.2, by simp [← hpath], hfile.2⟩
        · obtain ⟨text, htext, hrenders⟩ := ih hm
          exact ⟨text, List.mem_cons_of_mem file htext, hrenders⟩
  exact hfiles R.holds h

theorem loaded_eq {files : List (String × String)} (R : Rendered o (.ofFiles files))
    (hrevise : o.revise = true) :
    R.loaded = loadedFrom files (R.entries.map (·.path)) := by
  have hloads : ((Load.Loader.ofMemory (.ofList files) o.revise).loadAll Load.defaultCacheSize
    (R.entries.map (·.path)) (Source.Reporter.withHarmless [])).docs = .ok R.loaded := R.loads
  rw [hrevise] at hloads
  rw [loadedFrom, hloads]
  rfl

end Rendered

def Written.ofFiles (files : List (String × String)) : Written where
  paths := files.map (·.1)
  bytes := (files.map (·.2.utf8ByteSize)).sum

section Runs

variable {σ : Type} {o : Options} {origin : Origin} {sink : Sink σ} {types : Typescript.Mapper}
  {bus : Bus Stage} {r r' : Run}

def Sink.after (sink : Sink σ) (files : List (String × String)) (s : σ) : σ :=
  files.foldl (fun s file => (sink.write file.1 file.2 s).2) s

theorem ok_of_writeAll {files : List (String × String)} {done written : Written} {s s' : σ}
    (hbus : bus.has Stage.writeFileHook = false)
    (h : writeAll bus sink files done r s = (.ok written, r', s')) :
    written.paths = done.paths ++ (Written.ofFiles files).paths ∧
      written.bytes = done.bytes + (Written.ofFiles files).bytes ∧ s' = sink.after files s := by
  induction files generalizing done s with
  | nil =>
      obtain ⟨hdone, hrest⟩ := Prod.mk.inj h
      obtain ⟨-, rfl⟩ := Prod.mk.inj hrest
      obtain rfl := Except.ok.inj hdone
      simp [Written.ofFiles, Sink.after]
  | cons file rest ih =>
      unfold writeAll at h
      simp only [hbus, Bool.false_eq_true, if_false] at h
      cases hwrite : sink.write file.1 file.2 s with
      | mk result s₁ =>
          rw [hwrite] at h
          cases result with
          | error f => cases (Prod.mk.inj h).1
          | ok _ =>
              obtain ⟨hpaths, hbytes, hsink⟩ := ih h
              refine ⟨?_, ?_, ?_⟩
              · simp [hpaths, Written.ofFiles]
              · simp [hbytes, Written.ofFiles, Nat.add_assoc]
              · simp [hsink, Sink.after, hwrite]

theorem rendered_of_render (hbus : bus = builtinBus o.enumKeysAsNumbers o.mock)
    (h : render o origin types bus r = (.ok (), r')) :
    ∃ R : Rendered o origin, r'.output = Table.ofList R.files := by
  unfold render at h
  obtain ⟨entries, r₁, hentries, h⟩ := ok_of_bind_work h
  obtain ⟨hresolved, rfl⟩ := ok_of_lift hentries
  obtain ⟨_, r₂, -, h⟩ := ok_of_bind_work h
  obtain ⟨docs, r₃, hdocs, h⟩ := ok_of_bind_work h
  obtain ⟨hloads, rfl⟩ := ok_of_lift hdocs
  obtain ⟨_, r₄, -, h⟩ := ok_of_bind_work h
  obtain ⟨c, r₅, hparse, h⟩ := ok_of_bind_work h
  rw [hbus, runParseEntry_builtin] at hparse
  obtain ⟨hc, -⟩ := Prod.mk.inj hparse
  obtain rfl := Except.ok.inj hc
  obtain ⟨output, r₆, houtput, h⟩ := ok_of_bind_work h
  obtain ⟨rfl, rfl⟩ := ok_of_pure_work houtput
  obtain ⟨_, r₇, hchange, h⟩ := ok_of_bind_work h
  obtain ⟨-, rfl⟩ := Prod.mk.inj hchange
  rw [hbus] at h
  obtain ⟨hfound, files, hholds, hgrown⟩ :=
    Job.adds_renderEntries (j := .ofLoaded o types docs) rfl rfl h
  exact ⟨⟨types, entries, docs, files, hresolved, hloads, hfound, hholds⟩, hgrown.output⟩

/-- A run without plugins that succeeds has rendered each of its modules, and has
written what it rendered. -/
theorem renders_of_generate {s : σ} {written : Written} (hplugins : o.plugins = [])
    (h : (generate o origin (some sink) s).result = .ok written) :
    ∃ R : Rendered o origin, written = .ofFiles R.output ∧
      (generate o origin (some sink) s).sink = sink.after R.output s := by
  unfold generate at h ⊢
  split at h
  · cases h
  · rename_i hentries
    rw [if_neg hentries]
    dsimp only at h ⊢
    cases hprepare : prepare o with
    | error f =>
        rw [hprepare] at h
        cases h
    | ok pair =>
        obtain ⟨types, bus⟩ := pair
        rw [hprepare] at h
        dsimp only at h ⊢
        have hbus := bus_of_prepare hplugins hprepare
        cases hrender : render o origin types bus { registry := some { types } } with
        | mk result r =>
            rw [hrender] at h
            cases result with
            | error f => cases h
            | ok _ =>
                obtain ⟨R, houtput⟩ := rendered_of_render hbus hrender
                have hwrites : (writeAll bus sink r.output.sorted {} r s).1 = .ok written := h
                have hhook : bus.has Stage.writeFileHook = false := by
                  rw [hbus]
                  exact has_writeFile_builtin
                obtain ⟨hpaths, hbytes, hsink⟩ := ok_of_writeAll hhook (Prod.ext hwrites rfl)
                refine ⟨R, ?_, ?_⟩
                · cases written
                  simp_all [Written.ofFiles, Rendered.output]
                · rw [Rendered.output, ← houtput]
                  exact hsink

/-- In memory, whatever was rendered can be written. -/
theorem writes_memories {files : List (String × String)} {done : Written} {m : Files.Memory}
    {layers : List Files.Memory} (hbus : bus.has Stage.writeFileHook = false) :
    ∃ written, (writeAll bus .memories files done r (m :: layers)).1 = .ok written := by
  induction files generalizing done m with
  | nil => exact ⟨done, rfl⟩
  | cons file rest ih =>
      unfold writeAll
      simp only [hbus, Bool.false_eq_true, if_false]
      exact ih

theorem generates_memories {m : Files.Memory} {layers : List Files.Memory}
    (hplugins : o.plugins = []) (hentries : o.entries.isEmpty = false)
    (hprepare : prepare o = .ok (types, bus))
    (hrender : (render o origin types bus { registry := some { types } }).1.isOk = true) :
    ∃ written, (generate o origin (some .memories) (m :: layers)).result = .ok written := by
  unfold generate
  rw [hentries]
  simp only [Bool.false_eq_true, if_false, hprepare]
  cases hrun : render o origin types bus { registry := some { types } } with
  | mk result r =>
      rw [hrun] at hrender
      cases result with
      | error f => cases hrender
      | ok _ =>
          apply writes_memories
          rw [bus_of_prepare hplugins hprepare]
          exact has_writeFile_builtin

end Runs
end Generate
end ClientGen
