import ClientGen.Proofs.Generate.Rendering
import ClientGen.Proofs.Generate.Termination
import ClientGen.Proofs.Generate.Writing

/-! # Samples that have a JSON form

A sample is made of names, numbers and the defaults of fields. Only a default can hold a
number that is not finite, and only in Protobuf, which has words for such numbers. Where no
default names one and no type unfolds to itself, every sample is there and is written
(`generate_encodes`); where a default names one, the run fails (`unencodable_default`).
-/

namespace ClientGen

def Document.defaults (d : Document) : List Const :=
  d.statements.flatMap fun
    | .struct st => st.fields.map (·.default)
    | _ => []

theorem Document.mem_defaults {d : Document} {st : Struct} (hst : .struct st ∈ d.statements)
    {f : Field} (hf : f ∈ st.fields) : f.default ∈ d.defaults :=
  List.mem_flatMap.mpr ⟨_, hst, List.mem_map_of_mem hf⟩

/-- The default of a field says that a number is not finite only in Protobuf. -/
theorem Document.Sound.defaults {d : Document} (h : d.Sound) {c : Const} (hc : c ∈ d.defaults) :
    c.Plain ∨ d.dialect = .protobuf ∧ c.NonFinite := by
  obtain ⟨st, hst, hc⟩ := List.mem_flatMap.mp hc
  cases st with
  | struct st =>
      obtain ⟨f, hf, rfl⟩ := List.mem_map.mp hc
      exact (h (.struct st) hst f hf).default
  | service _ => cases hc
  | enum _ => cases hc
  | typedef _ => cases hc
  | const _ => cases hc

/-- Whether no statement of a document is a type name. -/
def Document.namesNoType (d : Document) : Bool :=
  d.statements.all fun
    | .typedef _ => false
    | _ => true

/-- Spelling out included paths adds no type name. -/
theorem Plugin.grounded_of_namesNoType {docs : List Document}
    (h : docs.all Document.namesNoType = true) :
    Symbols.Grounded (docs.map Plugin.includesOf) := by
  refine Symbols.grounded_of_no_typedef fun d hd a ha => ?_
  obtain ⟨d', hd', rfl⟩ := List.mem_map.mp hd
  exact Bool.false_ne_true (List.all_eq_true.mp (List.all_eq_true.mp h d' hd') _ ha)

/-! ## Values of samples -/

namespace Value

theorem encodable_of_floats {v : Value} (h : v.floats = []) : v.Encodable := by
  intro x hx
  rw [h] at hx
  cases hx

end Value

namespace Mock

theorem floats_numberAs (type : String) (n : Nat) : (numberAs type n).floats = [] := by
  unfold numberAs
  split <;> rfl

theorem floats_meaning (type : String) (seed : Nat) (m : Meaning) :
    (m.sample type seed).floats = [] := by
  cases m with
  | id => exact floats_numberAs type _
  | email => rfl
  | time => exact floats_numberAs type _
  | status => exact floats_numberAs type _

theorem floats_typeSample (type scalar name : String) (seed : Nat) :
    (typeSample type scalar name seed).floats = [] := by
  unfold typeSample
  repeat' split
  all_goals rfl

/-- Only the default of a field can hold a number that is not finite. -/
theorem encodable_sample {f : Field} (h : f.default.Plain) (owner : String)
    (types : Typescript.Mapper) : (sample owner f types).Encodable := by
  unfold sample
  split
  · split
    · unfold scalarSample
      dsimp only
      split
      · exact Value.encodable_of_floats (floats_meaning _ _ _)
      · exact Value.encodable_of_floats (floats_typeSample _ _ _ _)
      · exact h.encodable
    · exact Value.encodable_of_floats rfl
  · exact Value.encodable_of_floats rfl

end Mock

namespace Generate

open Load (Loader)
open Pipeline
open Source (Failure Reporter exists_ok_pure exists_ok_mapM)

theorem Sampler.closed_encodable {s : Sampler} (hs : s.symbols.Keyed)
    (h : ∀ entry ∈ s.symbols.docs, ∀ c ∈ entry.2.defaults, c.Plain) :
    s.Closed (fun f => f.default.Plain) Value.Encodable where
  null := Value.encodable_of_floats rfl
  int _ := Value.encodable_of_floats rfl
  list _ := Value.encodable_list.mpr
  map := Value.encodable_of_floats rfl
  record _ := Value.encodable_record.mpr
  default _ hf := hf.encodable
  scalar owner _ types hf := Mock.encodable_sample hf owner types
  field _ _ := nofun
  declared _ _ st _ hresolve f hf := by
    obtain ⟨entry, hentry, hst⟩ := Symbols.mem_docs_of_resolve? hs hresolve
    exact h entry hentry _ (Document.mem_defaults hst hf)

theorem ok_renderMocks {samples : List (String × Value)}
    (h : ∀ sample ∈ samples, sample.2.Encodable) :
    ∃ text, Typescript.renderMocks samples = .ok text := by
  unfold Typescript.renderMocks
  refine exists_ok_pure.mpr (exists_ok_mapM.mpr fun sample hsample => ?_)
  exact exists_ok_pure.mpr ((Value.ok_layout_iff _ _).mpr (h sample hsample))

/-! ## Runs -/

/-- A failure in the samples of a run: a value has no JSON form, or sampling has no end. -/
def FromSamples (f : Failure) : Prop :=
  match f.root with
  | .unencodable => True
  | .overflow => True
  | _ => False

/-- Work that leaves what names mean as it is and gives what satisfies `Q`, or else fails for
another reason than its samples. -/
def Encodes {α : Type} (g : Registry) (Q : α → Prop) (x : Work α) : Prop :=
  ∀ r, r.registry = some g →
    match x r with
    | (.ok a, r') => r'.registry = some g ∧ Q a
    | (.error f, _) => ¬FromSamples f

namespace Encodes

variable {α β : Type} {g : Registry} {Q : α → Prop} {R : β → Prop} {x : Work α}

theorem pure {a : α} (h : Q a) : Encodes g Q (Pure.pure a : Work α) := fun _ hr => ⟨hr, h⟩

theorem bind {f : α → Work β} (hx : Encodes g Q x) (hf : ∀ a, Q a → Encodes g R (f a)) :
    Encodes g R (x >>= f) := by
  intro r hr
  have hfirst := hx r hr
  cases hrun : x r with
  | mk result r₁ =>
      rw [hrun] at hfirst
      cases result with
      | error e =>
          rw [bind_work_error hrun]
          exact hfirst
      | ok a =>
          rw [bind_work_ok hrun]
          exact hf a hfirst.2 r₁ hfirst.1

theorem ite {y : Work α} {c : Prop} [Decidable c] (hx : Encodes g Q x) (hy : Encodes g Q y) :
    Encodes g Q (if c then x else y) := by
  split
  · exact hx
  · exact hy

theorem lift {y : Except Failure α} (hok : ∀ a, y = .ok a → Q a)
    (herror : ∀ f, y = .error f → ¬FromSamples f) : Encodes g Q (lift y) := by
  intro r hr
  cases y with
  | error f => exact herror f rfl
  | ok a => exact ⟨hr, hok a rfl⟩

/-- A result that is there. -/
theorem result {y : Except Failure α} (h : ∃ a, y = .ok a) :
    Encodes g (fun _ => True) (Generate.lift y) := by
  obtain ⟨a, rfl⟩ := h
  exact .lift (fun _ _ => trivial) nofun

theorem within {label : String} (h : Encodes g Q x) : Encodes g Q (within label x) := by
  intro r hr
  have hx := h r hr
  unfold Generate.within
  cases hrun : x r with
  | mk result r₁ =>
      rw [hrun] at hx
      cases result with
      | error e => exact hx
      | ok a => exact hx

theorem change {f : Run → Run} (h : ∀ r, (f r).registry = r.registry) :
    Encodes g (fun _ => True) (change f) := fun r hr => ⟨(h r).trans hr, trivial⟩

theorem put (path content : String) : Encodes g (fun _ => True) (put path content) :=
  change fun _ => rfl

/-- Work that succeeds without a trace where names mean what they mean here. -/
theorem of_ok (h : ∀ r, r.registry = some g → ∃ a, x r = (.ok a, r) ∧ Q a) : Encodes g Q x := by
  intro r hr
  obtain ⟨a, ha, hQ⟩ := h r hr
  rw [ha]
  exact ⟨hr, hQ⟩

theorem mapM {f : α → Work β} {xs : List α} (h : ∀ a ∈ xs, Encodes g (fun _ => True) (f a)) :
    Encodes g (fun _ => True) (xs.mapM f) := by
  induction xs with
  | nil => exact .pure trivial
  | cons a xs ih =>
      rw [List.mapM_cons]
      exact .bind (h a List.mem_cons_self) fun _ _ =>
        .bind (ih fun a' ha' => h a' (List.mem_cons_of_mem a ha')) fun _ _ => .pure trivial

theorem forIn {step : α → Work (ForInStep PUnit)} {xs : List α}
    (h : ∀ a ∈ xs, Encodes g (fun _ => True) (step a)) (u : PUnit) :
    Encodes g (fun _ => True) (forIn xs u fun a _ => step a) := by
  induction xs with
  | nil => exact .pure trivial
  | cons a xs ih =>
      rw [List.forIn_cons]
      refine .bind (h a List.mem_cons_self) fun next _ => ?_
      cases next with
      | done _ => exact .pure trivial
      | yield _ => exact ih fun a' ha' => h a' (List.mem_cons_of_mem a ha')

end Encodes

theorem root_of_render {module : Typescript.ServiceModule} {provider : String} {f : Failure}
    (h : module.render provider = .error f) : ¬FromSamples f := by
  unfold Typescript.ServiceModule.render at h
  rcases Source.error_of_bind h with h | ⟨bodies, -, h⟩
  · obtain ⟨m, -, h⟩ := Source.error_of_mapM h
    unfold Typescript.Method.render at h
    split at h
    · obtain rfl := Except.error.inj h
      exact id
    · cases h
  · cases h

theorem encodes_renderClient {g : Registry} (j : Job) (e : Entry) (path : String)
    (c : FileContext) :
    Encodes g (fun _ => True) (j.renderClient e path c) := by
  unfold Job.renderClient
  exact .bind (.within (.lift (fun _ _ => trivial) fun _ => root_of_render)) fun _ _ => .put _ _

def Job.sampler (j : Job) : Sampler :=
  { bus := j.bus, symbols := j.registry.symbols, maxDepth := j.options.sampleDepth }

namespace Job

/-- A job without plugins on documents from which everything renders and every sample is
written. -/
structure Ready (j : Job) : Prop where
  bus : j.bus = builtinBus j.options.enumKeysAsNumbers j.options.mock
  docs : j.docs = j.registry.symbols.docs
  keyed : j.registry.symbols.Keyed
  sound : ∀ entry ∈ j.docs, entry.2.Sound
  plain : ∀ entry ∈ j.docs, ∀ c ∈ entry.2.defaults, c.Plain
  ends : ∀ d, j.docs.find? d.path = some d → ∀ service methods,
    Ends (j.sampler.methodSamples d service methods)

/-- Spelling out included paths leaves declarations as they are. -/
theorem ready_ofLoaded {docs : List Document} (honce : (docs.map (·.path)).Nodup)
    (hsound : ∀ d ∈ docs, d.Sound) (hplain : ∀ d ∈ docs, ∀ c ∈ d.defaults, c.Plain)
    (hground : Symbols.Grounded (docs.map Plugin.includesOf)) (o : Options)
    (types : Typescript.Mapper) : (ofLoaded o types docs).Ready := by
  have hpaths : ((docs.map Plugin.includesOf).map (·.path)).Nodup := by
    simpa [Function.comp_def, Plugin.includesOf] using honce
  have hkeyed := Symbols.keyed_ofDocs (docs.map Plugin.includesOf)
  have hloaded : ∀ entry ∈ (ofLoaded o types docs).docs,
      ∃ d ∈ docs, entry.2 = Plugin.includesOf d := by
    intro entry hentry
    have hfound := Table.find?_of_mem hkeyed.once hentry
    obtain ⟨hmem, -⟩ := (Symbols.find?_ofDocs hpaths).mp hfound
    obtain ⟨d, hd, heq⟩ := List.mem_map.mp hmem
    exact ⟨d, hd, heq.symm⟩
  refine ⟨rfl, rfl, hkeyed, fun entry hentry => ?_, fun entry hentry => ?_,
    fun d hd service methods => ?_⟩
  · obtain ⟨d, hd, heq⟩ := hloaded entry hentry
    rw [heq]
    exact hsound d hd
  · obtain ⟨d, hd, heq⟩ := hloaded entry hentry
    rw [heq]
    exact hplain d hd
  · obtain ⟨hmem, -⟩ := (Symbols.find?_ofDocs hpaths).mp hd
    exact Sampler.ends_methodSamples rfl rfl hground hmem service methods

namespace Ready

variable {j : Job} (h : j.Ready) {e : Entry} {d : Document}

include h

theorem sound_of_find? {path : String} (hd : j.docs.find? path = some d) : d.Sound :=
  h.sound _ (Table.mem_of_find? hd)

/-- The samples of methods are there and have a JSON form. -/
theorem samples (hd : j.docs.find? d.path = some d) (s : Service)
    (methods : List Typescript.Method) (r : Run) :
    ∃ samples, j.sampler.methodSamples d s methods r = some (.ok samples, r) ∧
      ∀ sample ∈ samples, sample.2.Encodable := by
  have hplain : ∀ entry ∈ j.registry.symbols.docs, ∀ c ∈ entry.2.defaults, c.Plain := by
    rw [← h.docs]
    exact h.plain
  have hclosed := Sampler.closed_encodable (s := j.sampler) h.keyed hplain
  obtain ⟨samples, hsamples⟩ := h.ends d hd s methods r
  obtain ⟨samples', hsame, hencodable⟩ := hclosed.methodSamples h.bus hsamples
  obtain rfl : samples = samples' := Except.ok.inj (congrArg Prod.fst hsame)
  exact ⟨samples, hsamples, hencodable⟩

theorem encodes_renderTypes (hd : j.docs.find? d.path = some d) :
    Encodes j.registry (fun _ => True) (j.renderTypes e (reachable j.docs d)) := by
  have hscope : ∀ D ∈ reachable j.docs d, D.Sound := by
    intro D hD
    rw [h.docs] at hd hD
    obtain ⟨hfound, -⟩ := find?_of_mem_reachable h.keyed hd hD
    rw [← h.docs] at hfound
    exact h.sound_of_find? hfound
  unfold renderTypes
  exact .bind (.change fun _ => rfl) fun _ _ =>
    .bind (.result (ok_typeDeclarations _ _ hscope)) fun _ _ => .put _ _

theorem encodes_renderMocks (hd : j.docs.find? d.path = some d) (path : String)
    (c : FileContext) : Encodes j.registry (fun _ => True) (j.renderMocks d path c) := by
  have hsamples : Encodes j.registry (fun samples => ∀ sample ∈ samples, sample.2.Encodable)
      (j.sampler.sampleMethods d c.service c.methods) := by
    refine .of_ok fun r _ => ?_
    obtain ⟨samples, hsamples, hencodable⟩ := h.samples hd c.service c.methods r
    exact ⟨samples, by rw [Sampler.sampleMethods, hsamples, Option.getD_some], hencodable⟩
  unfold renderMocks
  exact .bind (.within hsamples) fun _ hencodable =>
    .bind (.result (ok_renderMocks hencodable)) fun _ _ => .put _ _

theorem encodes_renderService (hd : j.docs.find? d.path = some d) {s : Service}
    (hs : s ∈ d.services) :
    Encodes j.registry (fun _ => True) (j.renderService e d s) := by
  have hstage : Encodes j.registry (fun _ => True) (fun r =>
      Stage.runGenerateFile j.bus { entry := e.name, document := d, service := s } r) := by
    obtain ⟨built, -, hadded⟩ := Plugin.addMethods_built j.registry j.options.enumKeysAsNumbers d s
      ((h.sound_of_find? hd).service hs) []
    rw [h.bus]
    exact .of_ok fun r hr => ⟨_, runGenerateFile_builtin hr hadded, trivial⟩
  have hend : ∀ exports : List Typescript.Export, Encodes j.registry (fun _ => True)
      (if j.options.skipClient then pure [] else pure exports) :=
    fun exports => .ite (.pure trivial) (.pure trivial)
  have hmocks := fun path c => h.encodes_renderMocks hd path c
  unfold renderService
  refine .bind hstage fun c _ => .ite (.pure trivial)
    (.ite (.bind (encodes_renderClient j e _ c) fun _ _ => ?_) ?_)
  · exact .ite (.bind (hmocks _ c) fun _ _ => hend _) (hend _)
  · exact .ite (.bind (hmocks _ c) fun _ _ => hend _) (hend _)

theorem encodes_renderEntry (hd : j.docs.find? d.path = some d) :
    Encodes j.registry (fun _ => True) (j.renderEntry e d) := by
  have hservices : Encodes j.registry (fun _ => True) (d.services.mapM (j.renderService e d)) :=
    .mapM fun s hs => h.encodes_renderService hd hs
  unfold renderEntry
  refine .bind (h.encodes_renderTypes hd) fun _ _ => .ite (.bind (.put _ _) fun _ _ => ?_) ?_
  · exact .bind hservices fun _ _ => .put _ _
  · exact .bind hservices fun _ _ => .put _ _

theorem encodes_renderEntries (entries : List Entry) :
    Encodes j.registry (fun _ => True) (j.renderEntries entries) := by
  unfold renderEntries
  refine .bind (.forIn (fun e _ => ?_) _) fun _ _ => .ite (.put _ _) (.pure trivial)
  cases hfound : j.docs.find? e.path with
  | none => exact .bind (Q := fun _ => True) (fun _ _ => id) fun _ _ => .pure trivial
  | some d =>
      have hpath : d.path = e.path := h.keyed.path_eq _ d (by rw [← h.docs, hfound])
      rw [← hpath] at hfound
      exact .bind (.within (h.encodes_renderEntry hfound)) fun _ _ => .pure trivial

end Ready
end Job

section Runs

variable {σ : Type} {o : Options} {origin : Origin} {bus : Bus Stage} {entries : List Entry}
  {docs : List Document} {r : Run}

/-- Once the documents are loaded, a run without plugins renders its entries. -/
theorem render_eq (types : Typescript.Mapper) (r : Run)
    (hresolved : resolveEntries origin.paths o.entries = .ok entries)
    (hload : (({ system := origin.system, revise := o.revise } : Loader).loadAll
      Load.defaultCacheSize (entries.map (·.path)) (Reporter.withHarmless [])).docs = .ok docs) :
    ∃ r', r'.registry = some (Job.ofLoaded o types docs).registry ∧
      render o origin types (builtinBus o.enumKeysAsNumbers o.mock) r =
        (Job.ofLoaded o types docs).renderEntries entries r' := by
  have hentries : lift (resolveEntries origin.paths o.entries) r = (.ok entries, r) := by
    rw [hresolved]
    rfl
  have hdocs : ∀ r, lift (({ system := origin.system, revise := o.revise } : Loader).loadAll
      Load.defaultCacheSize (entries.map (·.path)) (Reporter.withHarmless [])).docs r =
        (.ok docs, r) := by
    intro r
    rw [hload]
    rfl
  refine ⟨_, ?_, (bind_work_ok hentries).trans <| (bind_work_ok rfl).trans <|
    (bind_work_ok (hdocs _)).trans <| (bind_work_ok rfl).trans <|
    (bind_work_ok (runParseEntry_builtin _)).trans <| (bind_work_ok rfl).trans (bind_work_ok rfl)⟩
  rfl

theorem root_of_prepare {f : Failure} (hplugins : o.plugins = []) (h : prepare o = .error f) :
    ¬FromSamples f := by
  rcases Source.error_of_bind h with h | ⟨mapper, -, h⟩
  · unfold Typescript.Mapper.setI64 at h
    split at h
    · cases h
    · obtain rfl := Except.error.inj h
      exact id
  · rcases Source.error_of_bind h with h | ⟨b, -, h⟩
    · unfold stages at h
      rw [hplugins] at h
      cases hmock : o.mock with
      | true =>
          rw [hmock] at h
          cases h
      | false =>
          rw [hmock] at h
          cases h
    · cases h

theorem root_of_planned (hplugins : o.plugins = [])
    (hresolved : resolveEntries origin.paths o.entries = .ok entries)
    (hload : (({ system := origin.system, revise := o.revise } : Loader).loadAll
      Load.defaultCacheSize (entries.map (·.path)) (Reporter.withHarmless [])).docs = .ok docs)
    (hready : ∀ types, (Job.ofLoaded o types docs).Ready) {failed : Failure × List Warning}
    (h : planned o origin = .error failed) : ¬FromSamples failed.1 := by
  unfold planned at h
  split at h
  · obtain rfl := Except.error.inj h
    exact id
  · cases hprepare : prepare o with
    | error f =>
        rw [hprepare] at h
        obtain rfl := Except.error.inj h
        exact root_of_prepare hplugins hprepare
    | ok pair =>
        obtain ⟨types, bus⟩ := pair
        obtain rfl := bus_of_prepare hplugins hprepare
        obtain ⟨r₀, hregistry, hrender⟩ := render_eq types
          { registry := some { types } } hresolved hload
        have hentries := (hready types).encodes_renderEntries entries r₀ hregistry
        rw [hprepare] at h
        simp only [hrender] at h
        cases hrun : (Job.ofLoaded o types docs).renderEntries entries r₀ with
        | mk result r =>
            rw [hrun] at h hentries
            cases result with
            | error f =>
                obtain rfl := Except.error.inj h
                exact hentries
            | ok _ => cases h

theorem bus_of_planned (hplugins : o.plugins = []) {plan : Bus Stage × Run}
    (h : planned o origin = .ok plan) : plan.1 = builtinBus o.enumKeysAsNumbers o.mock := by
  unfold planned at h
  split at h
  · cases h
  · cases hprepare : prepare o with
    | error f =>
        rw [hprepare] at h
        cases h
    | ok pair =>
        rw [hprepare] at h
        dsimp only at h
        split at h
        · cases h
        · obtain rfl := Except.ok.inj h
          exact bus_of_prepare hplugins hprepare

theorem root_of_writeAll {sink : Sink σ} (hbus : bus.has Stage.writeFileHook = false)
    (hsink : ∀ path text s f s', sink.write path text s = (.error f, s') → ¬FromSamples f)
    {files : List (String × String)} {done : Written} {s : σ} {f : Failure}
    (h : (writeAll bus sink files done r s).1 = .error f) : ¬FromSamples f := by
  induction files generalizing done s with
  | nil => cases h
  | cons file rest ih =>
      have hstage : passStage bus file r = (.ok file.2, r) := by
        unfold passStage
        rw [hbus]
        rfl
      rw [writeAll_cons, hstage] at h
      cases hwrite : sink.write file.1 file.2 s with
      | mk result s₁ =>
          simp only [hwrite] at h
          cases result with
          | error g =>
              obtain rfl := Except.error.inj h
              exact hsink file.1 file.2 s g s₁ hwrite
          | ok _ => exact ih h

theorem root_of_memories (path text : String) (s : List Files.Memory) (f : Failure)
    (s' : List Files.Memory) (h : Sink.memories.write path text s = (.error f, s')) :
    ¬FromSamples f := by
  cases s with
  | nil =>
      obtain ⟨hf, -⟩ := Prod.mk.inj h
      obtain rfl := Except.error.inj hf
      exact id
  | cons m layers => cases (Prod.mk.inj h).1

/-- Samples have a JSON form, unless a default says that a number is not finite. For every
run without plugins whose entries are found and whose documents load, into a sink that takes
texts: if no type unfolds to itself and no field of a Protobuf message has `inf`, `-inf` or
`nan` as its default, then sampling any methods of any service of a document of the run comes
to an end, every sample has a JSON form and is rendered; and whatever the run fails for, it is
not its samples. -/
theorem generate_encodes (o : Options) (origin : Origin) (sink : Sink σ) (s : σ)
    (hplugins : o.plugins = [])
    (hsink : ∀ path text s f s', sink.write path text s = (.error f, s') → ¬FromSamples f)
    (entries : List Entry) (hresolved : resolveEntries origin.paths o.entries = .ok entries)
    (docs : List Document)
    (hload : (({ system := origin.system, revise := o.revise } : Loader).loadAll
      Load.defaultCacheSize (entries.map (·.path)) (Reporter.withHarmless [])).docs = .ok docs)
    (hground : Symbols.Grounded (docs.map Plugin.includesOf))
    (hfinite : ∀ d ∈ docs, d.dialect = .protobuf → ∀ c ∈ d.defaults, ¬c.NonFinite) :
    (∀ types, ∀ d ∈ docs.map Plugin.includesOf, ∀ service methods r, ∃ samples text,
      (Job.ofLoaded o types docs).sampler.methodSamples d service methods r =
        some (.ok samples, r) ∧
      (∀ sample ∈ samples, sample.2.Encodable) ∧ Typescript.renderMocks samples = .ok text) ∧
    ∀ f, (generate o origin (some sink) s).result = .error f → ¬FromSamples f := by
  have hsound := Load.sound_of_loadAll hload
  obtain ⟨honce, -⟩ := Load.documentAt_of_loadAll hload
  have hplain : ∀ d ∈ docs, ∀ c ∈ d.defaults, c.Plain := by
    intro d hd c hc
    rcases (hsound d hd).defaults hc with hplain | ⟨hdialect, hword⟩
    · exact hplain
    · exact absurd hword (hfinite d hd hdialect c hc)
  have hready := Job.ready_ofLoaded honce hsound hplain hground o
  refine ⟨fun types d hd service methods r => ?_, fun f hf => ?_⟩
  · have hpaths : ((docs.map Plugin.includesOf).map (·.path)).Nodup := by
      simpa [Function.comp_def, Plugin.includesOf] using honce
    have hfound := (Symbols.find?_ofDocs hpaths).mpr ⟨hd, rfl⟩
    obtain ⟨samples, hsamples, hencodable⟩ := (hready types).samples hfound service methods r
    obtain ⟨text, htext⟩ := ok_renderMocks hencodable
    exact ⟨samples, text, hsamples, hencodable, htext⟩
  · rw [generate_eq_planned] at hf
    cases hplan : planned o origin with
    | error failed =>
        rw [hplan] at hf
        obtain rfl := Except.error.inj hf
        exact root_of_planned hplugins hresolved hload hready hplan
    | ok plan =>
        rw [hplan] at hf
        have hhook : plan.1.has Stage.writeFileHook = false := by
          rw [bus_of_planned hplugins hplan]
          exact has_writeFile_builtin
        exact root_of_writeAll hhook hsink hf

end Runs

/-! ## Messages of scalars

Sampling a structure whose fields are all scalars goes from field to field. -/

namespace Sampler

def isScalar (f : Field) : Bool :=
  match f.type with
  | .base _ => true
  | _ => false

variable (s : Sampler)

def sampleScalars (owner : String) (depth : Nat) :
    List Field → Table Value → Run → After (Table Value)
  | [], done, r => (.ok done, r)
  | f :: rest, done, r =>
    match s.answer owner f depth .null r with
    | (.ok v, r) => sampleScalars owner depth rest (hold done f.name v) r
    | (.error e, r) => (.error e, r)

def scalarResult? (d : Document) (f : Function) (r : Run) : Option (After Value) :=
  match f.returns with
  | .identifier name =>
    match s.symbols.resolve? d name with
    | some (.struct st, _) =>
      if 0 < s.maxDepth ∧ st.fields.all isScalar then
        let (fields, r) := s.sampleScalars st.name 0 st.fields [] r
        some (fields.map .record, r)
      else none
    | _ => none
  | _ => none

/-- The sample of what a function returns, without recursion where it is of scalars. -/
def computedResult (d : Document) (service method : String) (f : Function) (r : Run) :
    Option (After Value) :=
  (s.scalarResult? d f r).or (s.sampleResult d service method f r)

variable {s}

theorem sampleField_scalar {d : Document} {owner : String} {f : Field} (hf : isScalar f = true)
    (depth : Nat) (r : Run) :
    s.sampleField d owner f depth r = some (s.answer owner f depth .null r) := by
  unfold isScalar at hf
  split at hf
  · rename_i name htype
    rw [sampleField.eq_def, htype]
    rfl
  · cases hf

theorem sampleFields_scalars (d : Document) (owner : String) (depth : Nat) {fields : List Field}
    (hfields : fields.all isScalar = true) (done : Table Value) (r : Run) :
    s.sampleFields d owner depth fields done r =
      some (s.sampleScalars owner depth fields done r) := by
  induction fields generalizing done r with
  | nil =>
      rw [sampleFields.eq_def]
      rfl
  | cons f rest ih =>
      obtain ⟨hf, hrest⟩ := Bool.and_eq_true_iff.mp hfields
      rw [sampleFields.eq_def]
      simp only [sampleField_scalar hf, Option.bind_eq_bind, Option.bind_some, sampleScalars]
      split
      · rename_i hanswer
        rw [hanswer, ih hrest]
      · rename_i hanswer
        rw [hanswer]
        rfl

theorem sampleResult_struct {d decl : Document} {service method name : String} {f : Function}
    {st : Struct} (hreturns : f.returns = .identifier name)
    (hresolve : s.symbols.resolve? d name = some (.struct st, decl)) (r : Run) :
    s.sampleResult d service method f r = s.sampleStruct decl st 0 r := by
  unfold sampleResult
  dsimp only
  split
  · rename_i name' hreturns'
    obtain rfl := FieldType.identifier.inj (hreturns.symm.trans hreturns')
    split
    · rename_i hresolve'
      obtain ⟨hsame, rfl⟩ := Prod.mk.inj (Option.some.inj (hresolve.symm.trans hresolve'))
      obtain rfl := Statement.struct.inj hsame
      rfl
    · rename_i hother
      exact absurd hresolve (hother st decl)
  · rename_i hother
    exact absurd hreturns (hother name)

theorem sampleResult_of_scalars {d : Document} {service method : String} {f : Function} {r : Run}
    {x : After Value} (h : s.scalarResult? d f r = some x) :
    s.sampleResult d service method f r = some x := by
  unfold scalarResult? at h
  split at h
  · rename_i name hreturns
    split at h
    · rename_i st decl hresolve
      split at h
      · rename_i hscalars
        rw [← h, sampleResult_struct hreturns hresolve, sampleStruct.eq_def,
          if_neg (Nat.not_le.mpr hscalars.1)]
        simp only [sampleFields_scalars decl st.name 0 hscalars.2, Option.bind_eq_bind,
          Option.bind_some]
        rfl
      · cases h
    · cases h
  · cases h

/-- The sample of a method, without recursion where it is of scalars. -/
def computedMethod (s : Sampler) (d : Document) (service : Service) (method : String) (r : Run) :
    Option (After Value) :=
  match function? service method with
  | some f =>
    if f.returns = .void then some (.ok .null, r) else s.computedResult d service.name method f r
  | none => some (.ok .null, r)

theorem sampleResult_eq_computed : @sampleResult = @computedResult := by
  funext s d service method f r
  unfold computedResult
  cases h : s.scalarResult? d f r with
  | none => rfl
  | some x => exact sampleResult_of_scalars h

theorem sampleMethod_eq_computed : @sampleMethod = @computedMethod := by
  funext s d service method r
  unfold sampleMethod computedMethod
  cases function? service method with
  | none => rfl
  | some f =>
      dsimp only
      rw [sampleResult_eq_computed]

end Sampler

/-- A message whose field has a default, and a service that is sampled from it. -/
def ratio (default : String) : List (String × String) :=
  [("a.proto", "message R \x7b optional double ratio = 1 [default = " ++ default ++ "]; \x7d\n" ++
    "service S \x7b rpc Get(R) returns (R) \x7b option (api.get) = \"/r\"; \x7d \x7d")]

def ratioOptions : Options := { entries := [("a", "a.proto")], mock := true }

theorem generate_encodes_ratio :
    ∃ docs, ((Loader.ofMemory (.ofList (ratio "0.5")) true).loadAll Load.defaultCacheSize
        ["/a.proto"] (Reporter.withHarmless [])).docs = .ok docs ∧
      Symbols.Grounded (docs.map Plugin.includesOf) ∧
      (∃ d ∈ docs, d.dialect = .protobuf ∧
        ∃ c ∈ d.defaults, c.doubles = ["0.5"] ∧ ¬c.NonFinite) ∧
      (∀ types, ∀ d ∈ docs.map Plugin.includesOf, ∀ service methods r, ∃ samples text,
        (Job.ofLoaded ratioOptions types docs).sampler.methodSamples d service methods r =
          some (.ok samples, r) ∧
        (∀ sample ∈ samples, sample.2.Encodable) ∧ Typescript.renderMocks samples = .ok text) ∧
      ∀ f,
        (generate ratioOptions (.ofFiles (ratio "0.5")) (some .memories) [{}]).result = .error f →
        ¬FromSamples f := by
  have hresolved : resolveEntries (Origin.ofFiles (ratio "0.5")).paths ratioOptions.entries =
      .ok [⟨"a", "/a.proto"⟩] := Source.ok_of_toOption (by decide +kernel)
  have hlisted : ((Loader.ofMemory (.ofList (ratio "0.5")) true).loadAll Load.defaultCacheSize
      ["/a.proto"] (Reporter.withHarmless [])).docs.toOption.map (fun docs =>
        (docs.flatMap fun d =>
          d.defaults.map fun c => (decide (d.dialect = .protobuf), c.doubles, decide c.NonFinite),
        docs.all Document.namesNoType)) =
      some ([(true, ["0.5"], false)], true) := by
    decide +kernel
  obtain ⟨docs, hdocs, hfacts⟩ := Option.map_eq_some_iff.mp hlisted
  obtain ⟨hdefaults, hnames⟩ := Prod.mk.inj hfacts
  have hload := Source.ok_of_toOption hdocs
  have hground := Plugin.grounded_of_namesNoType hnames
  have hfinite : ∀ d ∈ docs, ∀ c ∈ d.defaults, ¬c.NonFinite := by
    intro d hd c hc
    have hmem : (decide (d.dialect = .protobuf), c.doubles, decide c.NonFinite) ∈
        [(true, ["0.5"], false)] := by
      rw [← hdefaults]
      exact List.mem_flatMap.mpr ⟨d, hd, List.mem_map_of_mem hc⟩
    exact of_decide_eq_false (Prod.mk.inj (Prod.mk.inj (List.mem_singleton.mp hmem)).2).2
  have hthere : (true, ["0.5"], false) ∈ docs.flatMap fun d =>
      d.defaults.map fun c => (decide (d.dialect = .protobuf), c.doubles, decide c.NonFinite) := by
    rw [hdefaults]
    exact List.mem_singleton.mpr rfl
  obtain ⟨d, hd, hthere⟩ := List.mem_flatMap.mp hthere
  obtain ⟨c, hc, hdefault⟩ := List.mem_map.mp hthere
  obtain ⟨hdialect, hdefault⟩ := Prod.mk.inj hdefault
  obtain ⟨hdoubles, -⟩ := Prod.mk.inj hdefault
  obtain ⟨hsamples, hfails⟩ := generate_encodes ratioOptions (.ofFiles (ratio "0.5")) .memories
    [{}] rfl root_of_memories [⟨"a", "/a.proto"⟩] hresolved docs hload hground
    fun d hd _ => hfinite d hd
  exact ⟨docs, hload, hground,
    ⟨d, hd, of_decide_eq_true hdialect, c, hc, hdoubles, hfinite d hd c hc⟩, hsamples, hfails⟩

/-- A default that says that a number is infinite leaves its run without samples. -/
theorem unencodable_default :
    ∃ docs f, ((Loader.ofMemory (.ofList (ratio "inf")) true).loadAll Load.defaultCacheSize
        ["/a.proto"] (Reporter.withHarmless [])).docs = .ok docs ∧
      Symbols.Grounded (docs.map Plugin.includesOf) ∧
      (generate ratioOptions (.ofFiles (ratio "inf")) (some .memories) [{}]).result = .error f ∧
      f.root = .unencodable := by
  have hlisted : ((Loader.ofMemory (.ofList (ratio "inf")) true).loadAll Load.defaultCacheSize
      ["/a.proto"] (Reporter.withHarmless [])).docs.toOption.map
        (fun docs => docs.all Document.namesNoType) = some true := by
    decide +kernel
  have hfails :
      (match (generate ratioOptions (.ofFiles (ratio "inf")) (some .memories) [{}]).result with
        | .error f => match f.root with
          | .unencodable => true
          | _ => false
        | .ok _ => false) = true := by
    unfold generate render Job.renderEntries Job.renderEntry Job.renderService Job.renderMocks
      Sampler.sampleMethods Sampler.methodSamples
    rw [Sampler.sampleMethod_eq_computed]
    decide +kernel
  obtain ⟨docs, hdocs, hnames⟩ := Option.map_eq_some_iff.mp hlisted
  have hload := Source.ok_of_toOption hdocs
  have hground := Plugin.grounded_of_namesNoType hnames
  split at hfails
  · rename_i f hf
    split at hfails
    · rename_i hroot
      exact ⟨docs, f, hload, hground, hf, hroot⟩
    · cases hfails
  · cases hfails

end Generate
end ClientGen
