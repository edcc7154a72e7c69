import ClientGen.Generate.Types
import ClientGen.Load.Compile
import ClientGen.Plugin.Methods
import ClientGen.Proofs.Collection.Table
import ClientGen.Proofs.Document.Aliases
import ClientGen.Proofs.Source.Failure
import ClientGen.Proofs.Typescript.Parameters

/-! # Fields of requests

A parameter in the path of a method is taken from the request where a request field
travels in the path under its name. The request is typed by the interface of its
structure, whose properties have the names of the fields: not the names under which
they travel. So each such parameter is a property exactly if the name that an
annotation gives a field in the path is the name of some field
(`requestParams_named_iff`).

The fields of a request are those of the structure that its type means at once. A type name
for a structure is not followed, although the sample and the rendered name of the request
are found behind it: a method whose request is a type name maps no field at all, and so
differs from the same method over the structure itself as soon as that has a visible field
(`mapping_behind_alias_iff`).
-/

namespace ClientGen

open Source (Failure ok_of_bind ok_of_within forall₂_of_mapM)

/-! ## Where fields travel -/

namespace Route

theorem Place.name_inj {p q : Place} (h : p.name = q.name) : p = q := by
  revert h
  cases p <;> cases q <;> decide

theorem Place.name_of_ofName? {key : String} {p : Place} (h : Place.ofName? key = some p) :
    p.name = key := by
  unfold Place.ofName? at h
  split at h
  · cases h; rfl
  · cases h; rfl
  · cases h; rfl
  · cases h; rfl
  · cases h; rfl
  · cases h

/-- A field travels under its own name or under the one that an annotation gives it
for the place. -/
theorem fieldPlace_cases {f : Field} {verb wire : String} {place : Place}
    (h : fieldPlace f verb = (place, wire)) :
    wire = f.name ∨ ∃ a ∈ f.annotations, meaning? a.key = some place.name ∧ a.value = wire ∧
      a.value ≠ "" := by
  unfold fieldPlace at h
  split at h
  · rename_i found hfound
    subst h
    obtain ⟨a, ha, hplaced⟩ := List.exists_of_findSome?_eq_some hfound
    obtain ⟨key, hkey, hplaced⟩ := Option.bind_eq_some_iff.mp hplaced
    obtain ⟨p, hp, heq⟩ := Option.bind_eq_some_iff.mp hplaced
    obtain ⟨rfl, hwire⟩ := Prod.mk.inj (Option.some.inj heq)
    by_cases hempty : a.value = ""
    · rw [if_pos hempty] at hwire
      exact .inl hwire.symm
    · rw [if_neg hempty] at hwire
      exact .inr ⟨a, ha, by rw [hkey, Place.name_of_ofName? hp], hwire, hempty⟩
  · left
    split at h
    · exact (Prod.mk.inj h).2.symm
    · exact (Prod.mk.inj h).2.symm

end Route

namespace Plugin

open Typescript (Method Property Declaration placeholder_of_param segmentParam?)
open Pipeline (Registry)
open Generate (TypeStyle declarationOf propertyOf)
open Route (Place fieldPlace hidden)

/-- The names listed for a place are those of the visible fields that travel there. -/
theorem mem_requestMapping (fields : List Field) (verb : String) (place : Place) (wire : String) :
    wire ∈ ((requestMapping fields verb).find? place.name).getD [] ↔
      ∃ f ∈ fields, hidden f.annotations = false ∧ fieldPlace f verb = (place, wire) := by
  -- A field adds its name to the list of its place and leaves the others as they are.
  have hfold : ∀ (fs : List Field) (t : Table (List String)),
      wire ∈ (Table.find? (fs.foldl (fun t f => t.insert (fieldPlace f verb).1.name
          ((t.find? (fieldPlace f verb).1.name).getD [] ++ [(fieldPlace f verb).2])) t)
          place.name).getD [] ↔
        wire ∈ (t.find? place.name).getD [] ∨ ∃ f ∈ fs, fieldPlace f verb = (place, wire) := by
    intro fs
    induction fs with
    | nil => simp
    | cons f fs ih =>
        intro t
        rw [List.foldl_cons, ih, Table.find?_insert]
        by_cases hplace : place = (fieldPlace f verb).1
        · have hsame : wire = (fieldPlace f verb).2 ↔ fieldPlace f verb = (place, wire) := by
            rw [hplace, Prod.ext_iff]
            simp [eq_comm]
          rw [if_pos (congrArg Place.name hplace), ← hplace]
          simp [hsame, or_assoc]
        · have hname : place.name ≠ (fieldPlace f verb).1.name :=
            fun h => hplace (Place.name_inj h)
          have hother : fieldPlace f verb ≠ (place, wire) := fun h => hplace (by rw [h])
          rw [if_neg hname]
          simp [hother]
  have hmapping := hfold (fields.filter fun f => !hidden f.annotations) []
  rw [requestMapping]
  simpa [Table.find?, and_assoc] using hmapping

/-- Nothing is mapped exactly where no field is visible. -/
theorem requestMapping_eq_nil_iff (fields : List Field) (verb : String) :
    requestMapping fields verb = [] ↔ ∀ f ∈ fields, hidden f.annotations = true := by
  constructor
  · intro hnone f hf
    by_contra hvisible
    have hmem := (mem_requestMapping fields verb (Route.fieldPlace f verb).1
      (Route.fieldPlace f verb).2).mpr ⟨f, hf, by simpa using hvisible, rfl⟩
    rw [hnone] at hmem
    cases hmem
  · intro hall
    have hfilter : fields.filter (fun f => !hidden f.annotations) = [] :=
      List.filter_eq_nil_iff.mpr fun f hf => by simp [hall f hf]
    rw [requestMapping, hfilter]
    rfl

/-! ## Placeholders -/

section Rendering

variable {m : Method} {provider segment x y : String}

theorem placeholder_eq_iff (h : segmentParam? segment = some y) :
    m.placeholder provider segment = "$\x7breq." ++ x ++ "\x7d" ↔ y = x ∧ x ∈ m.mappedParams := by
  rw [placeholder_of_param h]
  by_cases hmapped : y ∈ m.mappedParams
  · rw [if_pos (by simpa using hmapped)]
    constructor
    · intro hsame
      have hname : y = x := by
        have hchars := congrArg String.toList hsame
        simp only [String.toList_append, List.append_assoc, List.append_cancel_left_eq] at hchars
        exact String.toList_injective (List.append_cancel_right hchars)
      exact ⟨hname, hname ▸ hmapped⟩
    · rintro ⟨rfl, -⟩
      rfl
  · rw [if_neg (by simpa using hmapped)]
    constructor
    · intro hsame
      have hchars := congrArg String.toList hsame
      simp [String.toList_append] at hchars
    · rintro ⟨rfl, hmem⟩
      exact absurd hmem hmapped

/-- The rendered path takes `x` from the request: it has a parameter that is written as
a property of the request. -/
def Asks (m : Method) (provider x : String) : Prop :=
  ∃ segment ∈ m.segments, (segmentParam? segment).isSome ∧
    m.placeholder provider segment = "$\x7breq." ++ x ++ "\x7d"

theorem asks_iff : Asks m provider x ↔ x ∈ m.pathParams ∧ x ∈ m.mappedParams := by
  constructor
  · rintro ⟨segment, hsegment, hparam, hplaceholder⟩
    obtain ⟨y, hy⟩ := Option.isSome_iff_exists.mp hparam
    obtain ⟨rfl, hmapped⟩ := (placeholder_eq_iff hy).mp hplaceholder
    exact ⟨List.mem_filterMap.mpr ⟨segment, hsegment, hy⟩, hmapped⟩
  · rintro ⟨hparam, hmapped⟩
    obtain ⟨segment, hsegment, hx⟩ := List.mem_filterMap.mp hparam
    exact ⟨segment, hsegment, by rw [hx]; rfl, (placeholder_eq_iff hx).mpr ⟨rfl, hmapped⟩⟩

end Rendering

/-! ## Requests -/

section Requests

variable {g : Registry} {d : Document}

theorem name_of_propertyOf {style : TypeStyle} {owner : String} {f : Field} {p : Property}
    (h : propertyOf g style d owner f = .ok p) : p.name = f.name := by
  obtain ⟨type, -, hok⟩ := ok_of_bind h
  rw [← Except.ok.inj hok]

/-- The properties of an interface have the names of the fields. -/
theorem names_of_declarationOf {style : TypeStyle} {st : Struct} {name : String}
    {comments : List String} {properties : List Property}
    (h : declarationOf g style d (.struct st) =
      .ok (some (.interface name comments properties))) :
    properties.map (·.name) = st.fields.map (·.name) := by
  obtain ⟨rendered, hrendered, heq⟩ := ok_of_bind h
  injection Option.some.inj (Except.ok.inj heq) with _ _ hproperties
  subst hproperties
  have hnames : ∀ {fields : List Field} {properties : List Property},
      List.Forall₂ (fun f p => propertyOf g style d st.name f = .ok p) fields properties →
        properties.map (·.name) = fields.map (·.name) := by
    intro fields properties hall
    induction hall with
    | nil => rfl
    | cons hproperty _ ih => rw [List.map_cons, List.map_cons, ih, name_of_propertyOf hproperty]
  exact hnames (forall₂_of_mapM hrendered)

variable {keys : Bool} {s : Service} {f : Function} {route : RouteConfig} {m : Method}

theorem url_of_methodOf (h : methodOf g keys d s f route = .ok m) : m.url = route.uri := by
  unfold methodOf at h
  obtain ⟨response, -, h⟩ := ok_of_bind h
  split at h
  · rw [← Except.ok.inj h]
  · obtain ⟨request, -, h⟩ := ok_of_bind h
    rw [← Except.ok.inj h]

theorem mapping_of_methodOf {p : Field} {rest : List Field}
    (h : methodOf g keys d s f route = .ok m) (hparams : f.params = p :: rest) :
    m.mapping = requestMapping (requestFields g.symbols d p.type) route.method := by
  unfold methodOf at h
  obtain ⟨response, -, h⟩ := ok_of_bind h
  rw [hparams] at h
  obtain ⟨request, -, h⟩ := ok_of_bind h
  rw [← Except.ok.inj h]

end Requests

/-- Which parameters of a path name properties of the request. Let a routed function
take a structure as its request, and let its method and the interface of the
structure be rendered. Then the path takes from the request just the names under which
visible fields travel in the path and which its parameters have. They all are properties
if and only if each of these names is the name of a field; and this is so if every
annotation that puts a field in the path gives it no name, or its own. -/
theorem requestParams_named_iff {g : Registry} {keys : Bool} {style : TypeStyle}
    {d decl : Document} {s : Service} {f : Function} {route : RouteConfig} {m : Method} {p : Field}
    {rest : List Field} {name : String} {st : Struct} {comments : List String}
    {properties : List Property} (provider : String)
    (hmethod : methodOf g keys d s f route = .ok m) (hparams : f.params = p :: rest)
    (htype : p.type = .identifier name)
    (hstruct : g.symbols.resolve? d name = some (.struct st, decl))
    (hdeclared : declarationOf g style decl (.struct st) =
      .ok (some (.interface st.name comments properties))) :
    (∀ x, Asks m provider x ↔ (∃ segment ∈ Text.split route.uri "/", segmentParam? segment = some x) ∧
        ∃ field ∈ st.fields, hidden field.annotations = false ∧
          fieldPlace field route.method = (.path, x)) ∧
      ((∀ x, Asks m provider x → x ∈ properties.map (·.name)) ↔
        ∀ x, Asks m provider x → ∃ field ∈ st.fields, field.name = x) ∧
      ((∀ field ∈ st.fields, ∀ a ∈ field.annotations, Route.meaning? a.key = some "path" →
          a.value = "" ∨ a.value = field.name) →
        ∀ x, Asks m provider x → x ∈ properties.map (·.name)) := by
  have hmapped : ∀ x, x ∈ m.mappedParams ↔ ∃ field ∈ st.fields,
      hidden field.annotations = false ∧ fieldPlace field route.method = (.path, x) := by
    intro x
    have hfields : requestFields g.symbols d p.type = st.fields := by
      rw [htype, requestFields, hstruct]
    rw [← mem_requestMapping, Method.mappedParams, mapping_of_methodOf hmethod hparams, hfields]
    rfl
  have hasks : ∀ x, Asks m provider x ↔
      (∃ segment ∈ Text.split route.uri "/", segmentParam? segment = some x) ∧
        ∃ field ∈ st.fields, hidden field.annotations = false ∧
          fieldPlace field route.method = (.path, x) := by
    intro x
    rw [asks_iff, hmapped, Method.pathParams, Method.segments, url_of_methodOf hmethod]
    simp
  have hnames : ∀ x, x ∈ properties.map (·.name) ↔ ∃ field ∈ st.fields, field.name = x := by
    intro x
    rw [names_of_declarationOf hdeclared, List.mem_map]
  refine ⟨hasks, forall_congr' fun x => imp_congr_right fun _ => hnames x, ?_⟩
  intro hplain x hx
  obtain ⟨-, field, hfield, -, hplace⟩ := (hasks x).mp hx
  refine (hnames x).mpr ⟨field, hfield, ?_⟩
  rcases Route.fieldPlace_cases hplace with hown | ⟨a, ha, hkey, hvalue, hgiven⟩
  · exact hown.symm
  · rcases hplain field hfield a ha hkey with hempty | hown
    · exact absurd hempty hgiven
    · rw [← hvalue, hown]

/-- A request that travels in the path under the names of its fields. -/
def lookupRequest : Struct :=
  { name := "Lookup",
    fields := [{ name := "id", type := .base "string",
                 annotations := [{ key := "api.path", value := "id" }] },
      { name := "kind", type := .base "i32", annotations := [{ key := "api.path" }] },
      { name := "trace", type := .base "string",
        annotations := [{ key := "api.header", value := "X-Trace" }] }] }

def lookupFunction : Function :=
  { name := "look_up", params := [{ name := "request", type := .identifier "Lookup" }] }

def lookupRoute : RouteConfig := { method := "GET", uri := "/:kind/items/:id/:tail" }

def lookupDocument : Document :=
  { path := "/a.thrift", dialect := .thrift, statements := [.struct lookupRequest] }

def lookupRegistry : Registry := { symbols := Symbols.ofDocs [lookupDocument] }

theorem requestParams_named_lookup :
    ∃ m properties,
      methodOf lookupRegistry false lookupDocument { name := "S" } lookupFunction lookupRoute =
        .ok m ∧
      declarationOf lookupRegistry {} lookupDocument (.struct lookupRequest) =
        .ok (some (.interface "Lookup" [] properties)) ∧
      m.renderedUrl "ask" =
        "/$\x7breq.kind\x7d/items/$\x7breq.id\x7d/$\x7boption.pathParams?.tail ?? ask('tail')\x7d" ∧
      Asks m "ask" "kind" ∧ ∀ x, Asks m "ask" x → x ∈ properties.map (·.name) := by
  have hstruct : lookupRegistry.symbols.resolve? lookupDocument "Lookup" =
      some (.struct lookupRequest, lookupDocument) := by rfl
  obtain ⟨m, hmethod, hurl⟩ : ∃ m, methodOf lookupRegistry false lookupDocument { name := "S" }
      lookupFunction lookupRoute = .ok m ∧ m.renderedUrl "ask" =
        "/$\x7breq.kind\x7d/items/$\x7breq.id\x7d/$\x7boption.pathParams?.tail ?? ask('tail')\x7d" :=
    ⟨_, by rfl, by decide +kernel⟩
  obtain ⟨properties, hdeclared⟩ : ∃ properties, declarationOf lookupRegistry {} lookupDocument
      (.struct lookupRequest) = .ok (some (.interface "Lookup" [] properties)) := ⟨_, by rfl⟩
  obtain ⟨hasks, -, hnamed⟩ :=
    requestParams_named_iff "ask" hmethod rfl rfl hstruct hdeclared
  have hkind : Asks m "ask" "kind" := by
    refine (hasks "kind").mpr ⟨⟨":kind", by decide, rfl⟩, ?_⟩
    exact ⟨_, List.mem_cons_of_mem _ List.mem_cons_self, by decide, by decide⟩
  exact ⟨m, properties, hmethod, hdeclared, hurl, hkind, hnamed (by decide)⟩

/-- A structure with a field that travels in the path under another name. -/
def renamedInPath : String :=
  "struct R \x7b 1: string userId (api.path = 'user_id') \x7d
service S \x7b R get(1: R r) (api.get = '/u/:user_id') \x7d"

/-- The path asks the request for a property that its interface does not have. -/
theorem placeholder_without_property :
    (Load.parseText .thrift "a.thrift" renamedInPath true {}).1.toOption.map (fun d =>
        let g : Registry := { symbols := Symbols.ofDocs [d] }
        let urls := d.services.flatMap fun s => s.functions.filterMap fun f =>
          f.route.bind fun route =>
            (methodOf g false d s f route).toOption.map (·.renderedUrl "ask")
        let properties := d.statements.filterMap fun st =>
          match declarationOf g {} d st with
          | .ok (some (.interface name _ properties)) => some (name, properties.map (·.name))
          | _ => none
        (urls, properties)) =
      some (["/u/$\x7breq.user_id\x7d"], [("R", ["userId"])]) := by
  decide +kernel

/-! ## Requests behind type names -/

/-- A function with its first parameter of another type. -/
def withRequest (f : Function) (type : FieldType) : Function :=
  { f with params := f.params.modifyHead fun p => { p with type } }

section Aliases

variable {g : Registry} {d : Document}

theorem requestFields_of_struct {name : String} {st : Struct} {decl : Document}
    (h : g.symbols.resolve? d name = some (.struct st, decl)) :
    requestFields g.symbols d (.identifier name) = st.fields := by
  rw [requestFields, h]

/-- A name that leads to another one is a type name, which has no fields. -/
theorem requestFields_of_leads {name : String} {y : Document × String}
    (h : g.symbols.Leads (d, name) y) : requestFields g.symbols d (.identifier name) = [] := by
  obtain ⟨t, hresolve, -⟩ := h
  rw [requestFields, hresolve]

/-- A routed function over a declared type has a method if its result has a type. -/
theorem exists_methodOf {keys : Bool} {f : Function} {p : Field} {rest : List Field}
    {response : String} (s : Service) (route : RouteConfig) (name : String)
    (hparams : f.params = p :: rest)
    (hresponse : Typescript.typeName g.types (g.symbols.resolver d) keys f.returns = .ok response) :
    ∃ m, methodOf g keys d s (withRequest f (.identifier name)) route = .ok m ∧
      m.mapping = requestMapping (requestFields g.symbols d (.identifier name)) route.method := by
  have hfirst : (withRequest f (.identifier name)).params =
      { p with type := .identifier name } :: rest := by rw [withRequest, hparams]; rfl
  have hreturns : (withRequest f (.identifier name)).returns = f.returns := rfl
  obtain ⟨m, hm⟩ : ∃ m, methodOf g keys d s (withRequest f (.identifier name)) route = .ok m := by
    unfold methodOf
    dsimp only
    rw [hfirst, hreturns, hresponse]
    exact ⟨_, rfl⟩
  exact ⟨m, hm, mapping_of_methodOf hm hfirst⟩

end Aliases

/-- When a request behind type names is mapped like the structure. Let following type names
from one name come to a structure, which another name means at once. The same routed
function over either name has a method if its result has a type. The two methods map the
same fields if and only if the first name means the structure at once too, or all fields
of the structure are hidden; otherwise the first method maps none. -/
theorem mapping_behind_alias_iff {g : Registry} {keys : Bool} {d decl decl' : Document}
    {f : Function} {p : Field} {rest : List Field} {response name direct : String}
    {z : Document × String} {st : Struct} (s : Service) (route : RouteConfig)
    (hparams : f.params = p :: rest)
    (hresponse : Typescript.typeName g.types (g.symbols.resolver d) keys f.returns = .ok response)
    (hchain : Relation.ReflTransGen g.symbols.Leads (d, name) z)
    (hend : g.symbols.resolve? z.1 z.2 = some (.struct st, decl))
    (hdirect : g.symbols.resolve? d direct = some (.struct st, decl')) :
    ∃ m n, methodOf g keys d s (withRequest f (.identifier name)) route = .ok m ∧
      methodOf g keys d s (withRequest f (.identifier direct)) route = .ok n ∧
      n.mapping = requestMapping st.fields route.method ∧
      (m.mapping = n.mapping ↔
        z = (d, name) ∨ ∀ field ∈ st.fields, hidden field.annotations = true) ∧
      (z ≠ (d, name) → m.mapping = []) := by
  obtain ⟨m, hm, hmapping⟩ := exists_methodOf s route name hparams hresponse
  obtain ⟨n, hn, hmapped⟩ := exists_methodOf s route direct hparams hresponse
  rw [requestFields_of_struct hdirect] at hmapped
  refine ⟨m, n, hm, hn, hmapped, ?_⟩
  rw [hmapping, hmapped]
  rcases hchain.cases_head with rfl | ⟨y, hstep, -⟩
  · rw [requestFields_of_struct hend]
    simp
  · have hfar : z ≠ (d, name) := by
      rintro rfl
      obtain ⟨t, hresolve, -⟩ := hstep
      cases (Prod.mk.inj (Option.some.inj (hresolve.symm.trans hend))).1
    have hempty : requestMapping [] route.method = [] := rfl
    rw [requestFields_of_leads hstep, hempty, eq_comm, requestMapping_eq_nil_iff]
    simp [hfar]

/-- A request of one file under a name of another one. -/
def aliasFiles : List Document :=
  [{ path := "/a.thrift", dialect := .thrift, includes := ["b.thrift"],
     statements := [.typedef { name := "Request", type := .identifier "b.Lookup" }] },
   { path := "/b.thrift", dialect := .thrift, statements := [.struct lookupRequest] }]

def aliasRegistry : Registry := { symbols := Symbols.ofDocs aliasFiles }

theorem mapping_behind_alias_lookup :
    ∃ m n,
      methodOf aliasRegistry false aliasFiles[0] { name := "S" }
          (withRequest lookupFunction (.identifier "Request")) lookupRoute = .ok m ∧
        methodOf aliasRegistry false aliasFiles[0] { name := "S" }
          (withRequest lookupFunction (.identifier "b.Lookup")) lookupRoute = .ok n ∧
        m.mapping = [] ∧
        n.mapping = [("path", ["id", "kind"]), ("header", ["X-Trace"])] := by
  have halias : aliasRegistry.symbols.resolve? aliasFiles[0] "Request" =
      some (.typedef { name := "Request", type := .identifier "b.Lookup" }, aliasFiles[0]) := by
    rfl
  have hstruct : aliasRegistry.symbols.resolve? aliasFiles[0] "b.Lookup" =
      some (.struct lookupRequest, aliasFiles[1]) := by rfl
  have hresponse : Typescript.typeName aliasRegistry.types
      (aliasRegistry.symbols.resolver aliasFiles[0]) false lookupFunction.returns =
        .ok "void" := rfl
  have hchain : Relation.ReflTransGen aliasRegistry.symbols.Leads (aliasFiles[0], "Request")
      (aliasFiles[0], "b.Lookup") := .single ⟨_, halias, rfl⟩
  obtain ⟨m, n, hm, hn, hmapped, -, hnone⟩ := mapping_behind_alias_iff { name := "S" } lookupRoute
    rfl hresponse hchain hstruct hstruct
  refine ⟨m, n, hm, hn, hnone ?_, hmapped.trans (by decide +kernel)⟩
  intro hsame
  exact absurd (Prod.mk.inj hsame).2 (by decide)

/-- A type name for a structure with a field that travels in the path. -/
def aliasedRequest : String :=
  "struct R \x7b 1: string id (api.path = 'id') \x7d
typedef R T
service S \x7b
  R direct(1: R r) (api.get = '/u/:id')
  R aliased(1: T r) (api.get = '/u/:id')
\x7d"

/-- Two functions that differ only in the name of the request, and only one of them maps it. -/
theorem mapping_lost_behind_alias :
    (Load.parseText .thrift "a.thrift" aliasedRequest true {}).1.toOption.map (fun d =>
        let g : Registry := { symbols := Symbols.ofDocs [d] }
        d.services.flatMap fun s => s.functions.filterMap fun f =>
          f.route.bind fun route => (methodOf g false d s f route).toOption.map fun m =>
            (m.name, m.request, m.mapping)) =
      some [("direct", "R", [("path", ["id"])]), ("aliased", "T", [])] := by
  decide +kernel

end Plugin
end ClientGen
