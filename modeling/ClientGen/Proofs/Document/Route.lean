import Mathlib.Data.List.Forall2
import Mathlib.Data.List.Induction
import ClientGen.Document.Route
import ClientGen.Proofs.Collection.Table
import ClientGen.Proofs.Files.Path

/-! # Where routes come from

No start of a key begins another one, so a key means the same behind each of them and
annotations can be respelled at will (`routes_respelled`). What a route holds is said by
the last annotation that says it: one of the declaration itself for method and path, one
of its own or an inherited one for the other settings (`config?_precedence`).
-/

namespace ClientGen

namespace Text

theorem upper_eq_empty_iff {s : String} : upper s = "" ↔ s = "" := by
  simp [upper, String.ofList_eq_empty_iff]

end Text

namespace Route

/-! ## Meanings -/

def Means (a : Annotation) (key : String) : Prop := ∃ start ∈ keyStarts, a.key = start ++ key

instance (a : Annotation) (key : String) : Decidable (Means a key) :=
  inferInstanceAs (Decidable (∃ start ∈ keyStarts, a.key = start ++ key))

theorem meaning?_append {start : String} (h : start ∈ keyStarts) (key : String) :
    meaning? (start ++ key) = some key := by
  -- the starts tried before this one differ from it within their own letters
  simp only [keyStarts, List.mem_cons, List.not_mem_nil, or_false] at h
  rcases h with rfl | rfl | rfl | rfl <;> simp [meaning?, keyStarts, Text.dropStart?]

theorem meaning?_eq_some_iff {a : Annotation} {key : String} :
    meaning? a.key = some key ↔ Means a key := by
  constructor
  · intro h
    obtain ⟨start, hstart, hdrop⟩ := List.exists_of_findSome?_eq_some h
    obtain ⟨rest, hrest, rfl⟩ := Option.map_eq_some_iff.mp hdrop
    refine ⟨start, hstart, String.toList_injective ?_⟩
    rw [Text.eq_append_of_dropStart? hrest]
    simp
  · rintro ⟨start, hstart, hkey⟩
    rw [hkey, meaning?_append hstart]

/-! ## Respelled annotations -/

/-- Whether two annotations are the same up to the start of their keys. -/
inductive Respelled : Annotation → Annotation → Prop
  | same (a : Annotation) : Respelled a a
  | start {p q : String} (hp : p ∈ keyStarts) (hq : q ∈ keyStarts) (key value : String)
      (position : Source.Position) :
      Respelled ⟨p ++ key, value, position⟩ ⟨q ++ key, value, position⟩

namespace Respelled

variable {a b : Annotation} {as bs : List Annotation}

theorem meaning?_eq (h : Respelled a b) : meaning? a.key = meaning? b.key := by
  cases h with
  | same => rfl
  | start hp hq => rw [meaning?_append hp, meaning?_append hq]

theorem value_eq (h : Respelled a b) : a.value = b.value := by
  cases h <;> rfl

theorem add_eq (h : Respelled a b) (t : Target) : t.add a = t.add b := by
  simp only [Target.add, h.meaning?_eq, h.value_eq]

theorem addSetting_eq (h : Respelled a b) (r : RouteConfig) : addSetting r a = addSetting r b := by
  simp only [addSetting, h.meaning?_eq, h.value_eq]

theorem placed?_eq (h : Respelled a b) (f : Field) : placed? f a = placed? f b := by
  simp only [placed?, h.meaning?_eq, h.value_eq]

/-- A fold whose steps cannot tell respelled annotations apart. -/
theorem foldl_eq {σ : Type} {step : σ → Annotation → σ} (h : List.Forall₂ Respelled as bs)
    (hstep : ∀ {a b}, Respelled a b → ∀ s, step s a = step s b) (s : σ) :
    as.foldl step s = bs.foldl step s := by
  induction h generalizing s with
  | nil => rfl
  | cons hab _ ih => rw [List.foldl_cons, List.foldl_cons, hstep hab, ih]

theorem config?_eq {own own' inherited inherited' : List Annotation}
    (hown : List.Forall₂ Respelled own own')
    (hinherited : List.Forall₂ Respelled inherited inherited') :
    config? own inherited = config? own' inherited' := by
  have hall : List.Forall₂ Respelled (inherited ++ own) (inherited' ++ own') :=
    List.rel_append hinherited hown
  simp only [config?, foldl_eq hown add_eq, foldl_eq hall addSetting_eq]

theorem fieldPlace_eq (f : Field) (h : List.Forall₂ Respelled f.annotations bs) (method : String) :
    fieldPlace f method = fieldPlace { f with annotations := bs } method := by
  have hplaced : ∀ {as bs : List Annotation}, List.Forall₂ Respelled as bs →
      as.findSome? (placed? f) = bs.findSome? (placed? f) := by
    intro as bs h
    induction h with
    | nil => rfl
    | cons hab _ ih => rw [List.findSome?_cons, List.findSome?_cons, hab.placed?_eq, ih]
  have hsame : placed? { f with annotations := bs } = placed? f := rfl
  simp only [fieldPlace, hsame, hplaced h]

theorem hidden_eq (h : List.Forall₂ Respelled as bs) : hidden as = hidden bs := by
  induction h with
  | nil => rfl
  | cons hab _ ih =>
      simp only [hidden, List.any_cons, hab.meaning?_eq, hab.value_eq] at ih ⊢
      rw [ih]

end Respelled

/-- Behind which of the starts a key stands does not matter: however the annotations of a
declaration, of what it inherits from and of a field are respelled, one by one, the route,
the place of the field for every method and whether it is hidden stay the same. -/
theorem routes_respelled {own own' inherited inherited' : List Annotation}
    (hown : List.Forall₂ Respelled own own')
    (hinherited : List.Forall₂ Respelled inherited inherited') (f : Field)
    {annotations : List Annotation} (hfield : List.Forall₂ Respelled f.annotations annotations)
    (method : String) :
    config? own inherited = config? own' inherited' ∧
      fieldPlace f method = fieldPlace { f with annotations } method ∧
      hidden f.annotations = hidden annotations :=
  ⟨Respelled.config?_eq hown hinherited, Respelled.fieldPlace_eq f hfield method,
    Respelled.hidden_eq hfield⟩

/-- Two declarations and a field whose annotations are written in three ways; one of the
keys goes on with what looks like a start. -/
theorem routes_respelled_mixed :
    let own : List Annotation := [⟨"api.get", "/users", {}⟩, ⟨"agw.api.trace", "on", {}⟩]
    let own' : List Annotation :=
      [⟨"pb_idl.api_method.get", "/users", {}⟩, ⟨"api_method.api.trace", "on", {}⟩]
    let inherited : List Annotation := [⟨"go.tag", "json", {}⟩, ⟨"api_method.group", "biz", {}⟩]
    let inherited' : List Annotation := [⟨"go.tag", "json", {}⟩, ⟨"api.group", "biz", {}⟩]
    let f : Field := { name := "token", annotations := [⟨"api.header", "X-Token", {}⟩] }
    let annotations : List Annotation := [⟨"agw.header", "X-Token", {}⟩]
    config? own inherited = config? own' inherited' ∧
      fieldPlace f "GET" = fieldPlace { f with annotations } "GET" ∧
      hidden f.annotations = hidden annotations :=
  routes_respelled
    (.cons (.start (p := "api.") (q := "pb_idl.api_method.") (by decide) (by decide) "get" _ _)
      (.cons (.start (p := "agw.") (q := "api_method.") (by decide) (by decide) "api.trace" _ _)
        .nil))
    (.cons (.same _)
      (.cons (.start (p := "api_method.") (q := "api.") (by decide) (by decide) "group" _ _) .nil))
    { name := "token", annotations := [⟨"api.header", "X-Token", {}⟩] }
    (.cons (.start (p := "api.") (q := "agw.") (by decide) (by decide) "header" _ _) .nil) "GET"

/-! ## Precedence -/

def routeKeys : List String := ["method", "uri"] ++ verbs.map (·.1)

def Routes (a : Annotation) : Prop := ∃ key ∈ routeKeys, Means a key

instance (a : Annotation) : Decidable (Routes a) :=
  inferInstanceAs (Decidable (∃ key ∈ routeKeys, Means a key))

def valued (key : String) (a : Annotation) : Option String :=
  if Means a key then some a.value else none

def verbed (a : Annotation) : Option (String × String) :=
  verbs.findSome? fun (key, verb) => if Means a key then some (verb, a.value) else none

/-- What the last annotation says that says anything. -/
def last? {β : Type} (read : Annotation → Option β) (as : List Annotation) : Option β :=
  as.reverse.findSome? read

theorem last?_concat {β : Type} (read : Annotation → Option β) (as : List Annotation)
    (a : Annotation) : last? read (as ++ [a]) = (read a).or (last? read as) := by
  simp [last?, List.findSome?_cons]
  cases read a <;> rfl

/-! ### Single annotations -/

section Single

variable {a : Annotation} {key : String}

theorem valued_of_meaning (h : meaning? a.key = some key) (k : String) :
    valued k a = if key = k then some a.value else none := by
  simp only [valued, ← meaning?_eq_some_iff, h, Option.some.injEq]

theorem valued_of_none (h : meaning? a.key = none) (k : String) : valued k a = none := by
  simp [valued, ← meaning?_eq_some_iff, h]

theorem verbed_of_meaning (h : meaning? a.key = some key) :
    verbed a = (verbs.lookup key).map fun verb => (verb, a.value) := by
  simp only [verbed, ← meaning?_eq_some_iff, h, Option.some.injEq]
  generalize verbs = known
  induction known with
  | nil => rfl
  | cons entry known ih =>
      obtain ⟨k, verb⟩ := entry
      rw [List.findSome?_cons, ← Table.find?, Table.find?_cons]
      by_cases hk : key = k
      · simp [hk]
      · simp only [hk, if_false]
        exact ih

theorem verbed_of_none (h : meaning? a.key = none) : verbed a = none := by
  simp [verbed, ← meaning?_eq_some_iff, h]

theorem routes_of_meaning (h : meaning? a.key = some key) : Routes a ↔ key ∈ routeKeys := by
  simp [Routes, ← meaning?_eq_some_iff, h]

theorem not_routes_of_none (h : meaning? a.key = none) : ¬ Routes a := by
  simp [Routes, ← meaning?_eq_some_iff, h]

theorem mem_routeKeys_iff :
    key ∈ routeKeys ↔ key = "method" ∨ key = "uri" ∨ (verbs.lookup key).isSome = true := by
  have hverb : key ∈ verbs.map (·.1) ↔ (verbs.lookup key).isSome = true := by
    rw [Option.isSome_iff_ne_none, ← Table.find?, Ne, Table.find?_eq_none_iff, not_not, Table.keys]
  simp only [routeKeys, List.mem_append, List.mem_cons, List.not_mem_nil, or_false, hverb, or_assoc]

end Single

theorem Target.add_eq (t : Target) (a : Annotation) :
    t.add a =
      { method := (valued "method" a).getD t.method
        uri := (valued "uri" a).getD t.uri
        verbMethod := ((verbed a).map (·.1)).getD t.verbMethod
        verbUri := ((verbed a).map (·.2)).getD t.verbUri
        routed := t.routed || decide (Routes a) } := by
  cases hkey : meaning? a.key with
  | none =>
      simp [Target.add, hkey, valued_of_none hkey, verbed_of_none hkey, not_routes_of_none hkey]
  | some key =>
      have hmethod : verbs.lookup "method" = none := by decide
      have huri : verbs.lookup "uri" = none := by decide
      simp only [valued_of_meaning hkey, verbed_of_meaning hkey, routes_of_meaning hkey,
        mem_routeKeys_iff, Target.add, hkey]
      by_cases h : key = "method"
      · simp [h, hmethod]
      · by_cases h' : key = "uri"
        · simp [h', huri]
        · cases hverb : verbs.lookup key <;> simp [h, h', hverb]

theorem foldl_add (own : List Annotation) :
    own.foldl Target.add {} =
      { method := (last? (valued "method") own).getD ""
        uri := (last? (valued "uri") own).getD ""
        verbMethod := ((last? verbed own).map (·.1)).getD ""
        verbUri := ((last? verbed own).map (·.2)).getD ""
        routed := decide (∃ a ∈ own, Routes a) } := by
  induction own using List.reverseRecOn with
  | nil => simp [last?]
  | append_singleton own a ih =>
      rw [List.foldl_concat, ih, Target.add_eq]
      simp only [last?_concat, Option.getD_or, Option.map_or, List.mem_append,
        List.mem_singleton, or_and_right, exists_or, exists_eq_left, Bool.decide_or]

/-! ### Settings -/

/-- The keys that are no further settings of a route: those of fields, those that route
and those with a place of their own. -/
def reservedKeys : List String := fieldKeys ++ routeKeys ++ ["serializer", "group"]

theorem addSetting_of_routes {a : Annotation} (h : Routes a) (r : RouteConfig) :
    addSetting r a = r := by
  obtain ⟨key, hroute, hmeans⟩ := h
  have hmeaning := meaning?_eq_some_iff.mpr hmeans
  rcases mem_routeKeys_iff.mp hroute with rfl | rfl | hverb
  · simp [addSetting, hmeaning]
  · simp [addSetting, hmeaning]
  · simp [addSetting, hmeaning, hverb]

theorem foldl_addSetting_filter (as : List Annotation) (r : RouteConfig) :
    (as.filter fun a => ¬ Routes a).foldl addSetting r = as.foldl addSetting r := by
  rw [List.foldl_filter]
  congr 1
  funext r a
  by_cases h : Routes a
  · simp [h, addSetting_of_routes h]
  · simp [h]

/-- The further setting of an annotation, with its key. -/
def furthered (a : Annotation) : Option (String × String) :=
  (meaning? a.key).bind fun key => if key ∈ reservedKeys then none else some (key, a.value)

theorem addSetting_eq (r : RouteConfig) (a : Annotation) :
    addSetting r a =
      { r with
        serializer := (valued "serializer" a).getD r.serializer
        group := (valued "group" a).getD r.group
        extra := (furthered a).elim r.extra fun (key, value) => r.extra.insert key value } := by
  cases hkey : meaning? a.key with
  | none => simp [addSetting, hkey, valued_of_none hkey, furthered]
  | some key =>
      have hvalued := valued_of_meaning hkey
      by_cases hkept : key ∈ fieldKeys ++ routeKeys
      · -- such a key is passed over, and is not one of the two that have a place
        have hsame : addSetting r a = r := by
          rcases List.mem_append.mp hkept with hfield | hroute
          · simp [addSetting, hkey, hfield]
          · exact addSetting_of_routes ((routes_of_meaning hkey).mpr hroute) r
        have hplaced : key ≠ "serializer" ∧ key ≠ "group" := by
          constructor <;> rintro rfl <;> exact absurd hkept (by decide)
        have hreserved : key ∈ reservedKeys := List.mem_append_left _ hkept
        simp [hsame, hvalued, hplaced, furthered, hkey, hreserved]
      · have hreserved : key ∈ reservedKeys ↔ key = "serializer" ∨ key = "group" := by
          rw [reservedKeys, List.mem_append, or_iff_right hkept]
          simp
        have hread : (fieldKeys.contains key || key == "method" || key == "uri" ||
            (verbs.lookup key).isSome) = false := by
          rw [List.mem_append, mem_routeKeys_iff, not_or, not_or, not_or] at hkept
          obtain ⟨hfield, hmethod, huri, hverb⟩ := hkept
          simp only [List.contains_eq_mem, hfield, beq_false_of_ne hmethod, beq_false_of_ne huri,
            Bool.eq_false_iff.mpr hverb, decide_false, Bool.or_false]
        simp only [addSetting, hkey, hread, hvalued, furthered]
        by_cases hserializer : key = "serializer"
        · have hmem : "serializer" ∈ reservedKeys := by decide
          simp [hserializer, hmem]
        · by_cases hgroup : key = "group"
          · have hmem : "group" ∈ reservedKeys := by decide
            simp [hgroup, hmem]
          · simp [hserializer, hgroup, hreserved]

theorem find?_further (t : Table String) (a : Annotation) (key : String) :
    Table.find? ((furthered a).elim t fun (key, value) => t.insert key value) key =
      if key ∈ reservedKeys then t.find? key else (valued key a).or (t.find? key) := by
  cases hkey : meaning? a.key with
  | none => simp [furthered, hkey, valued_of_none hkey]
  | some key' =>
      rw [valued_of_meaning hkey]
      by_cases hreserved : key' ∈ reservedKeys
      · by_cases hsame : key' = key
        · simp [furthered, hkey, hreserved, ← hsame]
        · simp [furthered, hkey, hreserved, hsame]
      · by_cases hsame : key' = key
        · subst hsame
          simp [furthered, hkey, hreserved, Table.find?_insert]
        · have hne : key ≠ key' := fun h => hsame h.symm
          simp [furthered, hkey, hreserved, Table.find?_insert, hsame, hne]

/-- What a route without further settings becomes. -/
structure Settles (r : RouteConfig) (as : List Annotation) (r' : RouteConfig) : Prop where
  method : r'.method = r.method
  uri : r'.uri = r.uri
  serializer : r'.serializer = (last? (valued "serializer") as).getD r.serializer
  group : r'.group = (last? (valued "group") as).getD r.group
  extra (key : String) :
    r'.extra.find? key = if key ∈ reservedKeys then none else last? (valued key) as
  keys : r'.extra.keys.Nodup

theorem settles_foldl {r : RouteConfig} (hempty : r.extra = []) (as : List Annotation) :
    Settles r as (as.foldl addSetting r) := by
  induction as using List.reverseRecOn with
  | nil => constructor <;> simp [hempty, last?, Table.find?, Table.keys]
  | append_singleton as a ih =>
      rw [List.foldl_concat, addSetting_eq]
      constructor
      case method => exact ih.method
      case uri => exact ih.uri
      case serializer => simp only [last?_concat, Option.getD_or, ih.serializer]
      case group => simp only [last?_concat, Option.getD_or, ih.group]
      case extra =>
        intro key
        rw [find?_further, ih.extra, last?_concat]
        split <;> rfl
      case keys =>
        cases furthered a with
        | none => exact ih.keys
        | some entry => exact Table.nodup_keys_insert ih.keys

/-! ### Routes -/

structure Governs (own inherited : List Annotation) (r : RouteConfig) : Prop where
  method : r.method = ((((last? (valued "method") own).filter (· ≠ "")).map Text.upper).or
    ((last? verbed own).map (·.1))).getD "GET"
  method_ne : r.method ≠ ""
  uri : r.uri = (((last? (valued "uri") own).filter (· ≠ "")).or
    ((last? verbed own).map (·.2))).getD ""
  serializer : r.serializer = (last? (valued "serializer") (inherited ++ own)).getD ""
  group : r.group = (last? (valued "group") (inherited ++ own)).getD ""
  extra (key : String) : r.extra.find? key =
    if key ∈ reservedKeys then none else last? (valued key) (inherited ++ own)
  keys : r.extra.keys.Nodup

theorem verb_ne_empty {as : List Annotation} {entry : String × String}
    (h : last? verbed as = some entry) : entry.1 ≠ "" := by
  obtain ⟨a, -, ha⟩ := List.exists_of_findSome?_eq_some h
  obtain ⟨⟨key, verb⟩, hverb, heq⟩ := List.exists_of_findSome?_eq_some ha
  have hnamed : ∀ named ∈ verbs, named.2 ≠ "" := by decide
  obtain ⟨-, hentry⟩ := Option.ite_none_right_eq_some.mp heq
  rw [← Option.some.inj hentry]
  exact hnamed _ hverb

theorem chosenMethod_foldl (own : List Annotation) :
    (own.foldl Target.add {}).chosenMethod =
      ((((last? (valued "method") own).filter (· ≠ "")).map Text.upper).or
        ((last? verbed own).map (·.1))).getD "GET" := by
  have hverbs : Target.chosenMethod { verbMethod := ((last? verbed own).map (·.1)).getD "" } =
      ((last? verbed own).map (·.1)).getD "GET" := by
    cases hverb : last? verbed own with
    | none => rfl
    | some entry => simp [Target.chosenMethod, verb_ne_empty hverb]
  rw [foldl_add]
  cases last? (valued "method") own with
  | none => exact hverbs
  | some method =>
      by_cases hempty : method = ""
      · subst hempty
        exact hverbs
      · simp [Target.chosenMethod, Option.filter, hempty]

theorem chosenMethod_ne_empty (own : List Annotation) :
    (own.foldl Target.add {}).chosenMethod ≠ "" := by
  rw [Target.chosenMethod]
  split
  · rename_i hmethod
    rwa [Ne, Text.upper_eq_empty_iff]
  · split
    · assumption
    · decide

theorem chosenUri_foldl (own : List Annotation) :
    (own.foldl Target.add {}).chosenUri =
      (((last? (valued "uri") own).filter (· ≠ "")).or
        ((last? verbed own).map (·.2))).getD "" := by
  rw [foldl_add, Target.chosenUri]
  cases last? (valued "uri") own with
  | none => simp
  | some uri => by_cases hempty : uri = "" <;> simp [Option.filter, hempty]

/-- What a route is read from. There is none if and only if no annotation of the
declaration itself routes it. Otherwise the parts of the route come from the last
annotations that say them, and the method is never empty. Inherited annotations that would
route are passed over. -/
theorem config?_precedence (own inherited : List Annotation) :
    (config? own inherited = none ↔ ∀ a ∈ own, ¬ Routes a) ∧
      (∀ r, config? own inherited = some r → Governs own inherited r) ∧
      ∀ inherited' : List Annotation,
        (inherited'.filter fun a => ¬ Routes a) = (inherited.filter fun a => ¬ Routes a) →
          config? own inherited' = config? own inherited := by
  have hrouted : (own.foldl Target.add {}).routed = decide (∃ a ∈ own, Routes a) := by
    rw [foldl_add]
  refine ⟨?_, ?_, ?_⟩
  · simp only [config?, hrouted, decide_eq_true_eq]
    split
    · rename_i h
      simpa using h
    · rename_i h
      simpa using h
  · intro r hr
    simp only [config?] at hr
    split at hr
    · obtain rfl := Option.some.inj hr
      have hsettles := settles_foldl (r := { method := (own.foldl Target.add {}).chosenMethod
                                             uri := (own.foldl Target.add {}).chosenUri })
        rfl (inherited ++ own)
      exact
        { method := hsettles.method.trans (chosenMethod_foldl own)
          method_ne := hsettles.method ▸ chosenMethod_ne_empty own
          uri := hsettles.uri.trans (chosenUri_foldl own)
          serializer := hsettles.serializer
          group := hsettles.group
          extra := hsettles.extra
          keys := hsettles.keys }
    · cases hr
  · intro inherited' hsame
    simp only [config?, List.foldl_append]
    rw [← foldl_addSetting_filter inherited', hsame, foldl_addSetting_filter]

/-- A declaration with an empty method and a path behind that of its verb, and inherited
annotations of which one would route it. -/
theorem config?_precedence_listing :
    let own : List Annotation := [⟨"api.uri", "/v2/items", {}⟩, ⟨"agw.delete", "/old", {}⟩,
      ⟨"api.get", "/items", {}⟩, ⟨"api.method", "", {}⟩, ⟨"api.version", "2", {}⟩]
    let inherited : List Annotation :=
      [⟨"api.method", "post", {}⟩, ⟨"api_method.group", "biz", {}⟩, ⟨"agw.version", "1", {}⟩]
    let r : RouteConfig :=
      { method := "GET", uri := "/v2/items", group := "biz", extra := [("version", "2")] }
    config? own inherited = some r ∧ Governs own inherited r ∧
      config? own (inherited.drop 1) = some r := by
  intro own inherited r
  have hroute : config? own inherited = some r := by decide
  obtain ⟨-, hgoverns, hpassed⟩ := config?_precedence own inherited
  have hsame := hpassed (inherited.drop 1) (by decide)
  exact ⟨hroute, hgoverns r hroute, hsame.trans hroute⟩

end Route
end ClientGen
