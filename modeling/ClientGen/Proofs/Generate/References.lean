import ClientGen.Proofs.Document.Symbols
import ClientGen.Proofs.Generate.Modules
import ClientGen.Proofs.Generate.Scope

/-! # References of generated types

The types module and the schema of an entry declare what the documents of its scope
declare. What their names refer to is looked up in all documents of the run, so that a
reference may lead out of the scope. It does so in two ways only
(`generate_references`): a Protobuf name is found in a document of its package that is
not imported (`reference_out_of_scope`), or a Thrift name behind a path from the root
is found in another file, next to the including one.
-/

namespace ClientGen

/-- Whether a JSON document has a reference to `x` anywhere. -/
inductive Json.Refers : Json → String → Prop
  | here {fields : List (String × Json)} {x : String} (h : ("$ref", .string x) ∈ fields) :
      Refers (.object fields) x
  | field {fields : List (String × Json)} {key x : String} {v : Json} (hmem : (key, v) ∈ fields)
      (h : Refers v x) : Refers (.object fields) x
  | item {items : List Json} {v : Json} {x : String} (hmem : v ∈ items) (h : Refers v x) :
      Refers (.array items) x

def Json.Defines (j : Json) (x : String) : Prop :=
  ∃ defs, j.field? "$defs" = some (.object defs) ∧ x ∈ defs.map (·.1)

namespace Generate

open Pipeline (Registry)
open Source (ok_of_bind ok_of_within)
open Typescript (Declaration)

/-! ## References and scopes -/

section Scopes

variable {s : Symbols} {D T d : Document} {st : Statement} {name path : String}

/-- A path from the root that is taken from the directory of the including file, where
another document stands. -/
def Shadowed (source path : String) (T : Document) : Prop :=
  Path.isRooted path = true ∧ T.path = Path.join [Path.dir source, path] ∧
    T.path ≠ Path.rooted path

theorem leads_or_shadowed (hs : s.Keyed) (hD : s.docs.find? D.path = some D)
    (hpath : path ∈ D.includes) (h : s.includeTarget? D path = some T) :
    Leads s.docs D.path T.path ∨ Shadowed D.path path T := by
  have hleads : includedPath? s.docs D.path path = some T.path → Leads s.docs D.path T.path :=
    fun hincluded => ⟨D, hD, path, hpath, hincluded⟩
  by_cases hrooted : Path.isRooted path = true
  · have hroot : s.docs.find? (Path.rooted path) = some T → T.path = Path.rooted path →
        Leads s.docs D.path T.path := by
      intro hfound heq
      apply hleads
      have hhas : s.docs.has (Path.rooted path) = true :=
        Table.has_iff.mpr (List.mem_map_of_mem (Table.mem_of_find? hfound))
      simp [includedPath?, Target.candidates, hrooted, hhas, heq]
    unfold Symbols.includeTarget? at h
    cases hnear : s.docs.find? (Path.join [Path.dir D.path, path]) with
    | some d =>
        obtain rfl : d = T := by simpa [hnear] using h
        have heq := hs.path_eq _ _ hnear
        by_cases hsame : d.path = Path.rooted path
        · exact .inl (hroot (by rw [← hsame]; exact hs.find?_path hnear) hsame)
        · exact .inr ⟨hrooted, heq, hsame⟩
    | none =>
        have hfound : s.docs.find? (Path.rooted path) = some T := by simpa [hnear] using h
        exact .inl (hroot hfound (hs.path_eq _ _ hfound))
  · rw [Symbols.includeTarget?_of_not_rooted s D (by simpa using hrooted)] at h
    obtain ⟨p, hincluded, hfound⟩ := Option.bind_eq_some_iff.mp h
    rw [← hs.path_eq p T hfound] at hincluded
    exact .inl (hleads hincluded)

/-- The documents of a scope stand in the table, and what they lead to is in the scope. -/
theorem find?_of_mem_reachable (hs : s.Keyed) (hd : s.docs.find? d.path = some d)
    (hD : D ∈ reachable s.docs d) :
    s.docs.find? D.path = some D ∧
      ∀ T, s.docs.find? T.path = some T → (T = D ∨ Leads s.docs D.path T.path) →
        T ∈ reachable s.docs d := by
  have hkey : d.path ∈ s.docs.keys := List.mem_map_of_mem (Table.mem_of_find? hd)
  obtain ⟨p, hreach, hfound⟩ := (mem_reachable_iff hkey).mp hD
  obtain rfl := hs.path_eq p D hfound
  refine ⟨hfound, fun T hT hleads => ?_⟩
  rcases hleads with rfl | hleads
  · exact hD
  · exact (mem_reachable_iff hkey).mpr ⟨T.path, hreach.tail hleads, hT⟩

/-- A name that is declared out of a scope: in Protobuf, or behind a shadowed path. -/
def Escapes (s : Symbols) (scope : List Document) (D : Document) (name : String) : Prop :=
  ∃ st T, s.resolve? D name = some (st, T) ∧ T ∉ scope ∧
    (D.dialect = .protobuf ∨ ∃ path ∈ D.includes, Shadowed D.path path T)

/-- What a name of a scope refers to is declared in the scope, unless it escapes. -/
theorem declared_or_escapes (hs : s.Keyed) (hd : s.docs.find? d.path = some d)
    (hD : D ∈ reachable s.docs d) {r : Typescript.Resolved} (h : s.resolver D name = some r) :
    (∃ T ∈ reachable s.docs d, ∃ st ∈ T.statements, Symbols.isType st = true ∧ st.name = r.name) ∨
      Escapes s (reachable s.docs d) D name := by
  obtain ⟨hfound, hscope⟩ := find?_of_mem_reachable hs hd hD
  obtain ⟨st, T, hresolve, htype, hname⟩ := Symbols.resolve?_of_resolver h
  obtain ⟨hst, hT, hcases⟩ := Symbols.resolve?_cases hs hfound hresolve
  by_cases hmem : T ∈ reachable s.docs d
  · exact .inl ⟨T, hmem, st, hst, htype, hname⟩
  · refine .inr ⟨st, T, hresolve, hmem, ?_⟩
    rcases hcases with rfl | hdialect | ⟨path, hpath, htarget⟩
    · exact absurd hD hmem
    · exact .inl hdialect
    · rcases leads_or_shadowed hs hfound hpath htarget with hleads | hshadowed
      · exact absurd (hscope T hT (.inr hleads)) hmem
      · exact .inr ⟨path, hpath, hshadowed⟩

end Scopes

/-! ## The types module -/

def declaredName : Declaration → String
  | .interface name _ _ => name
  | .enum name _ _ => name
  | .synonym name _ _ => name
  | .const name _ _ _ => name

section Types

variable {g : Registry} {style : TypeStyle}

theorem exists_mem_statementsOf {docs : List Document} (P : Document → Statement → Prop) :
    (∃ p ∈ statementsOf docs, P p.1 p.2) ↔ ∃ d ∈ docs, ∃ st ∈ d.statements, P d st := by
  constructor
  · rintro ⟨p, hp, hP⟩
    obtain ⟨d, hd, hmap⟩ := List.mem_flatMap.mp hp
    obtain ⟨st, hst, rfl⟩ := List.mem_map.mp hmap
    exact ⟨d, hd, st, hst, hP⟩
  · rintro ⟨d, hd, st, hst, hP⟩
    exact ⟨(d, st), List.mem_flatMap.mpr ⟨d, hd, List.mem_map_of_mem hst⟩, hP⟩

theorem name_of_declarationOf {d : Document} {st : Statement} {x : Option Declaration}
    (htype : declaresType st = true) (h : declarationOf g style d st = .ok x) :
    ∃ declaration, x = some declaration ∧ declaredName declaration = st.name := by
  cases st with
  | service s => cases htype
  | struct s =>
      obtain ⟨properties, -, h⟩ := ok_of_bind h
      exact ⟨_, (Except.ok.inj h).symm, rfl⟩
  | enum e => exact ⟨_, (Except.ok.inj h).symm, rfl⟩
  | typedef t =>
      obtain ⟨type, -, h⟩ := ok_of_bind (ok_of_within h)
      exact ⟨_, (Except.ok.inj h).symm, rfl⟩
  | const c =>
      obtain ⟨type, -, h⟩ := ok_of_bind (ok_of_within h)
      obtain ⟨value, -, h⟩ := ok_of_bind h
      exact ⟨_, (Except.ok.inj h).symm, rfl⟩

theorem declaresType_of_isType {st : Statement} (h : Symbols.isType st = true) :
    declaresType st = true := by
  cases st with
  | service s => cases h
  | _ => rfl

/-- One statement: either it declares nothing new, or it is rendered in front of the rest. -/
theorem declareAll_cons {seen : Table String} {d : Document} {st : Statement}
    {rest : List (Document × Statement)} {ds : List Declaration}
    (h : (declareAll g style seen ((d, st) :: rest)).1 = .ok ds) :
    (declareAll g style seen rest).1 = .ok ds ∧
        (declaresType st = true → st.name ∈ seen.keys) ∨
      ∃ x others, declaresType st = true ∧ st.name ∉ seen.keys ∧
        declarationOf g style d st = .ok (some x) ∧ declaredName x = st.name ∧
        (declareAll g style (seen.insert st.name d.path) rest).1 = .ok others ∧
        ds = x :: others := by
  unfold declareAll at h
  by_cases htype : declaresType st = true
  · rw [if_neg (by simp [htype])] at h
    cases hseen : seen.find? st.name with
    | some first =>
        rw [hseen] at h
        exact .inl ⟨h, fun _ => List.mem_map_of_mem (Table.mem_of_find? hseen)⟩
    | none =>
        rw [hseen] at h
        cases hdeclared : declarationOf g style d st with
        | error f =>
            rw [hdeclared] at h
            cases h
        | ok found =>
            rw [hdeclared] at h
            obtain ⟨x, rfl, hname⟩ := name_of_declarationOf htype hdeclared
            obtain ⟨others, hothers, rfl⟩ := Source.ok_of_map h
            have hnew : st.name ∉ seen.keys := Table.find?_eq_none_iff.mp hseen
            exact .inr ⟨x, others, htype, hnew, rfl, hname, hothers, rfl⟩
  · rw [if_pos (by simpa using htype)] at h
    exact .inl ⟨h, fun htrue => absurd htrue htype⟩

/-- A types module declares the names of all statements but services. -/
theorem mem_declareAll {seen : Table String} {sts : List (Document × Statement)}
    {ds : List Declaration} (h : (declareAll g style seen sts).1 = .ok ds) (x : String) :
    x ∈ seen.keys ∨ x ∈ ds.map declaredName ↔
      x ∈ seen.keys ∨ ∃ p ∈ sts, declaresType p.2 = true ∧ p.2.name = x := by
  induction sts generalizing seen ds with
  | nil =>
      obtain rfl := Except.ok.inj h
      simp
  | cons p rest ih =>
      rw [List.exists_mem_cons_iff]
      rcases declareAll_cons h with
        ⟨hrest, hold⟩ | ⟨found, others, htype, -, -, hname, hothers, rfl⟩
      · rw [ih hrest]
        constructor
        · rintro (hx | hx)
          · exact .inl hx
          · exact .inr (.inr hx)
        · rintro (hx | ⟨htype, rfl⟩ | hx)
          · exact .inl hx
          · exact .inl (hold htype)
          · exact .inr hx
      · have hrest := ih hothers
        simp only [Table.mem_keys_insert] at hrest
        simp only [List.map_cons, List.mem_cons, hname, htype, true_and]
        rw [or_left_comm, ← or_assoc, hrest, or_assoc, or_left_comm, eq_comm (a := x)]

/-- Whatever a types module declares is the declaration of a statement, in its document. -/
theorem declarationOf_of_mem {seen : Table String} {sts : List (Document × Statement)}
    {ds : List Declaration} (h : (declareAll g style seen sts).1 = .ok ds) :
    ∀ x ∈ ds, ∃ p ∈ sts, declarationOf g style p.1 p.2 = .ok (some x) := by
  induction sts generalizing seen ds with
  | nil =>
      obtain rfl := Except.ok.inj h
      simp
  | cons p rest ih =>
      intro x hx
      rcases declareAll_cons h with
        ⟨hrest, -⟩ | ⟨found, others, -, -, hdeclared, -, hothers, rfl⟩
      · obtain ⟨p', hp', hx⟩ := ih hrest x hx
        exact ⟨p', List.mem_cons_of_mem p hp', hx⟩
      · rcases List.mem_cons.mp hx with rfl | hx
        · exact ⟨p, List.mem_cons_self, hdeclared⟩
        · obtain ⟨p', hp', hx⟩ := ih hothers x hx
          exact ⟨p', List.mem_cons_of_mem p hp', hx⟩

theorem mem_typeDeclarations {docs : List Document} {ds : List Declaration}
    (h : (typeDeclarations g style docs).1 = .ok ds) (x : String) :
    x ∈ ds.map declaredName ↔
      ∃ d ∈ docs, ∃ st ∈ d.statements, declaresType st = true ∧ st.name = x := by
  have hall := mem_declareAll h x
  simp only [Table.keys, List.map_nil, List.not_mem_nil, false_or] at hall
  exact hall.trans (exists_mem_statementsOf fun _ st => declaresType st = true ∧ st.name = x)

end Types

/-! ## The schema -/

section Definitions

variable {g : Registry}

theorem isSome_definition? (d : Document) (st : Statement) :
    (definition? g d st).isSome = Symbols.isType st := by
  cases st <;> rfl

def defineOne (g : Registry) (defs : Table Json) (p : Document × Statement) : Table Json :=
  if defs.has p.2.name then defs
  else
    match definition? g p.1 p.2 with
    | some s => defs.insert p.2.name s.toJson
    | none => defs

theorem mem_defineOne (g : Registry) (defs : Table Json) (p : Document × Statement) :
    (∀ entry ∈ defineOne g defs p,
        entry ∈ defs ∨ ∃ s, definition? g p.1 p.2 = some s ∧ entry.2 = s.toJson) ∧
      ∀ x, x ∈ (defineOne g defs p).keys ↔
        x ∈ defs.keys ∨ Symbols.isType p.2 = true ∧ p.2.name = x := by
  unfold defineOne
  split
  · rename_i hhas
    refine ⟨fun entry hentry => .inl hentry, fun x => ⟨.inl, ?_⟩⟩
    rintro (hx | ⟨-, rfl⟩)
    · exact hx
    · exact Table.has_iff.mp hhas
  · have htype := isSome_definition? (g := g) p.1 p.2
    split
    · rename_i s hdefinition
      rw [hdefinition, Option.isSome_some] at htype
      refine ⟨?_, fun x => ?_⟩
      · rintro ⟨key, v⟩ hentry
        rcases Table.mem_of_mem_insert hentry with heq | hold
        · exact .inr ⟨s, hdefinition, (Prod.mk.inj heq).2⟩
        · exact .inl hold
      · rw [Table.mem_keys_insert, ← htype, or_comm, eq_comm (a := x)]
        simp
    · rename_i hdefinition
      rw [hdefinition, Option.isSome_none] at htype
      exact ⟨fun entry hentry => .inl hentry, fun x => by simp [← htype]⟩

theorem mem_defineAll (g : Registry) (defs : Table Json) (sts : List (Document × Statement)) :
    (∀ entry ∈ sts.foldl (defineOne g) defs, entry ∈ defs ∨
        ∃ p ∈ sts, ∃ s, definition? g p.1 p.2 = some s ∧ entry.2 = s.toJson) ∧
      ∀ x, x ∈ Table.keys (sts.foldl (defineOne g) defs) ↔
        x ∈ defs.keys ∨ ∃ p ∈ sts, Symbols.isType p.2 = true ∧ p.2.name = x := by
  induction sts generalizing defs with
  | nil => simp
  | cons p rest ih =>
      obtain ⟨hentries, hkeys⟩ := mem_defineOne g defs p
      obtain ⟨hmore, hnames⟩ := ih (defineOne g defs p)
      rw [List.foldl_cons]
      refine ⟨fun entry hentry => ?_, fun x => ?_⟩
      · rcases hmore entry hentry with hold | ⟨p', hp', hs⟩
        · rcases hentries entry hold with hold | hs
          · exact .inl hold
          · exact .inr ⟨p, List.mem_cons_self, hs⟩
        · exact .inr ⟨p', List.mem_cons_of_mem p hp', hs⟩
      · rw [hnames, hkeys, List.exists_mem_cons_iff, or_assoc]

/-- The definitions of a schema are those of the types of its documents. -/
theorem mem_definitions (g : Registry) (docs : List Document) :
    (∀ entry ∈ definitions g docs, ∃ d ∈ docs, ∃ st s,
        definition? g d st = some s ∧ entry.2 = s.toJson) ∧
      ∀ x, x ∈ (definitions g docs).keys ↔
        ∃ d ∈ docs, ∃ st ∈ d.statements, Symbols.isType st = true ∧ st.name = x := by
  obtain ⟨hentries, hkeys⟩ := mem_defineAll g [] (statementsOf docs)
  refine ⟨fun entry hentry => ?_, fun x => (hkeys x).trans ?_⟩
  · have hstatement := (hentries entry hentry).resolve_left List.not_mem_nil
    obtain ⟨d, hd, st, -, s, hs⟩ := (exists_mem_statementsOf fun d st =>
      ∃ s, definition? g d st = some s ∧ entry.2 = s.toJson).mp hstatement
    exact ⟨d, hd, st, s, hs⟩
  · rw [exists_mem_statementsOf fun _ st => Symbols.isType st = true ∧ st.name = x]
    exact or_iff_right List.not_mem_nil

end Definitions

section Citations

variable {g : Registry} {d : Document} {s : Schema} {x : String}

def Schema.Cites (s : Schema) (x : String) : Prop :=
  (s.ref ≠ "" ∧ s.ref = x) ∨ (Json.object s.defs).Refers x ∨
    (∃ v, s.items = some v ∧ v.Refers x) ∨
      (∃ fields, s.properties = some fields ∧ (Json.object fields).Refers x) ∨
        ∃ v, s.additional = some v ∧ v.Refers x

theorem refers_of_ite {c : Prop} [Decidable c] {fields : List (String × Json)}
    (h : (if c then Json.bool true else .object fields).Refers x) :
    (Json.object fields).Refers x := by
  split at h
  · cases h
  · exact h

theorem not_refers_array {items : List Json} (hitems : ∀ v ∈ items, ¬ v.Refers x) :
    ¬ (Json.array items).Refers x := by
  rintro (_ | _ | ⟨hmem, h⟩)
  exact hitems _ hmem h

theorem Schema.cites_of_refers (h : s.toJson.Refers x) : s.Cites x := by
  cases refers_of_ite h with
  | here hmem =>
      have href : ¬ s.ref = "" ∧ x = s.ref := by simpa using hmem
      exact .inl ⟨href.1, href.2.symm⟩
  | field hmem hv =>
      simp only [List.mem_append, List.mem_ite_nil_left, List.mem_singleton, Option.mem_toList,
        Option.map_map, Option.map_eq_some_iff, Function.comp, Prod.mk.injEq, or_assoc] at hmem
      -- One case for each part of a schema, in the order in which they are written.
      rcases hmem with ⟨-, -, rfl⟩ | ⟨-, -, rfl⟩ | ⟨-, -, rfl⟩ | ⟨v, hv', -, rfl⟩ |
        ⟨v, hv', -, rfl⟩ | ⟨v, hv', -, rfl⟩ | ⟨-, -, rfl⟩ | ⟨-, -, rfl⟩ | ⟨-, -, rfl⟩ | ⟨-, -, rfl⟩
      · cases hv
      · cases hv
      · exact .inr (.inl hv)
      · exact .inr (.inr (.inl ⟨v, hv', hv⟩))
      · exact .inr (.inr (.inr (.inl ⟨v, hv', hv⟩)))
      · exact .inr (.inr (.inr (.inr ⟨v, hv', hv⟩)))
      · cases hv
      · refine absurd hv (not_refers_array ?_)
        intro v hv
        obtain ⟨n, -, rfl⟩ := List.mem_map.mp hv
        intro hrefers
        cases hrefers
      · refine absurd hv (not_refers_array ?_)
        intro v hv
        obtain ⟨n, -, rfl⟩ := List.mem_map.mp hv
        intro hrefers
        cases hrefers
      · cases hv

theorem Schema.toJson_ne_string (s : Schema) (text : String) : s.toJson ≠ .string text := by
  have hobject : ∀ {c : Prop} [Decidable c] {fields : List (String × Json)},
      (if c then Json.bool true else .object fields) ≠ .string text := by
    intro c _ fields
    split <;> nofun
  unfold toJson
  exact hobject

/-- An object of schemas refers to what one of them refers to. -/
theorem refers_of_object {fields : List (String × Json)} (h : (Json.object fields).Refers x)
    (hfields : ∀ p ∈ fields, ∃ s : Schema, p.2 = s.toJson) :
    ∃ p ∈ fields, p.2.Refers x := by
  cases h with
  | here hmem =>
      obtain ⟨s, hs⟩ := hfields _ hmem
      exact absurd hs.symm (s.toJson_ne_string x)
  | field hmem hv => exact ⟨_, hmem, hv⟩

theorem not_refers_nil : ¬ (Json.object []).Refers x := by
  rintro (hmem | hmem) <;> cases hmem

theorem scalarSchema_eq (i64 name : String) :
    scalarSchema i64 name = { type := (scalarSchema i64 name).type } := by
  unfold scalarSchema
  split <;> rfl

/-- Whether a name of a document is the one that a reference is made of. -/
def Cited (g : Registry) (d : Document) (x : String) : Prop :=
  ∃ name r, g.symbols.resolver d name = some r ∧ x = "#/$defs/" ++ r.name

theorem cited_of_typeSchema {t : FieldType} (h : (typeSchema g d t).Cites x) : Cited g d x := by
  have hplain : ∀ type, ¬ ({ type } : Schema).Cites x := by
    simp [Schema.Cites, not_refers_nil]
  induction t with
  | void =>
      unfold typeSchema at h
      exact absurd h (hplain "null")
  | base name =>
      unfold typeSchema at h
      rw [scalarSchema_eq] at h
      exact absurd h (hplain _)
  | identifier name =>
      unfold typeSchema at h
      split at h
      · rename_i r hr
        have hx : "#/$defs/" ++ r.name = x := by
          simpa [Schema.Cites, not_refers_nil] using h
        exact ⟨name, r, hr, hx.symm⟩
      · exact absurd h (hplain "")
  | list e ih =>
      have he : (typeSchema g d e).toJson.Refers x := by
        simpa [typeSchema, Schema.Cites, not_refers_nil] using h
      exact ih (Schema.cites_of_refers he)
  | set e ih =>
      have he : (typeSchema g d e).toJson.Refers x := by
        simpa [typeSchema, Schema.Cites, not_refers_nil] using h
      exact ih (Schema.cites_of_refers he)
  | map k v _ ih =>
      have hv : (typeSchema g d v).toJson.Refers x := by
        simpa [typeSchema, Schema.Cites, not_refers_nil] using h
      exact ih (Schema.cites_of_refers hv)
  | other kind name =>
      unfold typeSchema at h
      exact absurd h (hplain "")

theorem cited_of_definition? {st : Statement} (hs : definition? g d st = some s)
    (h : s.Cites x) : Cited g d x := by
  cases st with
  | service _ => cases hs
  | const _ => cases hs
  | enum e =>
      obtain rfl := Option.some.inj hs
      exact absurd h (by simp [Schema.Cites, not_refers_nil])
  | typedef t =>
      obtain rfl := Option.some.inj hs
      have htype : (typeSchema g d t.type).Cites x := h
      exact cited_of_typeSchema htype
  | struct st =>
      obtain rfl := Option.some.inj hs
      have hproperties : (Json.object (Table.ofList
          (st.fields.map fun f => (f.name, (fieldSchema g d f).toJson)))).Refers x := by
        simpa [Schema.Cites, not_refers_nil] using h
      have hfield : ∀ p ∈ Table.ofList
          (st.fields.map fun f => (f.name, (fieldSchema g d f).toJson)),
          ∃ f, p.2 = (fieldSchema g d f).toJson := by
        rintro ⟨key, v⟩ hp
        obtain ⟨f, -, heq⟩ := List.mem_map.mp (Table.mem_of_mem_ofList hp)
        exact ⟨f, (Prod.mk.inj heq).2.symm⟩
      obtain ⟨p, hp, hrefers⟩ := refers_of_object hproperties fun p hp => by
        obtain ⟨f, hf⟩ := hfield p hp
        exact ⟨fieldSchema g d f, hf⟩
      obtain ⟨f, hf⟩ := hfield p hp
      rw [hf] at hrefers
      have hcites : (fieldSchema g d f).Cites x := Schema.cites_of_refers hrefers
      have htype : (typeSchema g d f.type).Cites x := hcites
      exact cited_of_typeSchema htype

/-- The schema of some documents, before it is laid out as a text. -/
def schemaJson (g : Registry) (docs : List Document) : Json :=
  ({ version := schemaVersion, defs := (definitions g docs).sorted } : Schema).toJson

theorem cited_of_schemaJson {docs : List Document} (h : (schemaJson g docs).Refers x) :
    ∃ d ∈ docs, Cited g d x := by
  have hdefs : (Json.object (definitions g docs).sorted).Refers x := by
    simpa [Schema.Cites, not_refers_nil] using Schema.cites_of_refers h
  obtain ⟨hentries, -⟩ := mem_definitions g docs
  have hsorted : ∀ p ∈ (definitions g docs).sorted, ∃ d ∈ docs, ∃ st s,
      definition? g d st = some s ∧ p.2 = s.toJson :=
    fun p hp => hentries p ((Table.sorted_perm _).mem_iff.mp hp)
  obtain ⟨p, hp, hrefers⟩ := refers_of_object hdefs fun p hp => by
    obtain ⟨d, -, st, s, -, heq⟩ := hsorted p hp
    exact ⟨s, heq⟩
  obtain ⟨d, hd, st, s, hs, heq⟩ := hsorted p hp
  rw [heq] at hrefers
  exact ⟨d, hd, cited_of_definition? hs (Schema.cites_of_refers hrefers)⟩

theorem defines_schemaJson {docs : List Document} (h : x ∈ (definitions g docs).keys) :
    (schemaJson g docs).Defines x := by
  have hkey : x ∈ (definitions g docs).sorted.map (·.1) :=
    ((Table.sorted_perm _).map (·.1)).mem_iff.mpr h
  have hne : (definitions g docs).sorted ≠ [] := by
    intro hnil
    rw [hnil] at hkey
    cases hkey
  refine ⟨(definitions g docs).sorted, ?_, hkey⟩
  simp [schemaJson, Schema.toJson, schemaVersion, hne, Json.field?]

end Citations

/-! ## Runs -/

theorem Rendered.keyed {o : Options} {origin : Origin} (R : Rendered o origin) :
    R.job.registry.symbols.Keyed :=
  Symbols.keyed_ofDocs _

/-- What the modules of an entry refer to. For every run without plugins that succeeds,
wherever it reads and writes, and every entry: the types module holds declarations of
documents of the scope, and whatever a name means in such a document is declared in it;
and each reference of the schema is to what some name means there and is defined in the
schema. The only exceptions are names that are declared out of the scope: in Protobuf, or
behind a path from the root that is taken for one from the directory of the including
file. -/
theorem generate_references {σ : Type} (o : Options) (origin : Origin) (sink : Sink σ) (s : σ)
    (written : Written) (hplugins : o.plugins = [])
    (h : (generate o origin (some sink) s).result = .ok written) :
    ∃ R : Rendered o origin, written = .ofFiles R.output ∧ ∀ e ∈ R.entries, ∃ d,
      R.job.docs.find? e.path = some d ∧
      let scope := reachable R.job.docs d
      let symbols := R.job.registry.symbols
      (∃ ds, (Module.path o (.types e d), Declaration.renderAll ds) ∈ R.files ∧
        (∀ x ∈ ds, ∃ D ∈ scope, ∃ st ∈ D.statements,
          declarationOf R.job.registry R.job.style D st = .ok (some x)) ∧
        ∀ D ∈ scope, ∀ name r, symbols.resolver D name = some r →
          r.name ∈ ds.map declaredName ∨ Escapes symbols scope D name) ∧
      (o.schema = true → ∃ j : Json,
        (Module.path o (.schema e d), (j.layout .escaped).indented "" "  " ++ "\n") ∈ R.files ∧
        ∀ x, j.Refers x → ∃ D ∈ scope, ∃ name r, symbols.resolver D name = some r ∧
          x = "#/$defs/" ++ r.name ∧ (j.Defines r.name ∨ Escapes symbols scope D name)) := by
  obtain ⟨R, hwritten, -⟩ := renders_of_generate hplugins h
  refine ⟨R, hwritten, fun e he => ?_⟩
  obtain ⟨d, hd⟩ := R.found e he
  have hkeyed := R.keyed
  have hpath : R.job.docs.find? d.path = some d := hkeyed.find?_path hd
  have hmodules : ∀ m ∈ entryModules o e d, m ∈ R.modules := fun m hm =>
    List.mem_append_left _ (List.mem_flatMap.mpr ⟨e, he, Job.mem_modulesAt.mpr ⟨d, hd, hm⟩⟩)
  refine ⟨d, hd, ?_, ?_⟩
  · obtain ⟨text, hfile, ds, hds, rfl⟩ :=
      R.exists_file (hmodules (.types e d) (mem_entryModules.mpr (.inl rfl)))
    refine ⟨ds, hfile, fun x hx => ?_, fun D hD name r hr => ?_⟩
    · have hfrom := declarationOf_of_mem hds x hx
      exact (exists_mem_statementsOf fun D st =>
        declarationOf R.job.registry R.job.style D st = .ok (some x)).mp hfrom
    rcases declared_or_escapes hkeyed hpath hD hr with ⟨T, hT, st, hst, htype, hname⟩ | hescapes
    · exact .inl ((mem_typeDeclarations hds r.name).mpr
        ⟨T, hT, st, hst, declaresType_of_isType htype, hname⟩)
    · exact .inr hescapes
  · intro hschema
    obtain ⟨text, hfile, rfl⟩ :=
      R.exists_file (hmodules (.schema e d) (mem_entryModules.mpr (.inr (.inl ⟨hschema, rfl⟩))))
    refine ⟨schemaJson R.job.registry (reachable R.job.docs d), hfile, fun x hx => ?_⟩
    obtain ⟨D, hD, name, r, hr, rfl⟩ := cited_of_schemaJson hx
    refine ⟨D, hD, name, r, hr, rfl, ?_⟩
    obtain ⟨-, hkeys⟩ := mem_definitions R.job.registry (reachable R.job.docs d)
    rcases declared_or_escapes hkeyed hpath hD hr with hdeclared | hescapes
    · exact .inl (defines_schemaJson ((hkeys r.name).mpr hdeclared))
    · exact .inr hescapes

def includedType : List (String × String) :=
  [("a.thrift", "include 'b.thrift'\nstruct A \x7b 1: b.B b \x7d"),
    ("b.thrift", "struct B \x7b\x7d")]

theorem generate_references_includedType :
    let o : Options := { entries := [("a", "a.thrift")], schema := true }
    ∃ written, (generate o (.ofFiles includedType) (some .memories) [{}]).result = .ok written ∧
      ∃ R : Rendered o (.ofFiles includedType), ∃ d, R.job.docs.find? "/a.thrift" = some d ∧
        (R.job.registry.symbols.resolver d "b.B").map (·.name) = some "B" ∧
        ∃ ds, ("a/types.ts", Declaration.renderAll ds) ∈ R.files ∧
          "B" ∈ ds.map declaredName := by
  intro o
  obtain ⟨written, hwritten⟩ : ∃ written,
      (generate o (.ofFiles includedType) (some .memories) [{}]).result = .ok written :=
    generates_memories rfl rfl rfl (by decide +kernel)
  obtain ⟨R, -, hentries⟩ :=
    generate_references o (.ofFiles includedType) .memories [{}] written rfl hwritten
  have hresolved : R.entries = [⟨"a", "/a.thrift"⟩] :=
    Except.ok.inj (R.resolved.symm.trans (Source.ok_of_toOption (by decide +kernel)))
  obtain ⟨d, hd, ⟨ds, hfile, -, hdeclared⟩, -⟩ :=
    hentries ⟨"a", "/a.thrift"⟩ (by simp [hresolved])
  have hsymbols : R.job.registry.symbols =
      Symbols.ofDocs ((loadedFrom includedType ["/a.thrift"]).map Plugin.includesOf) := by
    have hloaded := R.loaded_eq rfl
    rw [hresolved] at hloaded
    exact congrArg (fun docs => Symbols.ofDocs (docs.map Plugin.includesOf)) hloaded
  have hd : R.job.registry.symbols.docs.find? "/a.thrift" = some d := hd
  have hfacts : (R.job.registry.symbols.docs.find? "/a.thrift").map (fun d =>
      ((R.job.registry.symbols.resolver d "b.B").map (·.name), d.dialect,
        d.includes.any Path.isRooted)) = some (some "B", .thrift, false) := by
    rw [hsymbols]
    decide +kernel
  rw [hd] at hfacts
  obtain ⟨hname, hrest⟩ := Prod.mk.inj (Option.some.inj hfacts)
  obtain ⟨hdialect, hincludes⟩ := Prod.mk.inj hrest
  obtain ⟨r, hr, hB⟩ := Option.map_eq_some_iff.mp hname
  have hfound := R.keyed.find?_path hd
  have hscope : d ∈ reachable R.job.docs d :=
    (mem_reachable_iff (List.mem_map_of_mem (Table.mem_of_find? hfound))).mpr
      ⟨d.path, .refl, hfound⟩
  rcases hdeclared d hscope "b.B" r hr with hin | ⟨st, T, -, -, hproto | ⟨path, hpath, hrooted, -⟩⟩
  · rw [hB] at hin
    have hpath : Module.path o (.types ⟨"a", "/a.thrift"⟩ d) = "a/types.ts" := by
      have hjoin : Path.join ["", "a", "types.ts"] = "a/types.ts" := by decide
      exact hjoin
    rw [hpath] at hfile
    exact ⟨written, hwritten, R, d, hd, hname, ds, hfile, hin⟩
  · cases hdialect.symm.trans hproto
  · exact absurd hrooted (List.any_eq_false.mp hincludes path hpath)

/-- Two files of one package, neither of which imports the other. -/
def twoProtos : List (String × String) :=
  [("a.proto", "package p; message A \x7b B b = 1; \x7d"),
    ("b.proto", "package p; message B \x7b\x7d")]

def protoSymbols : Symbols :=
  Symbols.ofDocs ((loadedFrom twoProtos ["/a.proto", "/b.proto"]).map Plugin.includesOf)

def fieldTypeNames : Statement → List String
  | .struct s => s.fields.filterMap fun f =>
      match f.type with
      | .identifier name => some name
      | _ => none
  | _ => []

/-- The type of a field is found in a document of its package that the scope, and so
the types module, does not hold. -/
theorem reference_out_of_scope :
    ∃ d, protoSymbols.docs.find? "/a.proto" = some d ∧
      d.statements.flatMap fieldTypeNames = ["B"] ∧
      (protoSymbols.resolver d "B").map (·.name) = some "B" ∧
      (statementsOf (reachable protoSymbols.docs d)).map (·.2.name) = ["A"] := by
  have hsorted : protoSymbols.docs.sorted = protoSymbols.docs := by
    apply List.mergeSort_of_pairwise
    decide +kernel
  have hfacts : (protoSymbols.docs.find? "/a.proto").map (fun d =>
      (d.statements.flatMap fieldTypeNames,
        (statementsOf (reachable protoSymbols.docs d)).map (·.2.name))) = some (["B"], ["A"]) := by
    decide +kernel
  have hsearch : ((protoSymbols.docs.find? "/a.proto").bind fun d =>
      protoSymbols.resolve? d "B").map (fun p => (p.1.kind, p.1.name)) =
      some ("StructDefinition", "B") := by
    simp only [Symbols.resolve?, Symbols.packageSearch?, hsorted]
    decide +kernel
  obtain ⟨d, hd, heq⟩ := Option.map_eq_some_iff.mp hfacts
  obtain ⟨hnames, hscope⟩ := Prod.mk.inj heq
  rw [hd, Option.bind_some] at hsearch
  obtain ⟨⟨st, T⟩, hresolve, hst⟩ := Option.map_eq_some_iff.mp hsearch
  obtain ⟨hkind, hname⟩ := Prod.mk.inj hst
  refine ⟨d, hd, hnames, ?_, hscope⟩
  cases st with
  | struct x =>
      have hx : x.name = "B" := hname
      rw [Symbols.resolver_struct hresolve, Option.map_some, hx]
  | service x => simp [Statement.kind] at hkind
  | enum x => simp [Statement.kind] at hkind
  | typedef x => simp [Statement.kind] at hkind
  | const x => simp [Statement.kind] at hkind

end Generate
end ClientGen
