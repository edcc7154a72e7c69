import ClientGen.Proofs.Generate.Sampling
import Mathlib

/-! # How deep samples go

A sample has the form of the type that it is of: a record stands where a structure is named
and has some of its fields, in order and each once. No more records are nested in one another
than the greatest depth says, whatever the fields lead through (`methodSamples_depicts`).
-/

namespace ClientGen

/-! ## Nested records -/

namespace Value

mutual

/-- How many records of a value are nested in one another, at most. -/
def nesting : Value → Nat
  | record fields => nestingOfFields fields + 1
  | list items => nestingOfItems items
  | map entries => nestingOfFields entries
  | null => 0
  | bool _ => 0
  | int _ => 0
  | float _ => 0
  | string _ => 0

def nestingOfItems : List Value → Nat
  | [] => 0
  | v :: vs => max v.nesting (nestingOfItems vs)

def nestingOfFields : List (String × Value) → Nat
  | [] => 0
  | (_, v) :: rest => max v.nesting (nestingOfFields rest)

end

theorem nestingOfFields_le {fields : List (String × Value)} {n : Nat} :
    nestingOfFields fields ≤ n ↔ ∀ entry ∈ fields, entry.2.nesting ≤ n := by
  induction fields with
  | nil => simp [nestingOfFields]
  | cons entry rest ih => simp [nestingOfFields, ih]

theorem nesting_list_singleton (v : Value) : (list [v]).nesting = v.nesting :=
  Nat.max_zero v.nesting

mutual

/-- No constant is a record. -/
theorem nesting_ofConst : (c : Const) → (ofConst c).nesting = 0
  | .absent => rfl
  | .scalar kind text => by
      cases kind with
      | int =>
          unfold ofConst
          split <;> rfl
      | double =>
          unfold ofConst
          split <;> rfl
      | string => rfl
      | bool => rfl
      | identifier => rfl
      | other name => rfl
  | .list items => nesting_ofConstItems items
  | .map pairs => by
      refine Nat.le_zero.mp (nestingOfFields_le.mpr fun entry hentry => ?_)
      have hgiven := Table.mem_of_mem_ofList ((Table.sorted_perm _).mem_iff.mp hentry)
      exact nestingOfFields_le.mp (Nat.le_of_eq (nesting_ofConstPairs pairs)) entry hgiven

theorem nesting_ofConstItems : (items : List Const) → nestingOfItems (ofConstItems items) = 0
  | [] => rfl
  | c :: cs => by
      rw [ofConstItems, nestingOfItems, nesting_ofConst c, nesting_ofConstItems cs]
      rfl

theorem nesting_ofConstPairs :
    (pairs : List (Const × Const)) → nestingOfFields (ofConstPairs pairs) = 0
  | [] => rfl
  | (k, v) :: rest => by
      rw [ofConstPairs, nestingOfFields, nesting_ofConst v, nesting_ofConstPairs rest]
      rfl

end

end Value

namespace Mock

theorem nesting_numberAs (type : String) (n : Nat) : (numberAs type n).nesting = 0 := by
  unfold numberAs
  split <;> rfl

theorem nesting_meaning (type : String) (seed : Nat) (m : Meaning) :
    (m.sample type seed).nesting = 0 := by
  cases m with
  | id => exact nesting_numberAs type _
  | email => rfl
  | time => exact nesting_numberAs type _
  | status => exact nesting_numberAs type _

theorem nesting_typeSample (type scalar name : String) (seed : Nat) :
    (typeSample type scalar name seed).nesting = 0 := by
  unfold typeSample
  repeat' split
  all_goals rfl

/-- The sample of a scalar is no record. -/
theorem nesting_sample (owner : String) (f : Field) (types : Typescript.Mapper) :
    (sample owner f types).nesting = 0 := by
  unfold sample
  split
  · split
    · unfold scalarSample
      dsimp only
      split
      · exact nesting_meaning _ _ _
      · exact nesting_typeSample _ _ _ _
      · exact Value.nesting_ofConst _
    · rfl
  · rfl

end Mock

/-! ## The form of a sample -/

/-- Whether a value has the form of a sample of a type, as a document sees the type. A record
stands for a structure that is named: its keys are names of fields of the structure, in their
order and each once, and what is under a key has the form of such a field. -/
inductive Depicts (s : Symbols) : Document → FieldType → Value → Prop where
  | plain {d : Document} {t : FieldType} {v : Value} (hflat : v.nesting = 0) : Depicts s d t v
  | list {d : Document} {e : FieldType} {v : Value} (hitem : Depicts s d e v) :
      Depicts s d (.list e) (.list [v])
  | set {d : Document} {e : FieldType} {v : Value} (hitem : Depicts s d e v) :
      Depicts s d (.set e) (.list [v])
  | typedef {d decl : Document} {name : String} {t : Typedef} {v : Value}
      (hresolves : s.resolve? d name = some (.typedef t, decl)) (hmeant : Depicts s decl t.type v) :
      Depicts s d (.identifier name) v
  | struct {d decl : Document} {name : String} {st : Struct} {fields : List (String × Value)}
      (hresolves : s.resolve? d name = some (.struct st, decl))
      (hkeys : (fields.map (·.1)).Sublist (st.fields.map (·.name)))
      (honce : (fields.map (·.1)).Nodup)
      (source : String × Value → Field)
      (hdeclared : ∀ entry ∈ fields, source entry ∈ st.fields ∧ (source entry).name = entry.1)
      (hparts : ∀ entry ∈ fields, Depicts s decl (source entry).type entry.2) :
      Depicts s d (.identifier name) (.record fields)

namespace Generate

open Pipeline

namespace Sampler

variable {P : Field → Value → Prop} {fields : List Field} {t t' : Table Value}

theorem keys_hold_sublist {name : String} {v : Value} {before : List String}
    (h : t.keys.Sublist before) : (hold t name v).keys.Sublist (before ++ [name]) := by
  have hthere : t.keys.Sublist (before ++ [name]) := h.trans (List.sublist_append_left _ _)
  cases v with
  | null => exact hthere
  | _ =>
      unfold Sampler.hold
      rw [Table.keys_insert]
      split
      · exact hthere
      · exact h.append (List.Sublist.refl _)

theorem nodup_keys_hold {name : String} {v : Value} (h : t.keys.Nodup) :
    (hold t name v).keys.Nodup := by
  cases v with
  | null => exact h
  | _ => exact Table.nodup_keys_insert h

/-- The keys of a collected table follow the fields. -/
theorem Collected.keys_sublist (h : Collected P fields t t') {before : List String}
    (ht : t.keys.Sublist before) : t'.keys.Sublist (before ++ fields.map (·.name)) := by
  induction h generalizing before with
  | done t => exact ht.trans (List.sublist_append_left _ _)
  | field hsample hmore ih => simpa using ih (keys_hold_sublist ht)

theorem Collected.nodup_keys (h : Collected P fields t t') (ht : t.keys.Nodup) :
    t'.keys.Nodup := by
  induction h with
  | done t => exact ht
  | field hsample hmore ih => exact ih (nodup_keys_hold ht)

/-- Each entry of a collected table was there or is the sample of a field. -/
theorem Collected.source (h : Collected P fields t t') :
    ∀ entry ∈ t', entry ∈ t ∨ ∃ f ∈ fields, f.name = entry.1 ∧ P f entry.2 := by
  induction h with
  | done t => exact fun entry hentry => .inl hentry
  | @field f v rest t t' hfirst hmore ih =>
      intro entry hentry
      rcases ih entry hentry with hthere | ⟨f', hf', hsample⟩
      · rcases mem_of_mem_hold hthere with rfl | hthere
        · exact .inr ⟨f, List.mem_cons_self, rfl, hfirst⟩
        · exact .inl hthere
      · exact .inr ⟨f', List.mem_cons_of_mem _ hf', hsample⟩

/-- A sample of a type at a depth: it has the form of the type, and its records nest no deeper
than `levels` more. -/
def Fits (s : Symbols) (levels : Nat) (d : Document) (type : FieldType) (v : Value) : Prop :=
  v.nesting ≤ levels ∧ Depicts s d type v

theorem Fits.plain {s : Symbols} {levels : Nat} {d : Document} {type : FieldType} {v : Value}
    (h : v.nesting = 0) : Fits s levels d type v :=
  ⟨h ▸ Nat.zero_le levels, .plain h⟩

/-- A list of one sample nests as deep as the sample. -/
theorem nesting_listOf (v : Value) : (listOf v).nesting = v.nesting := by
  unfold listOf
  split
  · rfl
  · exact Value.nesting_list_singleton v

theorem depicts_listOf {s : Symbols} {d : Document} {e type : FieldType} {v : Value}
    (hitem : Depicts s d e v) (h : Depicts s d e v → Depicts s d type (.list [v])) :
    Depicts s d type (listOf v) := by
  unfold listOf
  split
  · exact .plain rfl
  · exact h hitem

/-- The record of a structure: one level above the samples of its fields. -/
theorem Collected.depicts {s : Symbols} {levels : Nat} {D decl : Document} {name : String}
    {st : Struct} {t : Table Value}
    (h : Collected (fun f v => Fits s levels decl f.type v) st.fields [] t)
    (hresolve : s.resolve? D name = some (.struct st, decl)) :
    Depicts s D (.identifier name) (.record t) := by
  have hsource : ∀ entry ∈ t, ∃ f ∈ st.fields,
      f.name = entry.1 ∧ Fits s levels decl f.type entry.2 :=
    fun entry hentry => (h.source entry hentry).resolve_left nofun
  choose! source hmem hname hfits using hsource
  exact .struct hresolve (h.keys_sublist (List.Sublist.refl [])) (h.nodup_keys List.nodup_nil)
    source (fun entry hentry => ⟨hmem entry hentry, hname entry hentry⟩)
    fun entry hentry => (hfits entry hentry).2

variable {s : Sampler}

/-- What is left of the depth bounds the nesting: a structure takes one level, and everything
else passes on what it was given. -/
theorem account_fits (s : Sampler) : s.Account
    (fun d st depth v => v.nesting ≤ s.maxDepth - depth ∧
      ∀ D name, s.symbols.resolve? D name = some (.struct st, d) →
        Depicts s.symbols D (.identifier name) v)
    (fun d f depth v => Fits s.symbols (s.maxDepth - (depth + 1)) d f.type v)
    fun d t depth v => Fits s.symbols (s.maxDepth - (depth + 1)) d t v where
  deep _ := ⟨Nat.zero_le _, fun _ _ _ => .plain rfl⟩
  record {d st depth fields} hdepth hfields := by
    refine ⟨?_, fun D name hresolve => hfields.depicts hresolve⟩
    have hparts : Value.nestingOfFields fields ≤ s.maxDepth - (depth + 1) := by
      refine Value.nestingOfFields_le.mpr fun entry hentry => ?_
      obtain ⟨f, -, -, hfits⟩ := (hfields.source entry hentry).resolve_left nofun
      exact hfits.1
    rw [Value.nesting]
    omega
  void _ := .plain rfl
  scalar _ hv := by
    rcases hv with rfl | ⟨owner, types, rfl⟩
    · exact .plain rfl
    · exact .plain (Mock.nesting_sample _ _ _)
  default _ := .plain (Value.nesting_ofConst _)
  made _ hv := hv
  list hv := ⟨Nat.le_trans (Nat.le_of_eq (nesting_listOf _)) hv.1, depicts_listOf hv.2 .list⟩
  set hv := ⟨Nat.le_trans (Nat.le_of_eq (nesting_listOf _)) hv.1, depicts_listOf hv.2 .set⟩
  map := .plain rfl
  struct hresolve hv := ⟨hv.1, hv.2 _ _ hresolve⟩
  enum _ := .plain rfl
  typedef hresolve hv := ⟨hv.1, .typedef hresolve hv.2⟩
  nothing _ := .plain rfl

/-- What the samples of a service look like, where sampling without plugins comes to an end:
each has the form of what its function returns, with records that hold fields of their
structures, in order and each once, and at most as many records are nested in one another as
the greatest depth says. -/
theorem methodSamples_depicts (docs : List Document) (n : Nat) (keys mock : Bool) (d : Document)
    (service : Service) (methods : List Typescript.Method) (r : Run)
    (x : After (List (String × Value)))
    (h : ({ bus := builtinBus keys mock, symbols := .ofDocs docs, maxDepth := n } :
      Sampler).methodSamples d service methods r = some x) :
    ∃ samples, x = (.ok samples, r) ∧ ∀ sample ∈ samples, ∃ f,
      function? service sample.1 = some f ∧ Depicts (.ofDocs docs) d f.returns sample.2 ∧
        sample.2.nesting ≤ n := by
  obtain ⟨samples, rfl, hsamples⟩ := (account_fits _).holds_methodSamples rfl h
  refine ⟨samples, rfl, fun sample hsample => ?_⟩
  obtain ⟨f, hfunction, hresult⟩ := hsamples sample hsample
  refine ⟨f, hfunction, ?_⟩
  cases hresult with
  | struct hnames hresolves hv =>
      rw [hnames]
      exact ⟨hv.2 d _ hresolves, hv.1⟩
  | other hv => exact ⟨hv.2, Nat.le_trans hv.1 (Nat.sub_le _ _)⟩

/-! A structure that holds itself, alone, in a list and behind a type name. -/

def treeFile : Document :=
  { path := "/tree.thrift", dialect := .thrift,
    statements := [
      .typedef { name := "Trees", type := .list (.identifier "Tree") },
      .struct { name := "Tree", fields := [
        { name := "next", type := .identifier "Tree" },
        { name := "all", type := .identifier "Trees" }] }] }

def treeService : Service :=
  { name := "Forest", functions := [{ name := "get", returns := .identifier "Tree" }] }

def treeSampler : Sampler :=
  { bus := builtinBus false true, symbols := .ofDocs [treeFile], maxDepth := 2 }

/-- The sample of a tree, two records deep both ways. -/
def treeSample : Value :=
  .record [("next", .record [("all", .list [])]), ("all", .list [.record [("all", .list [])]])]

theorem methodSamples_depicts_tree :
    treeSampler.methodSamples treeFile treeService [{ name := "get" }] {} =
        some (.ok [("get", treeSample)], {}) ∧
      Depicts treeSampler.symbols treeFile (.identifier "Tree") treeSample ∧
      treeSample.nesting ≤ 2 := by
  have hreturns : treeSampler.methodSamples treeFile treeService [{ name := "get" }] {} =
      some (.ok [("get", treeSample)], {}) := by cbv
  obtain ⟨samples, hx, hall⟩ :=
    methodSamples_depicts [treeFile] 2 false true treeFile treeService [{ name := "get" }] {} _
      hreturns
  obtain rfl : [("get", treeSample)] = samples := Except.ok.inj (Prod.mk.inj hx).1
  obtain ⟨f, hfunction, hdepicts, hnesting⟩ := hall _ List.mem_cons_self
  obtain rfl : { name := "get", returns := .identifier "Tree" } = f := Option.some.inj hfunction
  exact ⟨hreturns, hdepicts, hnesting⟩

end Sampler

end Generate
end ClientGen
