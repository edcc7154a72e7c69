import ClientGen.Proofs.Document.Aliases
import ClientGen.Proofs.Generate.Depth
import Mathlib.Data.Set.Finite.List
import Mathlib.Data.Fintype.Card

/-! # When sampling comes to an end

Structures take one level of the depth, but from a list to its element, and from a type name
to what it stands for, sampling goes on at the same depth. So it comes to an end exactly if
this does: if no type unfolds to itself (`methodSamples_ends_iff`). A type name for lists of
itself is a chain of no plain names, and has no sample (`endless_list`).
-/

namespace ClientGen

open Relation (TransGen ReflTransGen)

namespace Symbols

variable {s : Symbols} {docs : List Document} {d decl : Document} {t : FieldType}

/-! ## Unfolding types -/

/-- From a type every sequence of unfoldings comes to an end. -/
abbrev Settles (s : Symbols) (x : Document × FieldType) : Prop := Acc (fun y x => s.Unfolds x y) x

theorem Settles.not_cycle {x : Document × FieldType} (h : s.Settles x) :
    ¬ TransGen s.Unfolds x x := by
  induction h with
  | intro x _ ih =>
      intro hcycle
      obtain ⟨y, hstep, hback⟩ := TransGen.head'_iff.mp hcycle
      exact ih y hstep (TransGen.tail' hback hstep)

theorem settles_list (h : s.Settles (d, t)) : s.Settles (d, .list t) :=
  .intro _ fun y hstep => by
    cases hstep
    exact h

theorem settles_set (h : s.Settles (d, t)) : s.Settles (d, .set t) :=
  .intro _ fun y hstep => by
    cases hstep
    exact h

theorem settles_identifier {name : String}
    (h : ∀ a decl, s.resolve? d name = some (.typedef a, decl) → s.Settles (decl, a.type)) :
    s.Settles (d, .identifier name) :=
  .intro _ fun y hstep => by
    cases hstep with
    | typedef hresolves hvoid hself => exact h _ _ hresolves

theorem settles_of_not_unfolds (h : ∀ y, ¬ s.Unfolds (d, t) y) : s.Settles (d, t) :=
  .intro _ fun y hstep => absurd hstep (h y)

theorem mem_of_find?_ofDocs {path : String} (h : (ofDocs docs).docs.find? path = some d) :
    d ∈ docs := by
  obtain ⟨d', hd', heq⟩ := List.mem_map.mp (Table.mem_of_mem_ofList (Table.mem_of_find? h))
  obtain ⟨-, rfl⟩ := Prod.mk.inj heq
  exact hd'

/-- Looking names up does not leave the documents. -/
theorem mem_of_resolve?_ofDocs {name : String} {st : Statement} (hd : d ∈ docs)
    (h : (ofDocs docs).resolve? d name = some (st, decl)) :
    decl ∈ docs ∧ ∃ holder ∈ docs, st ∈ holder.statements := by
  rcases sources_of_resolve? (keyed_ofDocs docs) h with ⟨rfl, holder, hfound, hst⟩ | ⟨hfound, hst⟩
  · exact ⟨hd, holder, mem_of_find?_ofDocs hfound, hst⟩
  · have hdecl := mem_of_find?_ofDocs hfound
    exact ⟨hdecl, decl, hdecl, hst⟩

/-- What the type names of some documents stand for, seen from each of them. -/
def meanings (docs : List Document) : List (Document × FieldType) :=
  docs.flatMap fun d => (docs.flatMap Document.statements).filterMap fun
    | .typedef a => some (d, a.type)
    | _ => none

theorem mem_meanings {name : String} {a : Typedef} (hd : d ∈ docs)
    (h : (ofDocs docs).resolve? d name = some (.typedef a, decl)) :
    (decl, a.type) ∈ meanings docs := by
  obtain ⟨hdecl, holder, hholder, ha⟩ := mem_of_resolve?_ofDocs hd h
  refine List.mem_flatMap.mpr ⟨decl, hdecl, List.mem_filterMap.mpr ⟨.typedef a, ?_, rfl⟩⟩
  exact List.mem_flatMap.mpr ⟨holder, hholder, ha⟩

/-- A type settles if the type names that it leads to stand for types that do. -/
theorem settles_of_meanings (hd : d ∈ docs) (t : FieldType)
    (h : ∀ y ∈ meanings docs, TransGen (ofDocs docs).Unfolds (d, t) y → (ofDocs docs).Settles y) :
    (ofDocs docs).Settles (d, t) := by
  induction t with
  | list e ih => exact settles_list (ih fun y hy hstep => h y hy (.head (.list d e) hstep))
  | set e ih => exact settles_set (ih fun y hy hstep => h y hy (.head (.set d e) hstep))
  | identifier name =>
      refine .intro _ fun y hstep => ?_
      cases hstep with
      | typedef hresolves hvoid hself =>
          exact h _ (mem_meanings hd hresolves) (.single (.typedef hresolves hvoid hself))
  | void => exact settles_of_not_unfolds nofun
  | base _ => exact settles_of_not_unfolds nofun
  | map _ _ _ _ => exact settles_of_not_unfolds nofun
  | other _ _ => exact settles_of_not_unfolds nofun

theorem fst_mem_of_mem_meanings {y : Document × FieldType} (h : y ∈ meanings docs) :
    y.1 ∈ docs := by
  obtain ⟨d, hd, h⟩ := List.mem_flatMap.mp h
  obtain ⟨st, -, hst⟩ := List.mem_filterMap.mp h
  cases st with
  | typedef a =>
      obtain rfl := Option.some.inj hst
      exact hd
  | service _ => cases hst
  | struct _ => cases hst
  | enum _ => cases hst
  | const _ => cases hst

/-- Seen from some documents no type unfolds to itself, be it through lists, sets or type
names. -/
def Grounded (docs : List Document) : Prop :=
  ∀ x, x.1 ∈ docs → ¬ TransGen (ofDocs docs).Unfolds x x

/-- Unfolding does not leave the documents. -/
theorem mem_of_unfolds {x y : Document × FieldType} (hx : x.1 ∈ docs)
    (h : (ofDocs docs).Unfolds x y) : y.1 ∈ docs := by
  cases h with
  | list d e => exact hx
  | set d e => exact hx
  | typedef hresolves hvoid hself => exact (mem_of_resolve?_ofDocs hx hresolves).1

/-- No type unfolds to itself if what types unfold to is smaller. -/
theorem grounded_of_lt (size : FieldType → Nat)
    (h : ∀ x y, x.1 ∈ docs → (ofDocs docs).Unfolds x y → size y.2 < size x.2) :
    Grounded docs := by
  intro x hx hcycle
  have hless : ∀ y, TransGen (ofDocs docs).Unfolds x y → y.1 ∈ docs ∧ size y.2 < size x.2 := by
    intro y hy
    induction hy with
    | single hstep => exact ⟨mem_of_unfolds hx hstep, h _ _ hx hstep⟩
    | tail _ hstep ih => exact ⟨mem_of_unfolds ih.1 hstep, (h _ _ ih.1 hstep).trans ih.2⟩
  exact Nat.lt_irrefl _ (hless x hcycle).2

/-- Without type names there are only lists and sets to unfold. -/
theorem grounded_of_no_typedef (h : ∀ d ∈ docs, ∀ a, .typedef a ∉ d.statements) :
    Grounded docs := by
  refine grounded_of_lt sizeOf fun x y hx hstep => ?_
  cases hstep with
  | list d e => simp
  | set d e => simp
  | typedef hresolves hvoid hself =>
      obtain ⟨-, holder, hholder, ha⟩ := mem_of_resolve?_ofDocs hx hresolves
      exact absurd ha (h holder hholder _)

/-- There are only so many meanings: where none leads back to itself, each settles. -/
theorem settles_of_grounded (hground : Grounded docs) (hd : d ∈ docs) (t : FieldType) :
    (ofDocs docs).Settles (d, t) := by
  -- Types are nested without bound, but what type names stand for is a finite set, and on it
  -- being led to is transitive and irreflexive.
  let later (y x : { x // x ∈ meanings docs }) : Prop := TransGen (ofDocs docs).Unfolds x.1 y.1
  have hfinite : Finite { x // x ∈ meanings docs } := List.finite_toSet _
  have htrans : IsTrans _ later := ⟨fun _ _ _ hyx hzy => hzy.trans hyx⟩
  have hirrefl : Std.Irrefl later :=
    ⟨fun x => hground x.1 (fst_mem_of_mem_meanings x.2)⟩
  have hwf : WellFounded later := Finite.wellFounded_of_trans_of_irrefl later
  have hmeanings : ∀ x : { x // x ∈ meanings docs }, (ofDocs docs).Settles x.1 := by
    intro x
    induction x using hwf.induction with
    | _ x ih =>
        exact settles_of_meanings (fst_mem_of_mem_meanings x.2) x.1.2
          fun y hy hstep => ih ⟨y, hy⟩ hstep
  exact settles_of_meanings hd t fun y hy _ => hmeanings ⟨y, hy⟩

end Symbols

namespace Generate

open Pipeline

/-- Work that may have no end comes to one, with a value, and leaves the run as it was. -/
def Ends {α : Type} (work : Run → Option (After α)) : Prop := ∀ r, ∃ a, work r = some (.ok a, r)

namespace Sampler

variable {s : Sampler} {keys mock : Bool} {docs : List Document} {d : Document}

/-! ## Sampling what settles -/

theorem ends_sampleFields {owner : String} {depth : Nat} {fields : List Field}
    (h : ∀ f ∈ fields, Ends (s.sampleField d owner f depth)) (done : Table Value) :
    Ends (s.sampleFields d owner depth fields done) := by
  intro r
  induction fields generalizing done with
  | nil =>
      rw [sampleFields.eq_def]
      exact ⟨done, rfl⟩
  | cons f rest ih =>
      have hrest := ih fun f' hf' => h f' (List.mem_cons_of_mem f hf')
      obtain ⟨v, hv⟩ := h f List.mem_cons_self r
      rw [sampleFields.eq_def]
      simp only [hv, Option.bind_eq_bind, Option.bind_some]
      exact hrest (hold done f.name v)

section Settling

variable (hbus : s.bus = builtinBus keys mock)
  (hdocs : ∀ D ∈ docs, ∀ name st decl, s.symbols.resolve? D name = some (st, decl) → decl ∈ docs)

include hbus

/-- Where the sample of a composite type comes to an end, so does that of a field of it. -/
theorem ends_sampleField {owner : String} {f : Field} {depth : Nat}
    (h : Ends (s.sampleType d owner f.name f.type depth)) :
    Ends (s.sampleField d owner f depth) := by
  intro r
  rw [sampleField.eq_def]
  split
  · exact ⟨.null, rfl⟩
  · obtain ⟨v, hv, -⟩ := answer_builtin hbus owner f depth .null r
    exact ⟨v, congrArg some hv⟩
  · rename_i _ _ hbase
    obtain ⟨v, hv⟩ := h r
    simp only [hv, Option.bind_eq_bind, Option.bind_some]
    exact ⟨v, congrArg some (answer_composite hbus owner hbase depth v r)⟩
  · rename_i _ hbase _
    exact ⟨_, congrArg some (answer_composite hbus owner hbase depth _ r)⟩

include hdocs

/-- Sampling a type that settles comes to an end if sampling structures one level deeper does. -/
theorem ends_of_settles {depth : Nat}
    (hstruct : ∀ D ∈ docs, ∀ st, Ends (s.sampleStruct D st (depth + 1)))
    {x : Document × FieldType} (hx : s.symbols.Settles x) (hd : x.1 ∈ docs) (owner name : String) :
    Ends (s.sampleType x.1 owner name x.2 depth) := by
  induction hx generalizing name with
  | intro x _ ih =>
      obtain ⟨d, t⟩ := x
      have hfield {D : Document} {type : FieldType} (hD : D ∈ docs)
          (hstep : s.symbols.Unfolds (d, t) (D, type)) :
          Ends (s.sampleField D owner { name, type } depth) :=
        ends_sampleField hbus (ih (D, type) hstep hD name)
      intro r
      rw [sampleType.eq_def]
      cases t with
      | list e =>
          obtain ⟨v, hv⟩ := hfield hd (.list d e) r
          simp only [hv, Option.bind_eq_bind, Option.bind_some]
          exact ⟨listOf v, rfl⟩
      | set e =>
          obtain ⟨v, hv⟩ := hfield hd (.set d e) r
          simp only [hv, Option.bind_eq_bind, Option.bind_some]
          exact ⟨listOf v, rfl⟩
      | map k e => exact ⟨_, rfl⟩
      | void => exact ⟨_, rfl⟩
      | base _ => exact ⟨_, rfl⟩
      | other _ _ => exact ⟨_, rfl⟩
      | identifier id =>
          dsimp only
          split
          · rename_i st decl hresolve
            exact hstruct decl (hdocs d hd _ _ _ hresolve) st r
          · exact ⟨_, rfl⟩
          · rename_i a decl hresolve
            split
            · exact ⟨.null, rfl⟩
            · rename_i hne
              obtain ⟨hvoid, hself⟩ := not_or.mp hne
              exact hfield (hdocs d hd _ _ _ hresolve) (.typedef hresolve hvoid hself) r
          · exact ⟨.null, rfl⟩

/-- Structures are sampled level by level, each with what is left of the depth. -/
theorem ends_sampleStruct (hsettles : ∀ D ∈ docs, ∀ t, s.symbols.Settles (D, t))
    (levels depth : Nat) (hlevels : s.maxDepth ≤ depth + levels) :
    ∀ D ∈ docs, ∀ st, Ends (s.sampleStruct D st depth) := by
  induction levels generalizing depth with
  | zero =>
      intro D _ st r
      have hdeep : depth ≥ s.maxDepth := hlevels
      rw [sampleStruct.eq_def, if_pos hdeep]
      exact ⟨.null, rfl⟩
  | succ levels ih =>
      intro D hD st r
      rw [sampleStruct.eq_def]
      split
      · exact ⟨.null, rfl⟩
      · -- The fields stay at this depth; only their structures are one level deeper.
        have hdeeper := ih (depth + 1) (by omega)
        have hfields : Ends (s.sampleFields D st.name depth st.fields []) :=
          ends_sampleFields (fun f _ => ends_sampleField hbus
            (ends_of_settles hbus hdocs hdeeper (hsettles D hD f.type) hD st.name f.name)) []
        obtain ⟨t, ht⟩ := hfields r
        simp only [ht, Option.bind_eq_bind, Option.bind_some]
        exact ⟨.record t, rfl⟩

theorem ends_sampleResult (hsettles : ∀ D ∈ docs, ∀ t, s.symbols.Settles (D, t)) (hd : d ∈ docs)
    (service method : String) (f : Function) : Ends (s.sampleResult d service method f) := by
  have hstruct := ends_sampleStruct hbus hdocs hsettles s.maxDepth
  have hother : Ends (s.sampleField d service { name := method, type := f.returns } 0) :=
    ends_sampleField hbus (ends_of_settles hbus hdocs (hstruct 1 (by omega))
      (hsettles d hd f.returns) hd service method)
  intro r
  unfold sampleResult
  dsimp only
  split
  · split
    · rename_i st decl hresolve
      exact hstruct 0 (by omega) decl (hdocs d hd _ _ _ hresolve) st r
    · exact hother r
  · exact hother r

end Settling

theorem ends_collectSamples {one : String → Run → Option (After Value)}
    (h : ∀ method, Ends (one method)) (methods : List Typescript.Method) :
    Ends (collectSamples one methods) := by
  intro r
  induction methods with
  | nil => exact ⟨[], rfl⟩
  | cons m rest ih =>
      obtain ⟨v, hv⟩ := h m.name r
      obtain ⟨samples, hsamples⟩ := ih
      unfold collectSamples
      simp only [hv, hsamples, Option.bind_eq_bind, Option.bind_some]
      exact ⟨prepend m.name samples v, rfl⟩

/-- Where no type unfolds to itself, the methods of every service of a document get their
samples. -/
theorem ends_methodSamples (hbus : s.bus = builtinBus keys mock)
    (hsymbols : s.symbols = .ofDocs docs) (hground : Symbols.Grounded docs) (hd : d ∈ docs)
    (service : Service) (methods : List Typescript.Method) :
    Ends (s.methodSamples d service methods) := by
  refine ends_collectSamples (fun method r => ?_) methods
  unfold sampleMethod
  split
  · split
    · exact ⟨.null, rfl⟩
    · refine ends_sampleResult hbus (fun D hD name st decl hresolve => ?_) (fun D hD t => ?_) hd _ _
        _ r
      · rw [hsymbols] at hresolve
        exact (Symbols.mem_of_resolve?_ofDocs hD hresolve).1
      · rw [hsymbols]
        exact Symbols.settles_of_grounded hground hD t
  · exact ⟨.null, rfl⟩

/-! ## Types that have no sample -/

/-- What has a sample settles. -/
theorem account_settles (s : Sampler) : s.Account (fun _ _ _ _ => True)
    (fun d f _ _ => f.default = .absent → s.symbols.Settles (d, f.type))
    fun d t _ _ => s.symbols.Settles (d, t) where
  deep _ := trivial
  record _ _ := trivial
  void hvoid _ := hvoid ▸ Symbols.settles_of_not_unfolds nofun
  scalar hbase _ _ := hbase ▸ Symbols.settles_of_not_unfolds nofun
  default hdefault habsent := absurd habsent hdefault
  made _ h _ := h
  list h := Symbols.settles_list (h rfl)
  set h := Symbols.settles_set (h rfl)
  map := Symbols.settles_of_not_unfolds nofun
  struct hresolve _ := Symbols.settles_identifier fun a decl htypedef => by
    simp [hresolve] at htypedef
  enum hresolve := Symbols.settles_identifier fun a decl htypedef => by
    simp [hresolve] at htypedef
  typedef hresolve h := Symbols.settles_identifier fun a decl htypedef => by
    obtain ⟨rfl, rfl⟩ : _ ∧ _ := by simpa using hresolve.symm.trans htypedef
    exact h rfl
  nothing h := Symbols.settles_of_not_unfolds h

/-- Where the methods of a service have samples, the results of their functions settle. -/
theorem settles_of_methodSamples (hbus : s.bus = builtinBus keys mock) {service : Service}
    {m : Typescript.Method} {rest : List Typescript.Method} {f : Function} {r : Run}
    {x : After (List (String × Value))} (hf : function? service m.name = some f)
    (hx : s.methodSamples d service (m :: rest) r = some x) : s.symbols.Settles (d, f.returns) := by
  by_cases hvoid : f.returns = .void
  · rw [hvoid]
    exact Symbols.settles_of_not_unfolds nofun
  obtain ⟨y, hone, -⟩ := Option.bind_eq_some_iff.mp hx
  simp only [sampleMethod, hf, if_neg hvoid] at hone
  obtain ⟨v, -, hresult⟩ := (account_settles s).holds_sampleResult hbus hone
  cases hresult with
  | struct hnames hresolves _ =>
      rw [hnames]
      refine Symbols.settles_identifier fun a decl htypedef => ?_
      simp [hresolves] at htypedef
  | other h => exact h rfl

/-- When sampling comes to an end. For any collected documents and any greatest depth, sampling
without plugins gives the methods of every service of a document their samples exactly if, seen
from these documents, no type unfolds to itself through lists, sets and type names. -/
theorem methodSamples_ends_iff (docs : List Document) (n : Nat) (keys mock : Bool) :
    (∀ d ∈ docs, ∀ service methods r, ∃ samples,
      ({ bus := builtinBus keys mock, symbols := .ofDocs docs, maxDepth := n } :
        Sampler).methodSamples d service methods r = some (.ok samples, r)) ↔
      ∀ x, x.1 ∈ docs → ¬ Relation.TransGen (Symbols.ofDocs docs).Unfolds x x := by
  constructor
  · -- A service that has one method, which returns the type.
    intro h x hx
    let f : Function := { name := "get", returns := x.2 }
    let m : Typescript.Method := { name := Text.lowerCamel "get" }
    have hfunction : function? { name := "S", functions := [f] } m.name = some f := by
      simp [function?, f, m]
    obtain ⟨samples, hsamples⟩ := h x.1 hx { name := "S", functions := [f] } [m] {}
    exact (settles_of_methodSamples rfl hfunction hsamples).not_cycle
  · intro hground d hd service methods
    exact ends_methodSamples rfl rfl hground hd service methods

/-! The tree unfolds to nothing but a list of itself, and a structure does not unfold. -/

/-- How often a type unfolds, seen from the file of the tree. -/
def treeUnfoldings : FieldType → Nat
  | .list e => treeUnfoldings e + 1
  | .set e => treeUnfoldings e + 1
  | .identifier name =>
    match treeSampler.symbols.resolve? treeFile name with
    | some (.typedef _, _) => 2
    | _ => 0
  | _ => 0

theorem treeUnfoldings_lt {x y : Document × FieldType} (hx : x.1 ∈ [treeFile])
    (h : treeSampler.symbols.Unfolds x y) : treeUnfoldings y.2 < treeUnfoldings x.2 := by
  cases h with
  | list d e => exact Nat.lt_succ_self _
  | set d e => exact Nat.lt_succ_self _
  | @typedef d decl name a hresolves hvoid hself =>
      obtain ⟨-, holder, hholder, ha⟩ := Symbols.mem_of_resolve?_ofDocs hx hresolves
      obtain rfl := List.mem_singleton.mp hx
      obtain rfl := List.mem_singleton.mp hholder
      have htype : a.type = .list (.identifier "Tree") := by
        obtain rfl : a = _ := by simpa [treeFile] using ha
        rfl
      have hname : treeUnfoldings (.identifier name) = 2 := by
        simp [treeUnfoldings, hresolves]
      have hlist : treeUnfoldings (.list (.identifier "Tree")) = 1 := rfl
      rw [htype, hlist, hname]
      decide

theorem methodSamples_ends_iff_tree :
    treeFile ∈ [treeFile] ∧
      (∀ x, x.1 ∈ [treeFile] → ¬ Relation.TransGen treeSampler.symbols.Unfolds x x) ∧
      ∃ samples, treeSampler.methodSamples treeFile treeService [{ name := "get" }] {} =
        some (.ok samples, {}) :=
  have hground : Symbols.Grounded [treeFile] :=
    Symbols.grounded_of_lt treeUnfoldings fun _ _ => treeUnfoldings_lt
  ⟨List.mem_cons_self, hground,
    (methodSamples_ends_iff [treeFile] 2 false true).mpr hground treeFile List.mem_cons_self
      treeService [{ name := "get" }] {}⟩

def listFile : Document :=
  { path := "/list.thrift", dialect := .thrift,
    statements := [.typedef { name := "T", type := .list (.identifier "T") }] }

/-- No chain of plain type names leads back to itself here, and yet sampling has no end. -/
theorem endless_list :
    let s : Sampler :=
      { bus := builtinBus false true, symbols := .ofDocs [listFile], maxDepth := 3 }
    (∀ x, ¬ Relation.TransGen s.symbols.Leads x x) ∧
      s.methodSamples listFile
        { name := "S", functions := [{ name := "get", returns := .identifier "T" }] }
        [{ name := "get" }] {} = none := by
  intro s
  refine ⟨fun x hcycle => ?_, ?_⟩
  · obtain ⟨y, ⟨a, hresolve, htype⟩, -⟩ := Relation.TransGen.head'_iff.mp hcycle
    obtain ⟨entry, hentry, ha⟩ := Symbols.mem_docs_of_resolve? (Symbols.keyed_ofDocs _) hresolve
    obtain rfl : entry = ("/list.thrift", listFile) := List.mem_singleton.mp hentry
    obtain rfl : a = { name := "T", type := .list (.identifier "T") } := by
      simpa [listFile] using ha
    cases htype
  · have hresolve : s.symbols.resolve? listFile "T" =
        some (.typedef { name := "T", type := .list (.identifier "T") }, listFile) := rfl
    have hcycle : Relation.TransGen s.symbols.Unfolds (listFile, .identifier "T")
        (listFile, .identifier "T") :=
      .tail (.single (.typedef hresolve nofun nofun)) (.list listFile (.identifier "T"))
    rw [Option.eq_none_iff_forall_ne_some]
    intro x hx
    exact (settles_of_methodSamples rfl rfl hx).not_cycle hcycle

end Sampler

end Generate
end ClientGen
