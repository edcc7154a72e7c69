import ClientGen.Proofs.Generate.Work

/-! # How samples come about

Sampling is a recursion that need not come to an end. Without plugins there are few ways in
which a sample comes about; what each of them keeps holds of every sample there is
(`Account.holds`), and sampling leaves no trace in the run.
-/

namespace ClientGen

/-- One step from a type to what is sampled in its place at the same depth, seen from a
document: from a list or a set to its element, from a type name to the type it stands for. -/
inductive Symbols.Unfolds (s : Symbols) : Document × FieldType → Document × FieldType → Prop where
  | list (d : Document) (e : FieldType) : Unfolds s (d, .list e) (d, e)
  | set (d : Document) (e : FieldType) : Unfolds s (d, .set e) (d, e)
  | typedef {d decl : Document} {name : String} {t : Typedef}
      (hresolves : s.resolve? d name = some (.typedef t, decl)) (hvoid : t.type ≠ .void)
      (hself : t.type ≠ .identifier name) : Unfolds s (d, .identifier name) (decl, t.type)

/-- A name unfolds only if it names a type other than itself. -/
theorem Symbols.not_unfolds {s : Symbols} {d : Document} {name : String}
    (h : ∀ t decl, s.resolve? d name = some (.typedef t, decl) →
      t.type = .void ∨ t.type = .identifier name) (y : Document × FieldType) :
    ¬ s.Unfolds (d, .identifier name) y := by
  intro hstep
  cases hstep with
  | typedef hresolves hvoid hself => exact (h _ _ hresolves).elim hvoid hself

namespace Generate

open Pipeline
open Source (Failure)

namespace Sampler

variable {s : Sampler} {keys mock : Bool}

/-! ## The stage -/

/-- Without plugins the stage gives the sample so far, or one for a field that has none. -/
theorem answer_builtin (hbus : s.bus = builtinBus keys mock) (owner : String) (f : Field)
    (depth : Nat) (value : Value) (r : Run) :
    ∃ v, s.answer owner f depth value r = (.ok v, r) ∧
      (v = value ∨ value = .null ∧ ∃ types, v = Mock.sample owner f types) := by
  unfold answer
  rw [hbus]
  cases mock with
  | false => exact ⟨value, rfl, .inl rfl⟩
  | true =>
      have hhas : (builtinBus keys true).has Stage.mockFieldHook = true := rfl
      rw [if_pos hhas]
      refine ⟨_, bind_work_ok (runMockField_builtin _), ?_⟩
      unfold Plugin.sampled
      split
      · rename_i f' hvalue hfield
        obtain rfl := Option.some.inj hfield
        exact .inr ⟨hvalue, _, rfl⟩
      · exact .inl rfl

/-- The stage leaves the sample of a field that is no scalar as it is. -/
theorem answer_composite (hbus : s.bus = builtinBus keys mock) (owner : String) {f : Field}
    (hf : ∀ name, f.type ≠ .base name) (depth : Nat) (value : Value) (r : Run) :
    s.answer owner f depth value r = (.ok value, r) := by
  obtain ⟨v, hv, rfl | ⟨rfl, types, rfl⟩⟩ := answer_builtin hbus owner f depth value r
  · exact hv
  · have hsample : Mock.sample owner f types = .null := by
      unfold Mock.sample
      split
      · rename_i name hname
        exact absurd hname (hf name)
      · rfl
    rw [hv, hsample]

/-! ## Accounts of samples -/

/-- Samples of fields, each as `P` says, put beside what is done. -/
inductive Collected (P : Field → Value → Prop) : List Field → Table Value → Table Value → Prop where
  | done (t : Table Value) : Collected P [] t t
  | field {f : Field} {v : Value} {rest : List Field} {t t' : Table Value} (hsample : P f v)
      (hmore : Collected P rest (hold t f.name v) t') : Collected P (f :: rest) t t'

/-- Judgments on the samples of structures, fields and types, seen from a document at a depth,
that agree with each way in which a sample comes about. -/
structure Account (s : Sampler) (S : Document → Struct → Nat → Value → Prop)
    (F : Document → Field → Nat → Value → Prop)
    (T : Document → FieldType → Nat → Value → Prop) : Prop where
  deep {d st depth} : s.maxDepth ≤ depth → S d st depth .null
  record {d st depth fields} : depth < s.maxDepth →
    Collected (fun f v => F d f depth v) st.fields [] fields → S d st depth (.record fields)
  void {d f depth} : f.type = .void → F d f depth .null
  scalar {d f depth name v} : f.type = .base name →
    (v = .null ∨ ∃ owner types, v = Mock.sample owner f types) → F d f depth v
  default {d f depth} : f.default ≠ .absent → F d f depth (Value.ofConst f.default)
  made {d f depth v} : f.default = .absent → T d f.type depth v → F d f depth v
  list {d e depth name v} : F d { name, type := e } depth v → T d (.list e) depth (listOf v)
  set {d e depth name v} : F d { name, type := e } depth v → T d (.set e) depth (listOf v)
  map {d k e depth} : T d (.map k e) depth (.map [])
  struct {d id st decl depth v} : s.symbols.resolve? d id = some (.struct st, decl) →
    S decl st (depth + 1) v → T d (.identifier id) depth v
  enum {d id e decl depth n} : s.symbols.resolve? d id = some (.enum e, decl) →
    T d (.identifier id) depth (.int n)
  typedef {d id t decl depth name v} : s.symbols.resolve? d id = some (.typedef t, decl) →
    F decl { name, type := t.type } depth v → T d (.identifier id) depth v
  nothing {d t depth} : (∀ y, ¬ s.symbols.Unfolds (d, t) y) → T d t depth .null

variable {S : Document → Struct → Nat → Value → Prop} {F : Document → Field → Nat → Value → Prop}
  {T : Document → FieldType → Nat → Value → Prop}

/-- What the stage gives for a scalar field is a sample of it. -/
theorem Account.answer_scalar (hbus : s.bus = builtinBus keys mock) (h : s.Account S F T)
    {f : Field} {name : String} (hbase : f.type = .base name) (d : Document) (owner : String)
    (depth : Nat) (r : Run) :
    ∃ v, s.answer owner f depth .null r = (.ok v, r) ∧ F d f depth v := by
  obtain ⟨v, hanswer, hv⟩ := answer_builtin hbus owner f depth .null r
  refine ⟨v, hanswer, h.scalar hbase ?_⟩
  rcases hv with rfl | ⟨-, types, rfl⟩
  · exact .inl rfl
  · exact .inr ⟨owner, types, rfl⟩

/-- The first member of an enumeration is a sample of it, null if it has no members. -/
theorem Account.members (h : s.Account S F T) {d decl : Document} {id : String} {e : Enum}
    (hresolve : s.symbols.resolve? d id = some (.enum e, decl)) (depth : Nat) :
    T d (.identifier id) depth ((e.members.head?.map fun m => Value.int m.value).getD .null) := by
  cases e.members with
  | nil => exact h.nothing (Symbols.not_unfolds (by simp [hresolve]))
  | cons m ms => exact h.enum hresolve

/-- A name for nothing or for itself has no sample. -/
theorem Account.ended (h : s.Account S F T) {d decl : Document} {id : String} {t : Typedef}
    (hresolve : s.symbols.resolve? d id = some (.typedef t, decl))
    (hends : t.type = .void ∨ t.type = .identifier id) (depth : Nat) :
    T d (.identifier id) depth .null := by
  refine h.nothing (Symbols.not_unfolds fun t' decl' hresolve' => ?_)
  obtain ⟨rfl, -⟩ : t = t' ∧ _ := by simpa using hresolve.symm.trans hresolve'
  exact hends

/-- A type that is no list, no set and no name can be without a sample. -/
theorem Account.plain (h : s.Account S F T) {t : FieldType} (hlist : ∀ e, t ≠ .list e)
    (hset : ∀ e, t ≠ .set e) (hname : ∀ id, t ≠ .identifier id) (d : Document) (depth : Nat) :
    T d t depth .null := by
  refine h.nothing fun y hstep => ?_
  cases hstep with
  | list e => exact hlist _ rfl
  | set e => exact hset _ rfl
  | typedef => exact hname _ rfl

/-! ### One function after the other

Where work comes to an end it gives what is as `P` says, and leaves the run as it was. Each
function of the recursion does so if those that it calls do.
-/

/-- What work gives, if it comes to an end, is as `P` says, and the run is as it was. -/
def Leaves {α : Type} (P : α → Prop) (r : Run) (work : Option (After α)) : Prop :=
  ∀ x, work = some x → ∃ a, x = (.ok a, r) ∧ P a

namespace Leaves

variable {α β : Type} {P : α → Prop} {Q : β → Prop} {r : Run} {work : Option (After α)}

theorem of_eq {a : α} (hwork : work = some (.ok a, r)) (ha : P a) : Leaves P r work :=
  fun _ hx => ⟨a, Option.some.inj (hx.symm.trans hwork), ha⟩

theorem imp {P' : α → Prop} (h : Leaves P r work) (hP : ∀ a, P a → P' a) : Leaves P' r work := by
  intro x hx
  obtain ⟨a, rfl, ha⟩ := h x hx
  exact ⟨a, rfl, hP a ha⟩

theorem bind {next : After α → Option (After β)} (h : Leaves P r work)
    (hnext : ∀ a, P a → Leaves Q r (next (.ok a, r))) : Leaves Q r (work >>= next) := by
  intro x hx
  obtain ⟨y, hy, hx⟩ := Option.bind_eq_some_iff.mp hx
  obtain ⟨a, rfl, ha⟩ := h y hy
  exact hnext a ha x hx

end Leaves

section Functions

variable {structs : Document → Struct → Nat → Run → Option (After Value)}
  {samples : Document → String → Nat → List Field → Table Value → Run →
    Option (After (Table Value))}
  {field : Document → String → Field → Nat → Run → Option (After Value)}
  {types : Document → String → String → FieldType → Nat → Run → Option (After Value)}

theorem Account.leaves_struct (h : s.Account S F T)
    (hsamples : ∀ d owner depth fields done r,
      Leaves (Collected (fun f v => F d f depth v) fields done) r
        (samples d owner depth fields done r))
    (d : Document) (st : Struct) (depth : Nat) (r : Run) :
    Leaves (S d st depth) r (do
      if depth ≥ s.maxDepth then return (.ok .null, r)
      let (fields, r) ← samples d st.name depth st.fields [] r
      return (fields.map .record, r)) := by
  split
  · rename_i hdepth
    exact .of_eq rfl (h.deep hdepth)
  · rename_i hdepth
    exact .bind (hsamples d st.name depth st.fields [] r) fun _ hfields =>
      .of_eq rfl (h.record (Nat.lt_of_not_le hdepth) hfields)

theorem leaves_fields
    (hsamples : ∀ d owner depth fields done r,
      Leaves (Collected (fun f v => F d f depth v) fields done) r
        (samples d owner depth fields done r))
    (hfield : ∀ d owner f depth r, Leaves (F d f depth) r (field d owner f depth r))
    (d : Document) (owner : String) (depth : Nat) (fields : List Field) (done : Table Value)
    (r : Run) :
    Leaves (Collected (fun f v => F d f depth v) fields done) r
      (match fields with
      | [] => return (.ok done, r)
      | f :: rest => do
        match ← field d owner f depth r with
        | (.ok v, r) => samples d owner depth rest (hold done f.name v) r
        | (.error e, r) => return (.error e, r)) := by
  cases fields with
  | nil => exact .of_eq rfl (.done done)
  | cons f rest =>
      refine Leaves.bind (hfield d owner f depth r) fun v hv => ?_
      exact (hsamples d owner depth rest (hold done f.name v) r).imp fun _ => .field hv

theorem Account.leaves_field (hbus : s.bus = builtinBus keys mock) (h : s.Account S F T)
    (htypes : ∀ d owner name t depth r, Leaves (T d t depth) r (types d owner name t depth r))
    (d : Document) (owner : String) (f : Field) (depth : Nat) (r : Run) :
    Leaves (F d f depth) r
      (match f.type, f.default with
      | .void, _ => return (.ok .null, r)
      | .base _, _ => return s.answer owner f depth .null r
      | t, .absent => do
        match ← types d owner f.name t depth r with
        | (.ok v, r) => return s.answer owner f depth v r
        | (.error e, r) => return (.error e, r)
      | _, c => return s.answer owner f depth (Value.ofConst c) r) := by
  split
  · rename_i hvoid
    exact .of_eq rfl (h.void hvoid)
  · rename_i hbase
    obtain ⟨v, hanswer, hv⟩ := h.answer_scalar hbus hbase d owner depth r
    exact .of_eq (congrArg some hanswer) hv
  · rename_i habsent _ hbase
    refine .bind (htypes d owner f.name f.type depth r) fun v hv => ?_
    exact .of_eq (congrArg some (answer_composite hbus owner hbase depth v r)) (h.made habsent hv)
  · rename_i _ hbase hdefault
    exact .of_eq (congrArg some (answer_composite hbus owner hbase depth _ r)) (h.default hdefault)

/-- A name has the sample of what it stands for. -/
theorem Account.leaves_name (h : s.Account S F T)
    (hstructs : ∀ d st depth r, Leaves (S d st depth) r (structs d st depth r))
    (hfield : ∀ d owner f depth r, Leaves (F d f depth) r (field d owner f depth r))
    (d : Document) (owner name id : String) (depth : Nat) (r : Run) :
    Leaves (T d (.identifier id) depth) r
      (match s.symbols.resolve? d id with
      | some (.struct st, decl) => structs decl st (depth + 1) r
      | some (.enum e, _) =>
        return (.ok ((e.members.head?.map fun m => Value.int m.value).getD .null), r)
      | some (.typedef t, decl) =>
        if t.type = .void ∨ t.type = .identifier id then return (.ok .null, r)
        else field decl owner { name, type := t.type } depth r
      | _ => return (.ok .null, r)) := by
  split
  · rename_i st decl hresolve
    exact (hstructs decl st (depth + 1) r).imp fun _ hv => h.struct hresolve hv
  · rename_i e decl hresolve
    exact .of_eq rfl (h.members hresolve depth)
  · rename_i t decl hresolve
    split
    · rename_i hends
      exact .of_eq rfl (h.ended hresolve hends depth)
    · exact (hfield decl owner { name, type := t.type } depth r).imp fun _ hv =>
        h.typedef hresolve hv
  · rename_i hstruct henum htypedef
    exact .of_eq rfl (h.nothing (Symbols.not_unfolds fun t decl hresolve =>
      absurd hresolve (htypedef t decl)))

theorem Account.leaves_type (h : s.Account S F T)
    (hstructs : ∀ d st depth r, Leaves (S d st depth) r (structs d st depth r))
    (hfield : ∀ d owner f depth r, Leaves (F d f depth) r (field d owner f depth r))
    (d : Document) (owner name : String) (t : FieldType) (depth : Nat) (r : Run) :
    Leaves (T d t depth) r
      (match t with
      | .list e => do
        let (v, r) ← field d owner { name, type := e } depth r
        return (v.map listOf, r)
      | .set e => do
        let (v, r) ← field d owner { name, type := e } depth r
        return (v.map listOf, r)
      | .map _ _ => return (.ok (.map []), r)
      | .identifier id =>
        match s.symbols.resolve? d id with
        | some (.struct st, decl) => structs decl st (depth + 1) r
        | some (.enum e, _) =>
          return (.ok ((e.members.head?.map fun m => Value.int m.value).getD .null), r)
        | some (.typedef t, decl) =>
          if t.type = .void ∨ t.type = .identifier id then return (.ok .null, r)
          else field decl owner { name, type := t.type } depth r
        | _ => return (.ok .null, r)
      | _ => return (.ok .null, r)) := by
  split
  · exact .bind (hfield d owner { name, type := _ } depth r) fun _ hv => .of_eq rfl (h.list hv)
  · exact .bind (hfield d owner { name, type := _ } depth r) fun _ hv => .of_eq rfl (h.set hv)
  · exact .of_eq rfl h.map
  · exact h.leaves_name hstructs hfield d owner name _ depth r
  · rename_i hlist hset hmap hname
    exact .of_eq rfl (h.plain hlist hset hname d depth)

end Functions

/-- An account holds of all that sampling gives, and the run is left as it was. -/
theorem Account.holds (hbus : s.bus = builtinBus keys mock) (h : s.Account S F T) :
    (∀ d st depth r, Leaves (S d st depth) r (s.sampleStruct d st depth r)) ∧
      (∀ d owner depth fields done r, Leaves (Collected (fun f v => F d f depth v) fields done) r
        (s.sampleFields d owner depth fields done r)) ∧
      (∀ d owner f depth r, Leaves (F d f depth) r (s.sampleField d owner f depth r)) ∧
      ∀ d owner name t depth r, Leaves (T d t depth) r (s.sampleType d owner name t depth r) := by
  refine sampleStruct.mutual_partial_correctness s
    (fun d st depth r x => ∃ v, x = (.ok v, r) ∧ S d st depth v)
    (fun d _ depth fields done r x =>
      ∃ t, x = (.ok t, r) ∧ Collected (fun f v => F d f depth v) fields done t)
    (fun d _ f depth r x => ∃ v, x = (.ok v, r) ∧ F d f depth v)
    (fun d _ _ t depth r x => ∃ v, x = (.ok v, r) ∧ T d t depth v) ?struct ?fields ?field ?type
  case struct => exact fun _ hsamples => h.leaves_struct hsamples
  case fields => exact fun _ _ hsamples hfield => leaves_fields hsamples hfield
  case field => exact fun _ htypes => h.leaves_field hbus htypes
  case type => exact fun _ _ hstructs hfield => h.leaves_type hstructs hfield

inductive OfResult (s : Sampler) (S : Document → Struct → Nat → Value → Prop)
    (F : Document → Field → Nat → Value → Prop) (d : Document) (returns : FieldType) :
    Value → Prop where
  | struct {id : String} {st : Struct} {decl : Document} {v : Value}
      (hnames : returns = .identifier id)
      (hresolves : s.symbols.resolve? d id = some (.struct st, decl)) (hsample : S decl st 0 v) :
      OfResult s S F d returns v
  | other {name : String} {v : Value} (hsample : F d { name, type := returns } 0 v) :
      OfResult s S F d returns v

theorem Account.holds_sampleResult (hbus : s.bus = builtinBus keys mock) (h : s.Account S F T)
    {d : Document} {service method : String} {f : Function} {r : Run} {x : After Value}
    (hx : s.sampleResult d service method f r = some x) :
    ∃ v, x = (.ok v, r) ∧ s.OfResult S F d f.returns v := by
  obtain ⟨hstruct, -, hfield, -⟩ := h.holds hbus
  have hother (hx : s.sampleField d service { name := method, type := f.returns } 0 r = some x) :
      ∃ v, x = (.ok v, r) ∧ s.OfResult S F d f.returns v := by
    obtain ⟨v, rfl, hv⟩ := hfield _ _ _ _ _ _ hx
    exact ⟨v, rfl, .other hv⟩
  unfold sampleResult at hx
  dsimp only at hx
  split at hx
  · rename_i id hreturns
    split at hx
    · rename_i st decl hresolve
      obtain ⟨v, rfl, hv⟩ := hstruct _ _ _ _ _ hx
      exact ⟨v, rfl, .struct hreturns hresolve hv⟩
    · exact hother hx
  · exact hother hx

/-- The sample of a method, if there is one, is of what its function returns. -/
theorem Account.holds_sampleMethod (hbus : s.bus = builtinBus keys mock) (h : s.Account S F T)
    {d : Document} {service : Service} {method : String} {r : Run} {x : After Value}
    (hx : s.sampleMethod d service method r = some x) :
    ∃ v, x = (.ok v, r) ∧ (v = .null ∨
      ∃ f, function? service method = some f ∧ s.OfResult S F d f.returns v) := by
  unfold sampleMethod at hx
  split at hx
  · rename_i f hfunction
    split at hx
    · obtain rfl := Option.some.inj hx
      exact ⟨.null, rfl, .inl rfl⟩
    · obtain ⟨v, rfl, hv⟩ := h.holds_sampleResult hbus hx
      exact ⟨v, rfl, .inr ⟨f, hfunction, hv⟩⟩
  · obtain rfl := Option.some.inj hx
    exact ⟨.null, rfl, .inl rfl⟩

/-- What stands before some samples is no null. -/
theorem mem_prepend {name : String} {samples : List (String × Value)} {v : Value}
    {sample : String × Value} (h : sample ∈ prepend name samples v) :
    sample = (name, v) ∧ v ≠ .null ∨ sample ∈ samples := by
  cases v <;> simpa [prepend] using h

/-- Where the methods of a service have samples, each is one of what its function returns, and
the run is left as it was. -/
theorem Account.holds_methodSamples (hbus : s.bus = builtinBus keys mock) (h : s.Account S F T)
    {d : Document} {service : Service} {methods : List Typescript.Method} {r : Run}
    {x : After (List (String × Value))} (hx : s.methodSamples d service methods r = some x) :
    ∃ samples, x = (.ok samples, r) ∧ ∀ sample ∈ samples,
      ∃ f, function? service sample.1 = some f ∧ s.OfResult S F d f.returns sample.2 := by
  unfold methodSamples at hx
  induction methods generalizing x with
  | nil =>
      obtain rfl := Option.some.inj hx
      exact ⟨[], rfl, nofun⟩
  | cons m rest ih =>
      obtain ⟨_, hone, hx⟩ := Option.bind_eq_some_iff.mp hx
      obtain ⟨v, rfl, hv⟩ := h.holds_sampleMethod hbus hone
      obtain ⟨_, hrest, hx⟩ := Option.bind_eq_some_iff.mp hx
      obtain ⟨samples, rfl, hsamples⟩ := ih hrest
      obtain rfl := Option.some.inj hx
      refine ⟨prepend m.name samples v, rfl, fun sample hsample => ?_⟩
      rcases mem_prepend hsample with ⟨rfl, hne⟩ | hthere
      · exact hv.resolve_left hne
      · exact hsamples sample hthere

/-! ## Predicates on values -/

/-- A predicate on values that holds of every part from which samples are built, if `F`
holds of the fields that are sampled. -/
structure Closed (s : Sampler) (F : Field → Prop) (Q : Value → Prop) : Prop where
  null : Q .null
  int : ∀ n, Q (.int n)
  list : ∀ items, (∀ v ∈ items, Q v) → Q (.list items)
  map : Q (.map [])
  record : ∀ fields, (∀ entry ∈ fields, Q entry.2) → Q (.record fields)
  default : ∀ f, F f → Q (Value.ofConst f.default)
  scalar : ∀ owner f types, F f → Q (Mock.sample owner f types)
  /-- Elements, results and what type names stand for are sampled without a default. -/
  field : ∀ name type, F { name, type }
  declared : ∀ d name st decl, s.symbols.resolve? d name = some (.struct st, decl) →
    ∀ f ∈ st.fields, F f

variable {F : Field → Prop} {Q : Value → Prop}

theorem Closed.listOf (hQ : s.Closed F Q) {value : Value} (hvalue : Q value) :
    Q (listOf value) := by
  unfold Sampler.listOf
  split
  · exact hQ.list [] (by simp)
  · exact hQ.list _ (by simpa using hvalue)

theorem mem_of_mem_hold {t : Table Value} {name : String} {v : Value} {entry : String × Value}
    (h : entry ∈ hold t name v) : entry = (name, v) ∨ entry ∈ t := by
  cases v with
  | null => exact .inr h
  | _ => exact Table.mem_of_mem_insert h

theorem Collected.forall_mem {fields : List Field} {t t' : Table Value}
    (h : Collected (fun f v => F f → Q v) fields t t') (hfields : ∀ f ∈ fields, F f)
    (ht : ∀ entry ∈ t, Q entry.2) : ∀ entry ∈ t', Q entry.2 := by
  induction h with
  | done t => exact ht
  | field hsample hmore ih =>
      refine ih (fun f hf => hfields f (List.mem_cons_of_mem _ hf)) fun entry hentry => ?_
      rcases mem_of_mem_hold hentry with rfl | hthere
      · exact hsample (hfields _ List.mem_cons_self)
      · exact ht entry hthere

theorem Closed.account (hQ : s.Closed F Q) :
    s.Account (fun _ st _ v => (∀ f ∈ st.fields, F f) → Q v) (fun _ f _ v => F f → Q v)
      fun _ _ _ v => Q v where
  deep _ _ := hQ.null
  record _ hfields hst := hQ.record _ (hfields.forall_mem hst nofun)
  void _ _ := hQ.null
  scalar _ hv hf := by
    rcases hv with rfl | ⟨owner, types, rfl⟩
    · exact hQ.null
    · exact hQ.scalar owner _ types hf
  default _ hf := hQ.default _ hf
  made _ hv _ := hv
  list hv := hQ.listOf (hv (hQ.field _ _))
  set hv := hQ.listOf (hv (hQ.field _ _))
  map := hQ.map
  struct hresolve hv := hv (hQ.declared _ _ _ _ hresolve)
  enum _ := hQ.int _
  typedef _ hv := hv (hQ.field _ _)
  nothing _ := hQ.null

/-- What methods have as samples satisfies `Q`, and the run is left as it was. -/
theorem Closed.methodSamples (hbus : s.bus = builtinBus keys mock) (hQ : s.Closed F Q)
    {d : Document} {service : Service} {methods : List Typescript.Method} {r : Run}
    {x : After (List (String × Value))} (hx : s.methodSamples d service methods r = some x) :
    ∃ samples, x = (.ok samples, r) ∧ ∀ sample ∈ samples, Q sample.2 := by
  obtain ⟨samples, rfl, hsamples⟩ := hQ.account.holds_methodSamples hbus hx
  refine ⟨samples, rfl, fun sample hsample => ?_⟩
  obtain ⟨f, -, hresult⟩ := hsamples sample hsample
  cases hresult with
  | struct hnames hresolves hv => exact hv (hQ.declared _ _ _ _ hresolves)
  | other hv => exact hv (hQ.field _ _)

/-- Sampling leaves no trace in the run, even where it breaks off. -/
theorem silent_sampleMethods (hbus : s.bus = builtinBus keys mock) (d : Document)
    (service : Service) (methods : List Typescript.Method) (r : Run) :
    (s.sampleMethods d service methods r).2 = r := by
  have hclosed : s.Closed (fun _ => True) fun _ => True := by constructor <;> simp
  unfold sampleMethods
  cases hx : s.methodSamples d service methods r with
  | none => rfl
  | some x =>
      obtain ⟨samples, rfl, -⟩ := hclosed.methodSamples hbus hx
      rfl

end Sampler

end Generate
end ClientGen
