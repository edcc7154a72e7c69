import ClientGen.Document.Symbols
import ClientGen.Proofs.Load.Resolution
import Mathlib.Data.List.Perm.Subperm
import Mathlib.Logic.Relation

/-! # Names of loaded documents

Which statement a name can mean when every document stands in the table under its own
path, and when following type names comes to an end: where no type name leads back to
itself, a chain of them is no longer than the number of declarations
(`resolves_resolver`).
-/

namespace ClientGen

namespace Symbols

variable {s : Symbols} {D T : Document} {st : Statement} {name path : String}

/-- Documents by their own paths, each once. -/
structure Keyed (s : Symbols) : Prop where
  once : s.docs.keys.Nodup
  path_eq : ∀ p d, s.docs.find? p = some d → d.path = p

theorem keyed_ofDocs (docs : List Document) : (ofDocs docs).Keyed := by
  refine ⟨Table.nodup_keys_ofList _, fun p d hd => ?_⟩
  obtain ⟨d', -, heq⟩ := List.mem_map.mp (Table.mem_of_mem_ofList (Table.mem_of_find? hd))
  obtain ⟨hpath, rfl⟩ := Prod.mk.inj heq
  exact hpath

theorem Keyed.find?_path {p : String} (hs : s.Keyed) (h : s.docs.find? p = some T) :
    s.docs.find? T.path = some T := by
  rw [hs.path_eq p T h, h]

theorem mem_of_local? (h : local? D name = some st) : st ∈ D.statements :=
  List.mem_reverse.mp (List.mem_of_find?_eq_some h)

theorem mem_of_packageSearch? (hs : s.Keyed) (h : s.packageSearch? D name = some (st, T)) :
    st ∈ T.statements ∧ s.docs.find? T.path = some T := by
  obtain ⟨package, -, hfound⟩ := List.exists_of_findSome?_eq_some h
  obtain ⟨⟨p, d⟩, hmem, hd⟩ := List.exists_of_findSome?_eq_some hfound
  obtain ⟨rest, -, hd⟩ := Option.bind_eq_some_iff.mp hd
  obtain ⟨st', hlocal, heq⟩ := Option.bind_eq_some_iff.mp hd
  obtain ⟨rfl, rfl⟩ := Prod.mk.inj (Option.some.inj heq)
  have hdocs : (p, d) ∈ s.docs := (Table.sorted_perm s.docs).mem_iff.mp hmem
  exact ⟨mem_of_local? hlocal, hs.find?_path (Table.find?_of_mem hs.once hdocs)⟩

theorem find?_of_includeTarget? (hs : s.Keyed) (h : s.includeTarget? D path = some T) :
    s.docs.find? T.path = some T := by
  unfold includeTarget? at h
  cases hnear : s.docs.find? (Path.join [Path.dir D.path, path]) with
  | some d =>
      obtain rfl : d = T := by simpa [hnear] using h
      exact hs.find?_path hnear
  | none => exact hs.find?_path (by simpa [hnear] using h)

theorem mem_of_includeSearch? (hs : s.Keyed) (h : s.includeSearch? D name = some (st, T)) :
    st ∈ T.statements ∧ s.docs.find? T.path = some T ∧
      ∃ path ∈ D.includes, s.includeTarget? D path = some T := by
  obtain ⟨⟨scope, base⟩, -, hfound⟩ := Option.bind_eq_some_iff.mp h
  obtain ⟨path, hpath, hhit⟩ := List.exists_of_findSome?_eq_some hfound
  obtain ⟨target, htarget, hrest⟩ := Option.bind_eq_some_iff.mp hhit
  split at hrest
  · cases hrest
  · obtain ⟨st', hlocal, heq⟩ := Option.bind_eq_some_iff.mp hrest
    obtain ⟨rfl, rfl⟩ := Prod.mk.inj (Option.some.inj heq)
    exact ⟨mem_of_local? hlocal, find?_of_includeTarget? hs htarget, path, hpath, htarget⟩

/-- A name is declared where it stands, or in any document of Protobuf, or in one that
Thrift includes. -/
theorem resolve?_cases (hs : s.Keyed) (hD : s.docs.find? D.path = some D)
    (h : s.resolve? D name = some (st, T)) :
    st ∈ T.statements ∧ s.docs.find? T.path = some T ∧
      (T = D ∨ D.dialect = .protobuf ∨ ∃ path ∈ D.includes, s.includeTarget? D path = some T) := by
  unfold resolve? at h
  split at h
  · rename_i st' hat
    obtain ⟨rfl, rfl⟩ := Prod.mk.inj (Option.some.inj h)
    obtain ⟨d, hd, hlocal⟩ := Option.bind_eq_some_iff.mp hat
    obtain rfl : D = d := Option.some.inj (hD.symm.trans hd)
    exact ⟨mem_of_local? hlocal, hD, .inl rfl⟩
  · split at h
    · rename_i hdialect
      obtain ⟨hmem, hfound⟩ := mem_of_packageSearch? hs h
      exact ⟨hmem, hfound, .inr (.inl hdialect)⟩
    · obtain ⟨hmem, hfound, hinclude⟩ := mem_of_includeSearch? hs h
      exact ⟨hmem, hfound, .inr (.inr hinclude)⟩

/-- A name is declared by the document at the path of the one that uses it, or in another
document of the table. -/
theorem sources_of_resolve? (hs : s.Keyed) (h : s.resolve? D name = some (st, T)) :
    (T = D ∧ ∃ d, s.docs.find? D.path = some d ∧ st ∈ d.statements) ∨
      (s.docs.find? T.path = some T ∧ st ∈ T.statements) := by
  unfold resolve? at h
  split at h
  · rename_i st' hat
    obtain ⟨rfl, rfl⟩ := Prod.mk.inj (Option.some.inj h)
    obtain ⟨d, hd, hlocal⟩ := Option.bind_eq_some_iff.mp hat
    exact .inl ⟨rfl, d, hd, mem_of_local? hlocal⟩
  · split at h
    · obtain ⟨hmem, hfound⟩ := mem_of_packageSearch? hs h
      exact .inr ⟨hfound, hmem⟩
    · obtain ⟨hmem, hfound, -⟩ := mem_of_includeSearch? hs h
      exact .inr ⟨hfound, hmem⟩

/-- Whatever a name means is declared in a document of the table. -/
theorem mem_docs_of_resolve? (hs : s.Keyed) (h : s.resolve? D name = some (st, T)) :
    ∃ entry ∈ s.docs, st ∈ entry.2.statements := by
  rcases sources_of_resolve? hs h with ⟨-, d, hd, hmem⟩ | ⟨hfound, hmem⟩
  · exact ⟨_, Table.mem_of_find? hd, hmem⟩
  · exact ⟨_, Table.mem_of_find? hfound, hmem⟩

def isType : Statement → Bool
  | .struct _ => true
  | .enum _ => true
  | .typedef _ => true
  | _ => false

/-- A name of generated code is that of the type that is meant. -/
theorem resolve?_of_resolver {r : Typescript.Resolved} (h : s.resolver D name = some r) :
    ∃ st T, s.resolve? D name = some (st, T) ∧ isType st = true ∧ st.name = r.name := by
  unfold resolver resolvedAux at h
  split at h
  · rename_i x T hresolve
    obtain rfl := Option.some.inj h
    exact ⟨.struct x, T, hresolve, rfl, rfl⟩
  · rename_i x T hresolve
    obtain rfl := Option.some.inj h
    exact ⟨.enum x, T, hresolve, rfl, rfl⟩
  · rename_i x T hresolve
    obtain rfl := Option.some.inj h
    exact ⟨.typedef x, T, hresolve, rfl, rfl⟩
  · cases h

theorem resolver_struct {x : Struct} (h : s.resolve? D name = some (.struct x, T)) :
    s.resolver D name = some { name := x.name, enum := false } := by
  unfold resolver resolvedAux
  rw [h]

/-! ## Chains of type names -/

/-- The name that a type name stands for, and the document in which that is looked up. -/
def aliased? (s : Symbols) (x : Document × String) : Option (Document × String) :=
  match s.resolve? x.1 x.2 with
  | some (.typedef t, decl) =>
    match t.type with
    | .identifier next => if next = x.2 then none else some (decl, next)
    | _ => none
  | _ => none

/-- No type name of some documents leads back to itself through other ones. -/
def Acyclic (s : Symbols) (docs : List Document) : Prop :=
  ∀ x : Document × String, x.1 ∈ docs →
    ¬ Relation.TransGen (fun y z => s.aliased? y = some z) x x

/-- What a name means in a document, found by a search that comes to an end. -/
inductive Resolves (s : Symbols) : Document → String → Option Typescript.Resolved → Prop
  | nothing {d : Document} {name : String}
      (h : ∀ st decl, s.resolve? d name = some (st, decl) → isType st = false) :
      Resolves s d name none
  | struct {d decl : Document} {name : String} {x : Struct}
      (h : s.resolve? d name = some (.struct x, decl)) :
      Resolves s d name (some { name := x.name, enum := false })
  | enum {d decl : Document} {name : String} {x : Enum}
      (h : s.resolve? d name = some (.enum x, decl)) :
      Resolves s d name (some { name := x.name, enum := true })
  | typedef {d decl : Document} {name : String} {t : Typedef}
      (h : s.resolve? d name = some (.typedef t, decl)) (hlast : s.aliased? (d, name) = none) :
      Resolves s d name (some { name := t.name, enum := false })
  | alias {d decl : Document} {name next : String} {t : Typedef}
      {r : Option Typescript.Resolved} (h : s.resolve? d name = some (.typedef t, decl))
      (hnext : s.aliased? (d, name) = some (decl, next)) (hrest : Resolves s decl next r) :
      Resolves s d name (some { name := t.name, enum := (r.map (·.enum)).getD false })

/-- The names that type names of a document stand for. -/
def aliasesIn (d : Document) : List (Document × String) :=
  d.statements.filterMap fun st =>
    match st with
    | .typedef t =>
      match t.type with
      | .identifier next => some (d, next)
      | _ => none
    | _ => none

def aliases (s : Symbols) : List (Document × String) := s.docs.flatMap fun (_, d) => aliasesIn d

theorem length_aliases_le (s : Symbols) : s.aliases.length ≤ s.size := by
  have hsum : ∀ (docs : Table Document) (n : Nat), n + (docs.flatMap fun (_, d) =>
      aliasesIn d).length ≤ docs.foldl (fun total (_, d) => total + d.statements.length) n := by
    intro docs
    induction docs with
    | nil => simp
    | cons p docs ih =>
        intro n
        obtain ⟨path, d⟩ := p
        have hd : (aliasesIn d).length ≤ d.statements.length := List.length_filterMap_le _ _
        have hrest := ih (n + d.statements.length)
        rw [List.flatMap_cons, List.length_append, List.foldl_cons]
        change n + ((aliasesIn d).length + (docs.flatMap _).length) ≤
          docs.foldl _ (n + d.statements.length)
        omega
  simpa [aliases, size] using hsum s.docs 0

theorem aliased?_eq_some {x y : Document × String} (h : s.aliased? x = some y) :
    ∃ t, s.resolve? x.1 x.2 = some (.typedef t, y.1) ∧ t.type = .identifier y.2 ∧ y.2 ≠ x.2 := by
  unfold aliased? at h
  split at h
  · rename_i t decl hresolve
    split at h
    · rename_i next htype
      split at h
      · cases h
      · rename_i hne
        obtain rfl := Option.some.inj h
        exact ⟨t, hresolve, htype, hne⟩
    · cases h
  · cases h

/-- What a type name stands for is found among the documents of the table. -/
theorem mem_aliases (hs : s.Keyed) {x y : Document × String}
    (hx : s.docs.find? x.1.path = some x.1) (h : s.aliased? x = some y) :
    y ∈ s.aliases ∧ s.docs.find? y.1.path = some y.1 := by
  obtain ⟨t, hresolve, htype, -⟩ := aliased?_eq_some h
  obtain ⟨hmem, hfound, -⟩ := resolve?_cases hs hx hresolve
  refine ⟨?_, hfound⟩
  apply List.mem_flatMap.mpr
  refine ⟨(y.1.path, y.1), Table.mem_of_find? hfound, ?_⟩
  apply List.mem_filterMap.mpr
  exact ⟨.typedef t, hmem, by simp [htype]⟩

theorem resolves_nothing {fuel : Nat}
    (h : ∀ st decl, s.resolve? D name = some (st, decl) → isType st = false) :
    s.Resolves D name (s.resolvedAux (fuel + 1) D name) := by
  have hnone : s.resolvedAux (fuel + 1) D name = none := by
    rw [resolvedAux]
    split
    · rename_i x decl hresolve
      cases h _ _ hresolve
    · rename_i e decl hresolve
      cases h _ _ hresolve
    · rename_i t decl hresolve
      cases h _ _ hresolve
    · rfl
  rw [hnone]
  exact .nothing h

/-- No type name leads back to itself if what names stand for decreases in some measure. -/
theorem acyclic_of_decreasing (hs : s.Keyed) {docs : List Document}
    (hdocs : ∀ d ∈ docs, s.docs.find? d.path = some d) (measure : String → Nat)
    (h : ∀ x ∈ s.aliases, ∀ y ∈ s.aliased? x, measure y.2 < measure x.2) : s.Acyclic docs := by
  have hchain : ∀ x y, s.docs.find? x.1.path = some x.1 →
      Relation.TransGen (fun y z => s.aliased? y = some z) x y →
      y ∈ s.aliases ∧ s.docs.find? y.1.path = some y.1 ∧
        (x ∈ s.aliases → measure y.2 < measure x.2) := by
    intro x y hx hxy
    induction hxy with
    | single hstep =>
        obtain ⟨hmem, hfound⟩ := mem_aliases hs hx hstep
        exact ⟨hmem, hfound, fun hold => h x hold _ hstep⟩
    | tail _ hstep ih =>
        obtain ⟨hmem, hfound, hless⟩ := ih
        obtain ⟨hmem', hfound'⟩ := mem_aliases hs hfound hstep
        exact ⟨hmem', hfound', fun hold => Nat.lt_trans (h _ hmem _ hstep) (hless hold)⟩
  intro x hx hcycle
  obtain ⟨hmem, -, hless⟩ := hchain x x (hdocs x.1 hx) hcycle
  exact Nat.lt_irrefl _ (hless hmem)

theorem acyclic_ofDocs {docs : List Document} (honce : (docs.map (·.path)).Nodup)
    (measure : String → Nat)
    (h : ∀ x ∈ (ofDocs docs).aliases, ∀ y ∈ (ofDocs docs).aliased? x, measure y.2 < measure x.2) :
    (ofDocs docs).Acyclic docs :=
  acyclic_of_decreasing (keyed_ofDocs docs) (fun _ hd => (find?_ofDocs honce).mpr ⟨hd, rfl⟩)
    measure h

/-- A type name is followed to what it stands for. -/
theorem resolvedAux_typedef {fuel : Nat} {t : Typedef} {decl : Document}
    (h : s.resolve? D name = some (.typedef t, decl)) :
    s.resolvedAux (fuel + 1) D name = some
      { name := t.name,
        enum := (((s.aliased? (D, name)).bind fun y => s.resolvedAux fuel y.1 y.2).map
          (·.enum)).getD false } := by
  have haliased : s.aliased? (D, name) =
      match t.type with
      | .identifier next => if next = name then none else some (decl, next)
      | _ => none := by
    simp only [aliased?, h]
  rw [resolvedAux, h, haliased]
  dsimp only
  cases t.type with
  | identifier next => by_cases hnext : next = name <;> simp [hnext]
  | _ => rfl

/-- The search for a name comes to an end if no name that it can come to leads back to
itself, the names that it has come through are distinct, and the fuel covers all others. -/
theorem resolves_resolvedAux (pool : List (Document × String)) (fuel : Nat)
    (x : Document × String)
    (hpool : ∀ y z, Relation.ReflTransGen (fun y z => s.aliased? y = some z) x y →
      s.aliased? y = some z → z ∈ pool)
    (hacyclic : ∀ y, Relation.ReflTransGen (fun y z => s.aliased? y = some z) x y →
      ¬ Relation.TransGen (fun y z => s.aliased? y = some z) y y)
    (seen : List (Document × String)) (hnodup : seen.Nodup) (hseen : seen ⊆ pool)
    (hreach : ∀ y ∈ seen, Relation.ReflTransGen (fun y z => s.aliased? y = some z) y x)
    (hfuel : pool.length < fuel + seen.length) :
    s.Resolves x.1 x.2 (s.resolvedAux fuel x.1 x.2) := by
  induction fuel generalizing x seen with
  | zero =>
      have hlength := (List.Nodup.subperm hnodup hseen).length_le
      omega
  | succ fuel ih =>
      cases hresolve : s.resolve? x.1 x.2 with
      | none => exact resolves_nothing (by simp [hresolve])
      | some found =>
          obtain ⟨st, decl⟩ := found
          cases st with
          | service _ => exact resolves_nothing (by simp [hresolve, isType])
          | const _ => exact resolves_nothing (by simp [hresolve, isType])
          | struct st =>
              have hstruct := Resolves.struct hresolve
              simpa [resolvedAux, hresolve] using hstruct
          | enum e =>
              have henum := Resolves.enum hresolve
              simpa [resolvedAux, hresolve] using henum
          | typedef t =>
              rw [resolvedAux_typedef hresolve]
              cases hnext : s.aliased? x with
              | none => exact .typedef hresolve hnext
              | some y =>
                  have hfresh : y ∉ seen := by
                    intro hold
                    exact hacyclic y (.single hnext) (.tail' (hreach y hold) hnext)
                  have hrest := ih y (fun z w hz => hpool z w (.head hnext hz))
                    (fun z hz => hacyclic z (.head hnext hz)) (y :: seen)
                    (List.nodup_cons.mpr ⟨hfresh, hnodup⟩)
                    (List.cons_subset.mpr ⟨hpool x y .refl hnext, hseen⟩) ?_ ?_
                  · obtain ⟨t', hresolve', -⟩ := aliased?_eq_some hnext
                    obtain ⟨-, rfl⟩ := Prod.mk.inj (Option.some.inj (hresolve.symm.trans hresolve'))
                    exact .alias hresolve hnext hrest
                  · intro z hz
                    rcases List.mem_cons.mp hz with rfl | hz
                    · exact .refl
                    · exact (hreach z hz).tail hnext
                  · rw [List.length_cons]
                    omega

/-- What a document sees as the names that type names stand for: those of all documents,
and those of the document at its path as if they were its own. -/
def aliasesFrom (s : Symbols) (d : Document) : List (Document × String) :=
  s.aliases ++ s.aliases.map fun a => (d, a.2)

theorem length_aliasesFrom_le (s : Symbols) (d : Document) :
    (s.aliasesFrom d).length ≤ 2 * s.size := by
  have hlength := s.length_aliases_le
  rw [aliasesFrom, List.length_append, List.length_map]
  omega

/-- Chains of type names from any document stay among what it sees. -/
theorem mem_aliasesFrom (hs : s.Keyed) {x y z : Document × String}
    (hxy : Relation.ReflTransGen (fun y z => s.aliased? y = some z) x y)
    (hyz : s.aliased? y = some z) : z ∈ s.aliasesFrom x.1 := by
  -- every document on the way is the first one or stands in the table
  have hway : ∀ y z, (y.1 = x.1 ∨ s.docs.find? y.1.path = some y.1) → s.aliased? y = some z →
      (z.1 = x.1 ∨ s.docs.find? z.1.path = some z.1) ∧ z ∈ s.aliasesFrom x.1 := by
    intro y z hy hstep
    obtain ⟨t, hresolve, htype, -⟩ := aliased?_eq_some hstep
    have hheld : ∀ d, s.docs.find? d.path = some d → .typedef t ∈ d.statements →
        (d, z.2) ∈ s.aliases := fun d hd hmem =>
      List.mem_flatMap.mpr ⟨(d.path, d), Table.mem_of_find? hd,
        List.mem_filterMap.mpr ⟨.typedef t, hmem, by simp [htype]⟩⟩
    rcases sources_of_resolve? hs hresolve with ⟨hsame, d, hd, hmem⟩ | ⟨hstored, hmem⟩
    · have hd' := hheld d (hs.find?_path hd) hmem
      rcases hy with hy | hy
      · refine ⟨.inl (hsame.trans hy), List.mem_append_right _ (List.mem_map.mpr ⟨_, hd', ?_⟩)⟩
        rw [← hy, ← hsame]
      · obtain rfl : y.1 = d := Option.some.inj (hy.symm.trans hd)
        rw [← hsame] at hd' hy
        exact ⟨.inr hy, List.mem_append_left _ hd'⟩
    · exact ⟨.inr hstored, List.mem_append_left _ (hheld z.1 hstored hmem)⟩
  have hy : y.1 = x.1 ∨ s.docs.find? y.1.path = some y.1 := by
    clear hyz
    induction hxy with
    | refl => exact .inl rfl
    | tail _ hstep ih => exact (hway _ _ ih hstep).1
  exact (hway y z hy hyz).2

/-- Where no type name that a name leads to leads back to itself, what the name means is
found by a search that comes to an end. -/
theorem resolves_resolver_of_acyclic (hs : s.Keyed)
    (hacyclic : ∀ y, Relation.ReflTransGen (fun y z => s.aliased? y = some z) (D, name) y →
      ¬ Relation.TransGen (fun y z => s.aliased? y = some z) y y) :
    s.Resolves D name (s.resolver D name) := by
  have hlength := s.length_aliasesFrom_le D
  refine resolves_resolvedAux (s.aliasesFrom D) (2 * s.size + 1) (D, name)
    (fun y z => mem_aliasesFrom hs) hacyclic [] .nil ?_ ?_ ?_
  · simp
  · simp
  · simp only [List.length_nil]
    omega

/-- Where no type name leads back to itself, what a name means is found by a search that
comes to an end. -/
theorem resolves_resolver (hs : s.Keyed) {docs : List Document}
    (hdocs : ∀ d, s.docs.find? d.path = some d → d ∈ docs) (hacyclic : s.Acyclic docs)
    (hD : s.docs.find? D.path = some D) (name : String) :
    s.Resolves D name (s.resolver D name) := by
  refine resolves_resolver_of_acyclic hs fun y hy => hacyclic y (hdocs y.1 ?_)
  induction hy with
  | refl => exact hD
  | tail _ hstep ih => exact (mem_aliases hs ih hstep).2

end Symbols
end ClientGen
