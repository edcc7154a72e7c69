import ClientGen.Proofs.Document.Symbols

/-! # Enumerations behind type names

A type name stands for another name, which is looked up from the document that declares the
type name. Where such a chain comes to an end, the resolver reports an enumeration exactly
if the chain ends at one and no type name on it stands for a name that is spelled like the
one by which it was reached (`resolver_enum_iff`). Equal spellings in two documents may mean
different declarations, but the resolver stops there (`enum_missed_behind_spelling`).
-/

namespace ClientGen
namespace Symbols

variable {s : Symbols} {D T : Document} {name : String} {x y z : Document × String}

/-! ## Chains -/

/-- A name means a type name that stands for another name, to be looked up from the document
that declares the type name. -/
def Leads (s : Symbols) (x y : Document × String) : Prop :=
  ∃ t, s.resolve? x.1 x.2 = some (.typedef t, y.1) ∧ t.type = .identifier y.2

/-- Following type names from a name comes to an end. -/
def Ends (s : Symbols) (x : Document × String) : Prop :=
  ∃ z, Relation.ReflTransGen s.Leads x z ∧ ∀ y, ¬ s.Leads z y

/-- Following type names from a name leads to an enumeration, maybe at once. -/
def ReachesEnum (s : Symbols) (x : Document × String) : Prop :=
  ∃ z e T, Relation.ReflTransGen s.Leads x z ∧ s.resolve? z.1 z.2 = some (.enum e, T)

/-- No type name on the way stands for a name that is spelled like the one by which it was
reached. -/
def Respelled (s : Symbols) (x : Document × String) : Prop :=
  ∀ y z, Relation.ReflTransGen s.Leads x y → s.Leads y z → z.2 ≠ y.2

/-- Each name leads to at most one other. -/
theorem Leads.unique (h : s.Leads x y) (h' : s.Leads x z) : y = z := by
  obtain ⟨t, hresolve, htype⟩ := h
  obtain ⟨t', hresolve', htype'⟩ := h'
  obtain ⟨hsame, hdoc⟩ := Prod.mk.inj (Option.some.inj (hresolve.symm.trans hresolve'))
  obtain rfl := Statement.typedef.inj hsame
  exact Prod.ext hdoc (FieldType.identifier.inj (htype.symm.trans htype'))

/-- Only a type name leads to another name. -/
theorem not_leads (h : ∀ t decl, s.resolve? x.1 x.2 ≠ some (.typedef t, decl))
    (y : Document × String) : ¬ s.Leads x y := by
  rintro ⟨t, hresolve, -⟩
  exact h t y.1 hresolve

theorem aliased?_eq_some_iff : s.aliased? x = some y ↔ s.Leads x y ∧ y.2 ≠ x.2 := by
  constructor
  · intro h
    obtain ⟨t, hresolve, htype, hne⟩ := aliased?_eq_some h
    exact ⟨⟨t, hresolve, htype⟩, hne⟩
  · rintro ⟨⟨t, hresolve, htype⟩, hne⟩
    simp only [aliased?, hresolve, htype, if_neg hne]

/-- What a chain comes to has no way back to itself if the chain ends. -/
theorem Ends.not_cycle (h : s.Ends x) (hxy : Relation.ReflTransGen s.Leads x y) :
    ¬ Relation.TransGen s.Leads y y := by
  obtain ⟨z, hxz, hlast⟩ := h
  have hunique : Relator.RightUnique s.Leads := fun _ _ _ h h' => h.unique h'
  have hyz : Relation.ReflTransGen s.Leads y z := by
    rcases Relation.ReflTransGen.total_of_right_unique hunique hxy hxz with hyz | hzy
    · exact hyz
    · rcases hzy.cases_head with rfl | ⟨w, hstep, -⟩
      · exact .refl
      · exact absurd hstep (hlast w)
  clear hxy hxz
  -- a cycle goes through the next name too, and so on to the last one, which has no next
  induction hyz using Relation.ReflTransGen.head_induction_on with
  | refl =>
      intro hcycle
      obtain ⟨w, hstep, -⟩ := Relation.TransGen.head'_iff.mp hcycle
      exact hlast w hstep
  | head hstep _ ih =>
      intro hcycle
      obtain ⟨w, hstep', hback⟩ := Relation.TransGen.head'_iff.mp hcycle
      obtain rfl := hstep.unique hstep'
      exact ih (.tail' hback hstep)

/-! ## What is reported -/

theorem reachesEnum_of_leads (h : s.Leads x y) : s.ReachesEnum x ↔ s.ReachesEnum y := by
  constructor
  · rintro ⟨z, e, T, hxz, henum⟩
    rcases hxz.cases_head with rfl | ⟨w, hstep, hwz⟩
    · obtain ⟨t, hresolve, -⟩ := h
      cases (Prod.mk.inj (Option.some.inj (hresolve.symm.trans henum))).1
    · obtain rfl := h.unique hstep
      exact ⟨z, e, T, hwz, henum⟩
  · rintro ⟨z, e, T, hyz, henum⟩
    exact ⟨z, e, T, .head h hyz, henum⟩

theorem respelled_of_leads (h : s.Leads x y) : s.Respelled x ↔ y.2 ≠ x.2 ∧ s.Respelled y := by
  constructor
  · exact fun hall => ⟨hall x y .refl h, fun v w hv hstep => hall v w (.head h hv) hstep⟩
  · rintro ⟨hne, hall⟩ v w hv hstep
    rcases hv.cases_head with rfl | ⟨u, hfirst, hrest⟩
    · obtain rfl := h.unique hstep
      exact hne
    · obtain rfl := h.unique hfirst
      exact hall v w hrest hstep

/-- A name that leads nowhere is an enumeration itself or leads to none. -/
theorem reachesEnum_of_not_leads (h : ∀ y, ¬ s.Leads x y) :
    s.ReachesEnum x ↔ ∃ e T, s.resolve? x.1 x.2 = some (.enum e, T) := by
  constructor
  · rintro ⟨z, e, T, hxz, henum⟩
    rcases hxz.cases_head with rfl | ⟨w, hstep, -⟩
    · exact ⟨e, T, henum⟩
    · exact absurd hstep (h w)
  · rintro ⟨e, T, henum⟩
    exact ⟨x, e, T, .refl, henum⟩

theorem respelled_of_not_leads (h : ∀ y, ¬ s.Leads x y) : s.Respelled x := by
  intro v w hv hstep
  rcases hv.cases_head with rfl | ⟨u, hfirst, -⟩
  · exact absurd hstep (h w)
  · exact absurd hfirst (h u)

/-- A search that comes to an end reports an enumeration exactly if the chain ends at one and
is spelled anew at each step. -/
theorem Resolves.enum_iff {r : Option Typescript.Resolved} (h : s.Resolves D name r) :
    (r.map (·.enum)).getD false = true ↔
      s.ReachesEnum (D, name) ∧ s.Respelled (D, name) := by
  induction h with
  | @nothing d name h =>
      have hnowhere : ∀ y, ¬ s.Leads (d, name) y := not_leads fun t decl hresolve => by
        cases h _ _ hresolve
      have hnone : ¬ s.ReachesEnum (d, name) := by
        rw [reachesEnum_of_not_leads hnowhere]
        rintro ⟨e, T, henum⟩
        cases h _ _ henum
      simp [hnone]
  | @struct d decl name x h =>
      have hnowhere : ∀ y, ¬ s.Leads (d, name) y := not_leads (by simp [h])
      have hnone : ¬ s.ReachesEnum (d, name) := by
        rw [reachesEnum_of_not_leads hnowhere]
        simp [h]
      simp [hnone]
  | @enum d decl name e h =>
      have hnowhere : ∀ y, ¬ s.Leads (d, name) y := not_leads (by simp [h])
      have hreached : s.ReachesEnum (d, name) :=
        (reachesEnum_of_not_leads hnowhere).mpr ⟨e, decl, h⟩
      simp [hreached, respelled_of_not_leads hnowhere]
  | @typedef d decl name t h hlast =>
      have hnone : ¬ (s.ReachesEnum (d, name) ∧ s.Respelled (d, name)) := by
        rintro ⟨hreached, hspelled⟩
        have hnowhere : ∀ y, ¬ s.Leads (d, name) y := fun y hstep => by
          have hnext := aliased?_eq_some_iff.mpr ⟨hstep, hspelled _ y .refl hstep⟩
          rw [hlast] at hnext
          cases hnext
        obtain ⟨e, T, henum⟩ := (reachesEnum_of_not_leads hnowhere).mp hreached
        simp [h] at henum
      simp [hnone]
  | @«alias» d decl name next t r h hnext hrest ih =>
      obtain ⟨hstep, hne⟩ := aliased?_eq_some_iff.mp hnext
      rw [reachesEnum_of_leads hstep, respelled_of_leads hstep, and_iff_right hne, ← ih]
      simp

/-- What the resolver reports as an enumeration. In the table of any collected documents, for
any document and any name from which following type names comes to an end, the resolver
reports an enumeration exactly if the chain of type names ends at one and no type name on it
stands for a name that is spelled like the one by which it was reached. -/
theorem resolver_enum_iff (docs : List Document) (D : Document) (name : String)
    (hends : (ofDocs docs).Ends (D, name)) :
    (∃ r, (ofDocs docs).resolver D name = some r ∧ r.enum = true) ↔
      (ofDocs docs).ReachesEnum (D, name) ∧ (ofDocs docs).Respelled (D, name) := by
  have hsteps : ∀ y z, (ofDocs docs).aliased? y = some z → (ofDocs docs).Leads y z :=
    fun y z h => (aliased?_eq_some_iff.mp h).1
  have hresolves : (ofDocs docs).Resolves D name ((ofDocs docs).resolver D name) := by
    refine resolves_resolver_of_acyclic (keyed_ofDocs docs) fun y hy hcycle => ?_
    exact hends.not_cycle (Relation.ReflTransGen.mono hsteps _ _ hy)
      (Relation.TransGen.mono hsteps _ _ hcycle)
  rw [← hresolves.enum_iff]
  cases (ofDocs docs).resolver D name <;> simp

/-! Two files of one stem: the outer one names the enumeration of the inner one anew. -/

def innerFile : Document :=
  { path := "/d/b.thrift", dialect := .thrift, statements := [.enum { name := "E" }] }

def outerFile : Document :=
  { path := "/b.thrift", dialect := .thrift, includes := ["d/b.thrift"],
    statements := [.typedef { name := "E", type := .identifier "b.E" }] }

def usingFile : Document := { path := "/a.thrift", dialect := .thrift, includes := ["b.thrift"] }

/-- What `b.E` means in the outer file: it leads no further. -/
theorem resolve?_outerFile :
    (ofDocs [usingFile, outerFile, innerFile]).resolve? outerFile "b.E" =
      some (.enum { name := "E" }, innerFile) :=
  rfl

theorem not_leads_outerFile (y : Document × String) :
    ¬ (ofDocs [usingFile, outerFile, innerFile]).Leads (outerFile, "b.E") y :=
  not_leads (by simp [resolve?_outerFile]) y

theorem resolver_enum_iff_outerFile :
    let s := ofDocs [usingFile, outerFile, innerFile]
    s.Ends (outerFile, "E") ∧ ∃ r, s.resolver outerFile "E" = some r ∧ r.enum = true := by
  intro s
  have hstep : s.Leads (outerFile, "E") (outerFile, "b.E") :=
    ⟨{ name := "E", type := .identifier "b.E" }, rfl, rfl⟩
  have hends : s.Ends (outerFile, "E") := ⟨_, .single hstep, not_leads_outerFile⟩
  refine ⟨hends, (resolver_enum_iff _ _ _ hends).mpr ⟨?_, ?_⟩⟩
  · exact ⟨_, { name := "E" }, innerFile, .single hstep, resolve?_outerFile⟩
  · exact (respelled_of_leads hstep).mpr ⟨by decide, respelled_of_not_leads not_leads_outerFile⟩

/-- From a file that includes the outer one, `b.E` means a type name for `b.E`, which from
there means the enumeration: the chain ends at it, but the resolver does not report it. -/
theorem enum_missed_behind_spelling :
    let s := ofDocs [usingFile, outerFile, innerFile]
    s.Ends (usingFile, "b.E") ∧ s.ReachesEnum (usingFile, "b.E") ∧
      s.resolver usingFile "b.E" = some { name := "E", enum := false } := by
  intro s
  have hstep : s.Leads (usingFile, "b.E") (outerFile, "b.E") :=
    ⟨{ name := "E", type := .identifier "b.E" }, rfl, rfl⟩
  refine ⟨⟨_, .single hstep, not_leads_outerFile⟩, ?_, rfl⟩
  exact ⟨_, { name := "E" }, innerFile, .single hstep, resolve?_outerFile⟩

end Symbols
end ClientGen
