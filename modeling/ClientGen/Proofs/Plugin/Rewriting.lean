import ClientGen.Plugin.Rewriting
import ClientGen.Proofs.Files.Path
import ClientGen.Proofs.Pipeline.Scheduling

/-! # Plugins that rewrite documents

Three plugins change the documents of a run before anything is generated: included
paths are spelled out, services are renamed, and fields are left out. Each keeps to
its own part of a document (`Within`), whatever else is loaded with it.

Running them again changes nothing. Each plugin leaves documents that are settled for
it: another run of its handler would keep them. What is settled for one plugin depends
on its own part alone, so the other plugins leave it settled, and after one run of the
hook everything is settled for every plugin that is loaded, in whatever order.
-/

namespace ClientGen
namespace Plugin

open Pipeline
open Source (Failure)

/-! ## Programs -/

inductive Rewriter where
  | includes | aliases | fieldFilter
deriving DecidableEq, Repr

/-- A program that rewrites documents: which plugins are loaded, in order, and what they
are given. -/
structure Rewriting where
  kinds : List Rewriter
  kinds_ne_nil : kinds ≠ []
  nodup_kinds : kinds.Nodup
  slot : Nat
  table : Table String
  patterns : List String
  valid_patterns : ∀ p ∈ patterns, Glob.valid p = true

namespace Rewriting

variable (w : Rewriting)

def plugin : Rewriter → Except Failure (Plugin Stage)
  | .includes => .ok Plugin.includes
  | .aliases => .ok (Plugin.aliases w.slot w.table)
  | .fieldFilter => Plugin.fieldFilter w.patterns

def bus : Except Failure (Bus Stage) := do
  let plugins ← w.kinds.mapM w.plugin
  Bus.ofPlugins plugins

def step : Rewriter → EntryContext → Run → EntryContext × Run
  | .includes, c, r =>
    ({ c with documents := c.documents.map includesOf },
      { r with warnings := r.warnings ++ c.documents.flatMap includeWarnings })
  | .aliases, c, r =>
    ({ c with documents := (renameDocuments w.slot w.table r.renamed 0 c.documents).1 },
      { r with renamed := (renameDocuments w.slot w.table r.renamed 0 c.documents).2 })
  | .fieldFilter, c, r => ({ c with documents := c.documents.map (filterDocument w.patterns) }, r)

/-- The handlers of some kinds, one after the other. -/
def steps (ks : List Rewriter) (c : EntryContext) (r : Run) : EntryContext × Run :=
  ks.foldl (fun st k => w.step k st.1 st.2) (c, r)

end Rewriting

/-- Triggers the stage before generation several times, each time on what the time
before left. -/
def triggerTimes (b : Bus Stage) : Nat → EntryContext → Run → Except Failure EntryContext × Run
  | 0, c, r => (.ok c, r)
  | n + 1, c, r =>
    match Stage.runParseEntry b c r with
    | (.ok c, r) => triggerTimes b n c r
    | (.error f, r) => (.error f, r)

/-! ## Lanes -/

/-- A statement may differ from another in what some kinds are allowed to change: the
name of a service, and the fields of a structure, some of which may be missing. -/
inductive StatementWithin (allowed : List Rewriter) : Statement → Statement → Prop where
  | service {s s' : Service} (hrest : s' = { s with name := s'.name })
      (hname : .aliases ∉ allowed → s'.name = s.name) :
      StatementWithin allowed (.service s) (.service s')
  | struct {s s' : Struct} (hrest : s' = { s with fields := s'.fields })
      (hfields : s'.fields.Sublist s.fields)
      (hkept : .fieldFilter ∉ allowed → s'.fields = s.fields) :
      StatementWithin allowed (.struct s) (.struct s')
  | enum (e : Enum) : StatementWithin allowed (.enum e) (.enum e)
  | typedef (t : Typedef) : StatementWithin allowed (.typedef t) (.typedef t)
  | const (c : Constant) : StatementWithin allowed (.const c) (.const c)

/-- A document may differ from another in what some kinds are allowed to change: the
included paths, and the statements. -/
structure DocumentWithin (allowed : List Rewriter) (d d' : Document) : Prop where
  rest : d' = { d with includes := d'.includes, statements := d'.statements }
  includes : .includes ∉ allowed → d'.includes = d.includes
  statements : List.Forall₂ (StatementWithin allowed) d.statements d'.statements

/-- Documents that differ only in what some kinds are allowed to change. -/
def Within (allowed : List Rewriter) (docs docs' : List Document) : Prop :=
  List.Forall₂ (DocumentWithin allowed) docs docs'

section Lanes

variable {allowed more : List Rewriter}

namespace StatementWithin

theorem refl (st : Statement) : StatementWithin allowed st st := by
  cases st with
  | service s => exact .service rfl fun _ => rfl
  | struct s => exact .struct rfl (List.Sublist.refl _) fun _ => rfl
  | enum e => exact .enum e
  | typedef t => exact .typedef t
  | const c => exact .const c

theorem trans {a b c : Statement} (h : StatementWithin allowed a b)
    (h' : StatementWithin allowed b c) : StatementWithin allowed a c := by
  cases h with
  | service hrest hname =>
      cases h' with
      | service hrest' hname' =>
          refine .service ?_ fun hk => (hname' hk).trans (hname hk)
          rw [hrest', hrest]
  | struct hrest hfields hkept =>
      cases h' with
      | struct hrest' hfields' hkept' =>
          refine .struct ?_ (hfields'.trans hfields) fun hk => (hkept' hk).trans (hkept hk)
          rw [hrest', hrest]
  | enum e => exact h'
  | typedef t => exact h'
  | const c => exact h'

theorem mono {a b : Statement} (hsub : allowed ⊆ more) (h : StatementWithin allowed a b) :
    StatementWithin more a b := by
  cases h with
  | service hrest hname => exact .service hrest fun hk => hname fun hmem => hk (hsub hmem)
  | struct hrest hfields hkept =>
      exact .struct hrest hfields fun hk => hkept fun hmem => hk (hsub hmem)
  | enum e => exact .enum e
  | typedef t => exact .typedef t
  | const c => exact .const c

end StatementWithin

theorem forall₂_trans {α : Type} {R : α → α → Prop} (hR : ∀ {a b c}, R a b → R b c → R a c)
    {xs ys zs : List α} (h : List.Forall₂ R xs ys) (h' : List.Forall₂ R ys zs) :
    List.Forall₂ R xs zs := by
  induction h generalizing zs with
  | nil => exact h'
  | cons hab _ ih =>
      cases h' with
      | cons hbc hrest => exact .cons (hR hab hbc) (ih hrest)

theorem forall_of_forall₂ {α : Type} {R : α → α → Prop} {P : α → Prop}
    (hR : ∀ {a b}, R a b → P a → P b) {xs ys : List α} (h : List.Forall₂ R xs ys)
    (hxs : ∀ x ∈ xs, P x) : ∀ y ∈ ys, P y := by
  induction h with
  | nil => simp
  | cons hab _ ih =>
      obtain ⟨ha, hrest⟩ := List.forall_mem_cons.mp hxs
      exact List.forall_mem_cons.mpr ⟨hR hab ha, ih hrest⟩

namespace Within

theorem refl (docs : List Document) : Within allowed docs docs := by
  apply List.forall₂_same.mpr
  intro d _
  exact ⟨rfl, fun _ => rfl, List.forall₂_same.mpr fun st _ => .refl st⟩

theorem trans {docs docs' docs'' : List Document} (h : Within allowed docs docs')
    (h' : Within allowed docs' docs'') : Within allowed docs docs'' := by
  refine forall₂_trans ?_ h h'
  intro d d' d'' hd hd'
  refine ⟨?_, fun hk => (hd'.includes hk).trans (hd.includes hk),
    forall₂_trans (fun hst hst' => hst.trans hst') hd.statements hd'.statements⟩
  rw [hd'.rest, hd.rest]

theorem mono {docs docs' : List Document} (hsub : allowed ⊆ more) (h : Within allowed docs docs') :
    Within more docs docs' := by
  refine h.imp ?_
  intro d d' hd
  exact ⟨hd.rest, fun hk => hd.includes fun hmem => hk (hsub hmem),
    hd.statements.imp fun _ _ hst => hst.mono hsub⟩

end Within

end Lanes

/-! ## Included paths -/

theorem within_includes (docs : List Document) :
    Within [.includes] docs (docs.map includesOf) := by
  rw [Within, List.forall₂_map_right_iff, List.forall₂_same]
  intro d _
  exact ⟨rfl, by simp, List.forall₂_same.mpr fun st _ => .refl st⟩

theorem spellIncludes_of_mem {seen : List String} {p : String} (h : Target.relative p ∈ seen)
    (rest : List String) : (spellIncludes seen (p :: rest)).1 = (spellIncludes seen rest).1 := by
  simp [spellIncludes, h]

theorem spellIncludes_of_not_mem {seen : List String} {p : String} (h : Target.relative p ∉ seen)
    (rest : List String) : spellIncludes seen (p :: rest) =
      (Target.relative p :: (spellIncludes (Target.relative p :: seen) rest).1,
        (spellIncludes (Target.relative p :: seen) rest).2) := by
  simp [spellIncludes, h]

/-- Distinct paths that are spelled out are kept. -/
theorem spellIncludes_of_spelled {seen paths : List String}
    (hspelled : ∀ p ∈ paths, Target.relative p = p) (hnodup : paths.Nodup)
    (hnew : ∀ p ∈ paths, p ∉ seen) : spellIncludes seen paths = (paths, []) := by
  induction paths generalizing seen with
  | nil => rfl
  | cons p rest ih =>
      have hp : Target.relative p = p := hspelled p List.mem_cons_self
      have hfresh : Target.relative p ∉ seen := by
        rw [hp]
        exact hnew p List.mem_cons_self
      obtain ⟨hpnot, hrest⟩ := List.nodup_cons.mp hnodup
      have hkept : spellIncludes (p :: seen) rest = (rest, []) := by
        apply ih (fun q hq => hspelled q (List.mem_cons_of_mem p hq)) hrest
        intro q hq hmem
        rcases List.mem_cons.mp hmem with rfl | hmem
        · exact hpnot hq
        · exact hnew q (List.mem_cons_of_mem p hq) hmem
      rw [spellIncludes_of_not_mem hfresh, hp, hkept]

/-- The kept paths are spelled out, distinct, and none of those that were met. -/
theorem spelled_spellIncludes (seen paths : List String) :
    (∀ p ∈ (spellIncludes seen paths).1, Target.relative p = p) ∧
      (spellIncludes seen paths).1.Nodup ∧ ∀ p ∈ (spellIncludes seen paths).1, p ∉ seen := by
  induction paths generalizing seen with
  | nil => simp [spellIncludes]
  | cons p rest ih =>
      by_cases hseen : Target.relative p ∈ seen
      · rw [spellIncludes_of_mem hseen]
        exact ih seen
      · obtain ⟨hspelled, hnodup, hnew⟩ := ih (Target.relative p :: seen)
        rw [spellIncludes_of_not_mem hseen]
        refine ⟨?_, ?_, ?_⟩
        · intro q hq
          rcases List.mem_cons.mp hq with rfl | hq
          · exact Target.relative_relative p
          · exact hspelled q hq
        · refine List.nodup_cons.mpr ⟨fun hmem => ?_, hnodup⟩
          exact hnew _ hmem List.mem_cons_self
        · intro q hq
          rcases List.mem_cons.mp hq with rfl | hq
          · exact hseen
          · exact fun hmem => hnew q hq (List.mem_cons_of_mem _ hmem)

/-- Just the new paths are kept, once they are spelled out. -/
theorem mem_spellIncludes {seen paths : List String} {q : String} :
    q ∈ (spellIncludes seen paths).1 ↔ q ∉ seen ∧ ∃ p ∈ paths, Target.relative p = q := by
  induction paths generalizing seen with
  | nil => simp [spellIncludes]
  | cons p rest ih =>
      by_cases hseen : Target.relative p ∈ seen
      · have hq : q ∉ seen → Target.relative p ≠ q := by
          rintro hq rfl
          exact hq hseen
        rw [spellIncludes_of_mem hseen, ih, List.exists_mem_cons_iff]
        refine and_congr_right fun hnew => ?_
        simp [hq hnew]
      · rw [spellIncludes_of_not_mem hseen, List.mem_cons, ih, List.mem_cons,
          List.exists_mem_cons_iff]
        by_cases hq : Target.relative p = q
        · subst hq
          simp [hseen]
        · simp [hq, Ne.symm hq]

theorem includesOf_includesOf (d : Document) : includesOf (includesOf d) = includesOf d := by
  obtain ⟨hspelled, hnodup, hnew⟩ := spelled_spellIncludes [] d.includes
  have hagain := spellIncludes_of_spelled hspelled hnodup hnew
  unfold includesOf
  rw [hagain]

theorem includesOf_of_within {allowed : List Rewriter} {d d' : Document}
    (h : DocumentWithin allowed d d') (hk : .includes ∉ allowed) (hd : includesOf d = d) :
    includesOf d' = d' := by
  have hincludes : (spellIncludes [] d.includes).1 = d.includes := congrArg Document.includes hd
  unfold includesOf
  rw [h.includes hk, hincludes, ← h.includes hk]

/-! ## Fields -/

theorem within_fieldFilter (patterns : List String) (docs : List Document) :
    Within [.fieldFilter] docs (docs.map (filterDocument patterns)) := by
  rw [Within, List.forall₂_map_right_iff, List.forall₂_same]
  intro d _
  refine ⟨rfl, fun _ => rfl, ?_⟩
  rw [filterDocument, List.forall₂_map_right_iff, List.forall₂_same]
  intro st _
  cases st with
  | struct s => exact .struct rfl List.filter_sublist (by simp)
  | service s => exact .refl _
  | enum e => exact .refl _
  | typedef t => exact .refl _
  | const c => exact .refl _

theorem filterStatement_filterStatement (patterns : List String) (st : Statement) :
    filterStatement patterns (filterStatement patterns st) = filterStatement patterns st := by
  cases st with
  | struct s =>
      -- Whether a field is left out depends on the name of the structure only.
      have hname : ∀ fields f, excluded patterns { s with fields } f = excluded patterns s f :=
        fun _ _ => rfl
      simp [filterStatement, hname, List.filter_filter]
  | service s => rfl
  | enum e => rfl
  | typedef t => rfl
  | const c => rfl

theorem filterDocument_filterDocument (patterns : List String) (d : Document) :
    filterDocument patterns (filterDocument patterns d) = filterDocument patterns d := by
  unfold filterDocument
  rw [List.map_map]
  congr 1
  apply List.map_congr_left
  intro st _
  exact filterStatement_filterStatement patterns st

theorem filterStatements_of_within {allowed : List Rewriter} {patterns : List String}
    (hk : .fieldFilter ∉ allowed) {sts sts' : List Statement}
    (h : List.Forall₂ (StatementWithin allowed) sts sts')
    (hsts : sts.map (filterStatement patterns) = sts) :
    sts'.map (filterStatement patterns) = sts' := by
  induction h with
  | nil => rfl
  | cons hst _ ih =>
      obtain ⟨hhead, htail⟩ := List.cons.inj hsts
      rw [List.map_cons, ih htail]
      congr 1
      cases hst with
      | struct hrest _ hkept =>
          rw [hrest, hkept hk]
          exact hhead
      | service _ _ => rfl
      | enum e => rfl
      | typedef t => rfl
      | const c => rfl

theorem filterDocument_of_within {allowed : List Rewriter} {patterns : List String}
    {d d' : Document} (h : DocumentWithin allowed d d') (hk : .fieldFilter ∉ allowed)
    (hd : filterDocument patterns d = d) : filterDocument patterns d' = d' := by
  have hsts := filterStatements_of_within hk h.statements (congrArg Document.statements hd)
  unfold filterDocument
  rw [hsts]

/-! ## Services -/

section Services

variable {aliases : Table String} {place : Nat → Nat × Nat × Nat}
  {done more : List (Nat × Nat × Nat)}

/-- No service among some statements is still to be renamed: each was renamed, or has no
other name. -/
def AtRest (aliases : Table String) (place : Nat → Nat × Nat × Nat)
    (done : List (Nat × Nat × Nat)) : Nat → List Statement → Prop
  | _, [] => True
  | n, .service s :: rest =>
    (place n ∈ done ∨ newName? aliases s = none) ∧ AtRest aliases place done (n + 1) rest
  | n, _ :: rest => AtRest aliases place done (n + 1) rest

/-- No service of some documents, which are numbered from `n` on, is still to be renamed. -/
def AllAtRest (slot : Nat) (aliases : Table String) (done : List (Nat × Nat × Nat)) :
    Nat → List Document → Prop
  | _, [] => True
  | n, d :: rest =>
    AtRest aliases (fun k => (slot, n, k)) done 0 d.statements ∧
      AllAtRest slot aliases done (n + 1) rest

theorem atRest_cons {n : Nat} {st : Statement} {rest : List Statement}
    (hst : ∀ s, st = .service s → False) :
    AtRest aliases place done n (st :: rest) ↔ AtRest aliases place done (n + 1) rest := by
  cases st with
  | service s => exact (hst s rfl).elim
  | struct s => exact Iff.rfl
  | enum e => exact Iff.rfl
  | typedef t => exact Iff.rfl
  | const c => exact Iff.rfl

theorem renameStatements_of_atRest {n : Nat} {sts : List Statement}
    (h : AtRest aliases place done n sts) :
    renameStatements aliases place done n sts = (sts, done) := by
  fun_induction AtRest aliases place done n sts with
  | case1 n => rfl
  | case2 n s rest ih =>
      obtain ⟨hs, hrest⟩ := h
      have hnone : (if place n ∈ done then none else newName? aliases s) = none := by
        rcases hs with hmem | hname
        · rw [if_pos hmem]
        · rw [hname, ite_self]
      simp [renameStatements, hnone, ih hrest]
  | case3 n st rest hst ih =>
      simp [renameStatements, ih h]

theorem subset_renameStatements (n : Nat) (sts : List Statement) :
    done ⊆ (renameStatements aliases place done n sts).2 := by
  fun_induction renameStatements aliases place done n sts with
  | case1 done n => exact fun _ h => h
  | case2 done n s rest name hname rest' done' hrun ih =>
      rw [hrun] at ih
      exact fun x hx => ih (List.mem_cons_of_mem _ hx)
  | case3 done n s rest hname rest' done' hrun ih =>
      rw [hrun] at ih
      exact ih
  | case4 done n st rest hst rest' done' hrun ih =>
      rw [hrun] at ih
      exact ih

/-- Later on more places may be in the list, as services of other documents are renamed. -/
theorem atRest_renameStatements {n : Nat} {sts : List Statement}
    (hmore : (renameStatements aliases place done n sts).2 ⊆ more) :
    AtRest aliases place more n (renameStatements aliases place done n sts).1 := by
  fun_induction renameStatements aliases place done n sts with
  | case1 done n => trivial
  | case2 done n s rest name hname rest' done' hrun ih =>
      have hkept : place n :: done ⊆
          (renameStatements aliases place (place n :: done) (n + 1) rest).2 :=
        subset_renameStatements (n + 1) rest
      rw [hrun] at ih hkept
      exact ⟨.inl (hmore (hkept List.mem_cons_self)), ih hmore⟩
  | case3 done n s rest hname rest' done' hrun ih =>
      have hkept : done ⊆ (renameStatements aliases place done (n + 1) rest).2 :=
        subset_renameStatements (n + 1) rest
      rw [hrun] at ih hkept
      refine ⟨?_, ih hmore⟩
      by_cases hmem : place n ∈ done
      · exact .inl (hmore (hkept hmem))
      · exact .inr (by simpa [hmem] using hname)
  | case4 done n st rest hst rest' done' hrun ih =>
      rw [hrun] at ih
      exact (atRest_cons hst).mpr (ih hmore)

theorem within_renameStatements (n : Nat) (sts : List Statement) :
    List.Forall₂ (StatementWithin [.aliases]) sts (renameStatements aliases place done n sts).1 := by
  fun_induction renameStatements aliases place done n sts with
  | case1 done n => exact .nil
  | case2 done n s rest name hname rest' done' hrun ih =>
      rw [hrun] at ih
      exact .cons (.service rfl (by simp)) ih
  | case3 done n s rest hname rest' done' hrun ih =>
      rw [hrun] at ih
      exact .cons (.refl _) ih
  | case4 done n st rest hst rest' done' hrun ih =>
      rw [hrun] at ih
      exact .cons (.refl _) ih

theorem AtRest.within {allowed : List Rewriter} (hk : .aliases ∉ allowed) {n : Nat}
    {sts sts' : List Statement} (h : AtRest aliases place done n sts)
    (hsts : List.Forall₂ (StatementWithin allowed) sts sts') :
    AtRest aliases place done n sts' := by
  induction hsts generalizing n with
  | nil => trivial
  | cons hst _ ih =>
      cases hst with
      | service hrest hname =>
          rw [hrest, hname hk]
          exact ⟨h.1, ih h.2⟩
      | struct _ _ _ => exact ih (n := n + 1) h
      | enum e => exact ih (n := n + 1) h
      | typedef t => exact ih (n := n + 1) h
      | const c => exact ih (n := n + 1) h

/-! The same for documents. -/

variable {slot : Nat}

theorem renameDocuments_of_atRest {n : Nat} {docs : List Document}
    (h : AllAtRest slot aliases done n docs) :
    renameDocuments slot aliases done n docs = (docs, done) := by
  induction docs generalizing n with
  | nil => rfl
  | cons d rest ih =>
      simp [renameDocuments, renameStatements_of_atRest h.1, ih h.2]

theorem subset_renameDocuments (n : Nat) (docs : List Document) :
    done ⊆ (renameDocuments slot aliases done n docs).2 := by
  induction docs generalizing done n with
  | nil => exact fun _ h => h
  | cons d rest ih =>
      exact fun x hx => ih (n + 1) (subset_renameStatements 0 d.statements hx)

theorem atRest_renameDocuments {n : Nat} {docs : List Document}
    (hmore : (renameDocuments slot aliases done n docs).2 ⊆ more) :
    AllAtRest slot aliases more n (renameDocuments slot aliases done n docs).1 := by
  induction docs generalizing done n with
  | nil => trivial
  | cons d rest ih =>
      refine ⟨atRest_renameStatements fun x hx => hmore ?_, ih hmore⟩
      exact subset_renameDocuments (n + 1) rest hx

theorem within_renameDocuments (n : Nat) (docs : List Document) :
    Within [.aliases] docs (renameDocuments slot aliases done n docs).1 := by
  induction docs generalizing done n with
  | nil => exact .nil
  | cons d rest ih =>
      exact .cons ⟨rfl, fun _ => rfl, within_renameStatements 0 d.statements⟩ (ih (n + 1))

theorem AllAtRest.within {allowed : List Rewriter} (hk : .aliases ∉ allowed) {n : Nat}
    {docs docs' : List Document} (h : AllAtRest slot aliases done n docs)
    (hdocs : Within allowed docs docs') : AllAtRest slot aliases done n docs' := by
  induction hdocs generalizing n with
  | nil => trivial
  | cons hd _ ih => exact ⟨h.1.within hk hd.statements, ih h.2⟩

end Services

/-! ## Handlers -/

namespace Rewriting

variable (w : Rewriting)

/-- The handler of a kind would keep these documents, with these places of renamed
services. -/
def Settled (k : Rewriter) (docs : List Document) (renamed : List (Nat × Nat × Nat)) : Prop :=
  match k with
  | .includes => ∀ d ∈ docs, includesOf d = d
  | .aliases => AllAtRest w.slot w.table renamed 0 docs
  | .fieldFilter => ∀ d ∈ docs, filterDocument w.patterns d = d

variable {w} {k k' : Rewriter} {ks : List Rewriter} {c : EntryContext} {r : Run}

theorem step_of_settled (h : w.Settled k c.documents r.renamed) :
    (w.step k c r).1 = c ∧ (w.step k c r).2.renamed = r.renamed := by
  cases k with
  | includes =>
      have hkept : c.documents.map includesOf = c.documents :=
        (List.map_congr_left h).trans (List.map_id' _)
      refine ⟨?_, rfl⟩
      simp only [step, hkept]
  | aliases =>
      have hkept := renameDocuments_of_atRest h
      simp only [step, hkept, and_self]
  | fieldFilter =>
      have hkept : c.documents.map (filterDocument w.patterns) = c.documents :=
        (List.map_congr_left h).trans (List.map_id' _)
      refine ⟨?_, rfl⟩
      simp only [step, hkept]

theorem settled_step : w.Settled k (w.step k c r).1.documents (w.step k c r).2.renamed := by
  cases k with
  | includes =>
      intro d hd
      obtain ⟨d₀, -, rfl⟩ := List.mem_map.mp hd
      exact includesOf_includesOf d₀
  | aliases => exact atRest_renameDocuments fun _ h => h
  | fieldFilter =>
      intro d hd
      obtain ⟨d₀, -, rfl⟩ := List.mem_map.mp hd
      exact filterDocument_filterDocument w.patterns d₀

theorem within_step : Within [k] c.documents (w.step k c r).1.documents := by
  cases k with
  | includes => exact within_includes c.documents
  | aliases => exact within_renameDocuments 0 c.documents
  | fieldFilter => exact within_fieldFilter w.patterns c.documents

/-- A handler changes nothing of the context but the documents. -/
theorem step_rest :
    (w.step k c r).1.output = c.output ∧ (w.step k c r).1.entries = c.entries := by
  cases k <;> exact ⟨rfl, rfl⟩

theorem renamed_step (hk : k ≠ .aliases) : (w.step k c r).2.renamed = r.renamed := by
  cases k with
  | includes => rfl
  | aliases => exact absurd rfl hk
  | fieldFilter => rfl

/-- What is settled for a kind stays so in the lanes of the others. -/
theorem Settled.within {docs docs' : List Document} {renamed : List (Nat × Nat × Nat)}
    (hk : k ∉ ks) (h : w.Settled k docs renamed) (hdocs : Within ks docs docs') :
    w.Settled k docs' renamed := by
  cases k with
  | includes => exact forall_of_forall₂ (fun hd => includesOf_of_within hd hk) hdocs h
  | aliases => exact AllAtRest.within hk h hdocs
  | fieldFilter => exact forall_of_forall₂ (fun hd => filterDocument_of_within hd hk) hdocs h

theorem Settled.step (h : w.Settled k c.documents r.renamed) :
    w.Settled k (w.step k' c r).1.documents (w.step k' c r).2.renamed := by
  by_cases hk : k = k'
  · subst hk
    exact settled_step
  · have hstep : Within [k'] c.documents (w.step k' c r).1.documents := within_step
    have hdocs := h.within (by simpa using hk) hstep
    by_cases halias : k' = .aliases
    · subst halias
      cases k with
      | includes => exact hdocs
      | aliases => exact absurd rfl hk
      | fieldFilter => exact hdocs
    · rw [renamed_step halias]
      exact hdocs

/-! ## Runs -/

theorem Settled.steps (h : w.Settled k c.documents r.renamed) :
    w.Settled k (w.steps ks c r).1.documents (w.steps ks c r).2.renamed := by
  induction ks generalizing c r with
  | nil => exact h
  | cons k' ks ih => exact ih h.step

/-- After a run everything is settled for every kind that took part. -/
theorem settled_steps (hk : k ∈ ks) :
    w.Settled k (w.steps ks c r).1.documents (w.steps ks c r).2.renamed := by
  induction ks generalizing c r with
  | nil => cases hk
  | cons k' ks ih =>
      rcases List.mem_cons.mp hk with rfl | hk
      · have hstep : w.Settled k (w.step k c r).1.documents (w.step k c r).2.renamed :=
          settled_step
        exact hstep.steps
      · exact ih hk

theorem steps_of_settled (h : ∀ k ∈ ks, w.Settled k c.documents r.renamed) :
    (w.steps ks c r).1 = c ∧ (w.steps ks c r).2.renamed = r.renamed := by
  induction ks generalizing r with
  | nil => exact ⟨rfl, rfl⟩
  | cons k ks ih =>
      obtain ⟨hcontext, hrenamed⟩ := step_of_settled (h k List.mem_cons_self)
      have hrest : ∀ k' ∈ ks, w.Settled k' c.documents (w.step k c r).2.renamed := by
        intro k' hk'
        rw [hrenamed]
        exact h k' (List.mem_cons_of_mem k hk')
      obtain ⟨hcontext', hrenamed'⟩ := ih hrest
      have hsteps : w.steps (k :: ks) c r = w.steps ks c (w.step k c r).2 := by
        rw [steps, List.foldl_cons, steps]
        dsimp only
        rw [show w.step k c r = (c, (w.step k c r).2) from Prod.ext hcontext rfl]
      rw [hsteps]
      exact ⟨hcontext', hrenamed'.trans hrenamed⟩

theorem within_steps : Within ks c.documents (w.steps ks c r).1.documents := by
  induction ks generalizing c r with
  | nil => exact .refl _
  | cons k ks ih =>
      have hstep : Within (k :: ks) c.documents (w.step k c r).1.documents :=
        within_step.mono (by simp)
      exact hstep.trans (ih.mono fun _ hk => List.mem_cons_of_mem k hk)

theorem steps_rest : (w.steps ks c r).1 = { c with documents := (w.steps ks c r).1.documents } := by
  induction ks generalizing c r with
  | nil => rfl
  | cons k ks ih =>
      obtain ⟨houtput, hentries⟩ := step_rest (w := w) (k := k) (c := c) (r := r)
      have hrest := ih (c := (w.step k c r).1) (r := (w.step k c r).2)
      rw [houtput, hentries] at hrest
      exact hrest

/-! ## The bus -/

variable (w)

/-- The priority that a kind registers its handler with. -/
def priority : Rewriter → Int
  | .includes => Stage.early
  | .aliases => 0
  | .fieldFilter => 0

def loaded : Rewriter → Plugin Stage
  | .includes => Plugin.includes
  | .aliases => Plugin.aliases w.slot w.table
  | .fieldFilter =>
    { name := "fieldfilter",
      registrations := [(Stage.onDocuments (filterDocument w.patterns)).registration "ON" 0] }

/-- What a kind leaves on the bus. -/
def registration (k : Rewriter) : Registration Stage :=
  { (Stage.onEntries (w.step k)).registration "ON" (priority k) with plugin := (w.loaded k).name }

theorem plugin_eq (k : Rewriter) : w.plugin k = .ok (w.loaded k) := by
  cases k with
  | includes => rfl
  | aliases => rfl
  | fieldFilter =>
      have hvalid : w.patterns.find? (fun p => !Glob.valid p) = none := by
        rw [List.find?_eq_none]
        intro p hp
        simp [w.valid_patterns p hp]
      simp [plugin, fieldFilter, hvalid, loaded]

theorem bus_eq : w.bus = .ok { registrations := w.kinds.map w.registration } := by
  have hplugins : w.kinds.mapM w.plugin = .ok (w.kinds.map w.loaded) := by
    rw [show w.plugin = fun k => pure (w.loaded k) from funext w.plugin_eq]
    exact List.mapM_pure
  have hfailure : ∀ p ∈ w.kinds.map w.loaded, p.failure = none := by
    intro p hp
    obtain ⟨k, -, rfl⟩ := List.mem_map.mp hp
    cases k <;> rfl
  have howned : ∀ k, owned (w.loaded k) = [w.registration k] := by
    intro k
    cases k <;> rfl
  have hregistrations : (w.kinds.map w.loaded).flatMap owned = w.kinds.map w.registration := by
    rw [List.flatMap_map, List.map_eq_flatMap]
    exact List.flatMap_congr fun k _ => howned k
  unfold bus
  rw [hplugins, ← hregistrations]
  exact ofPlugins_eq_ok hfailure

theorem runAll_eq (ks : List Rewriter) (c : EntryContext) (r : Run) :
    Bus.runAll Stage.parseEntry? (ks.map w.registration) c r = (none, w.steps ks c r) := by
  induction ks generalizing c r with
  | nil => rfl
  | cons k ks ih => exact ih (w.step k c r).1 (w.step k c r).2

/-- The kinds in the order in which their handlers run. -/
def order : List Rewriter :=
  w.kinds.mergeSort fun k k' => decide (priority k ≤ priority k')

theorem order_perm : w.order.Perm w.kinds := List.mergeSort_perm _ _

/-- The stage before generation runs the handlers of all kinds that are loaded. -/
theorem runParseEntry_eq (c : EntryContext) (r : Run) :
    Stage.runParseEntry { registrations := w.kinds.map w.registration } c r =
      (.ok (w.steps w.order c r).1, (w.steps w.order c r).2) := by
  have hschedule : Bus.schedule { registrations := w.kinds.map w.registration }
      Stage.parseEntryHook = w.order.map w.registration := by
    rw [schedule_of_on]
    · exact (List.map_mergeSort (f := w.registration) fun _ _ _ _ => rfl).symm
    · intro r hr
      obtain ⟨k, -, rfl⟩ := List.mem_map.mp hr
      rfl
  have hhas : Bus.has { registrations := w.kinds.map w.registration } Stage.parseEntryHook = true := by
    rw [has_iff_schedule, hschedule, ne_eq, List.map_eq_nil_iff]
    intro hnil
    have hkinds := w.order_perm
    rw [hnil] at hkinds
    exact w.kinds_ne_nil (List.nil_perm.mp hkinds)
  unfold Stage.runParseEntry Bus.trigger
  rw [if_pos hhas, hschedule, runAll_eq]
  rfl

end Rewriting

/-- The plugins that rewrite documents run once for all: however often the stage before
generation is triggered, it succeeds and gives the documents of the first time. They
differ from the given ones only in the included paths, the names of services and the
fields of structures, of which some are missing, each only if its plugin is loaded. -/
theorem triggerTimes_rewriting (w : Rewriting) (c : EntryContext) (r : Run) :
    ∃ b docs, w.bus = .ok b ∧ Within w.kinds c.documents docs ∧
      ∀ n, 1 ≤ n → (triggerTimes b n c r).1 = .ok { c with documents := docs } := by
  have hsettled : ∀ k ∈ w.order,
      w.Settled k (w.steps w.order c r).1.documents (w.steps w.order c r).2.renamed :=
    fun k hk => Rewriting.settled_steps hk
  have hwithin : Within w.kinds c.documents (w.steps w.order c r).1.documents :=
    Rewriting.within_steps.mono w.order_perm.subset
  refine ⟨_, _, w.bus_eq, hwithin, ?_⟩
  -- From the first time on the context stays, and so does the list of renamed services.
  have hagain : ∀ n c r, (∀ k ∈ w.order, w.Settled k c.documents r.renamed) →
      (triggerTimes { registrations := w.kinds.map w.registration } n c r).1 = .ok c := by
    intro n
    induction n with
    | zero =>
        intro c r _
        rfl
    | succ n ih =>
        intro c r h
        obtain ⟨hcontext, hrenamed⟩ := Rewriting.steps_of_settled h
        rw [triggerTimes, w.runParseEntry_eq]
        dsimp only
        rw [hcontext]
        apply ih
        rw [hrenamed]
        exact h
  intro n hn
  obtain ⟨m, rfl⟩ : ∃ m, n = m + 1 := ⟨n - 1, by omega⟩
  rw [triggerTimes, w.runParseEntry_eq]
  dsimp only
  rw [hagain m _ _ hsettled]
  exact congrArg Except.ok Rewriting.steps_rest

/-- A program with all three plugins, in which the new name of one service is the old name
of another. -/
def chainedNames : Rewriting where
  kinds := [.includes, .fieldFilter, .aliases]
  kinds_ne_nil := by decide
  nodup_kinds := by decide
  slot := 0
  table := [("A", "B"), ("B", "C")]
  patterns := ["*.secret"]
  valid_patterns := by decide +kernel

def chainedDocument : Document where
  path := "/d.thrift"
  dialect := .thrift
  includes := ["x/../a.thrift", "a.thrift", "../b.thrift"]
  statements :=
    [.service { name := "A" }, .service { name := "B" },
      .struct { name := "S", fields := [{ name := "id" }, { name := "secret" }] }]

/-- The included paths, the names of services and the names of fields of a document. -/
def outline (d : Document) : List String × List String × List (List String) :=
  (d.includes, d.services.map (·.name), d.statements.filterMap fun
    | .struct s => some (s.fields.map (·.name))
    | _ => none)

theorem triggerTimes_rewriting_chain :
    ∃ b, chainedNames.bus = .ok b ∧ ∀ n, 1 ≤ n →
      (triggerTimes b n { documents := [chainedDocument] } {}).1.toOption.map
        (fun c => c.documents.map outline) =
          some [(["./a.thrift", "../b.thrift"], ["B", "C"], [["id"]])] := by
  obtain ⟨b, docs, hb, -, hsame⟩ :=
    triggerTimes_rewriting chainedNames { documents := [chainedDocument] } {}
  refine ⟨b, hb, ?_⟩
  intro n hn
  rw [hsame n hn, ← hsame 1 (Nat.le_refl 1)]
  obtain rfl := Except.ok.inj (chainedNames.bus_eq.symm.trans hb)
  have horder : chainedNames.order = [.includes, .fieldFilter, .aliases] :=
    List.mergeSort_of_pairwise (by decide)
  rw [triggerTimes, chainedNames.runParseEntry_eq, horder]
  decide +kernel

end Plugin
end ClientGen
