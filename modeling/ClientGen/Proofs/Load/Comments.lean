import ClientGen.Proofs.Load.Declarations
import Mathlib.Data.List.Basic
import Mathlib.Data.List.Perm.Basic

/-! # Comments are conserved

The comments of a source fall into runs, and each run goes to one declaration that
it touches, if there is one (`stop_conserves`). Whether trailing comments go back
or forward moves runs between declarations; it neither drops nor adds one.
-/

namespace ClientGen
namespace Source

/-- The comments among some tokens, each with the number of significant tokens
before it. -/
def commentPlaces (all : List Token) : List (Token × Nat) :=
  all.zipIdx.filterMap fun (t, i) =>
    if t.kind.isComment then some (t, (all.take i).countP fun u => u.kind.isSignificant) else none

def CommentRun.places (run : CommentRun) : List (Token × Nat) := run.tokens.map (·, run.before)

/-- What becomes of the comments of some tokens once the declarations are known. -/
structure Conserves (all : List Token) (c : Cursor) (revise : Bool) : Prop where
  /-- The runs hold each comment once, in order, and stand where their comments do. -/
  runs : (CommentRun.group c.comments).flatMap CommentRun.places = commentPlaces all
  nonempty : ∀ run ∈ CommentRun.group c.comments, run.tokens ≠ []
  /-- A declaration gets the runs that are meant for it, once and in order. -/
  attached : ∀ k, attached (attachments c revise) k =
    ((CommentRun.group c.comments).filter fun run => run.target c.decls revise == some k).map
      CommentRun.comment
  /-- The declaration starts with the token after the run or ends with the one before. -/
  lands : ∀ run ∈ CommentRun.group c.comments, ∀ k, run.target c.decls revise = some k →
    ∃ d, c.decls[k]? = some d ∧ (d.first = some run.before ∨ d.stop = run.before)
  dropped : ∀ run ∈ CommentRun.group c.comments, run.target c.decls revise = none ↔
    ∀ d ∈ c.decls, d.first ≠ some run.before ∧ d.stop ≠ run.before

/-! ## Setting aside -/

theorem snd_separate_cons (before : Nat) (line? : Option Int32) (t : Token) (ts : List Token) :
    (Cursor.separate before line? (t :: ts)).2 =
      (if t.kind.isComment then [⟨t, before, line? == some t.span.first.line⟩] else []) ++
        (Cursor.separate (before + if t.kind.isSignificant then 1 else 0)
          (if t.kind.isSignificant then some t.span.last.line else line?) ts).2 := by
  cases hkind : t.kind <;>
    simp [Cursor.separate, hkind, TokenKind.isComment, TokenKind.isSignificant]

theorem places_separate (past ts : List Token) (line? : Option Int32) :
    (Cursor.separate (past.countP fun u => u.kind.isSignificant) line? ts).2.map
        (fun s => (s.token, s.before)) =
      (ts.zipIdx past.length).filterMap fun (t, i) =>
        if t.kind.isComment then
          some (t, ((past ++ ts).take i).countP fun u => u.kind.isSignificant)
        else none := by
  induction ts generalizing past line? with
  | nil => rfl
  | cons t ts ih =>
      have hsplit : past ++ t :: ts = (past ++ [t]) ++ ts := by simp
      have hlength : past.length + 1 = (past ++ [t]).length := by simp
      have hcount : (past.countP fun u => u.kind.isSignificant) +
          (if t.kind.isSignificant then 1 else 0) =
            (past ++ [t]).countP fun u => u.kind.isSignificant := by
        simp [List.countP_append, List.countP_singleton]
      rw [snd_separate_cons, hcount, List.map_append, ih, ← hsplit, List.zipIdx_cons,
        List.filterMap_cons, hlength]
      cases hcomment : t.kind.isComment <;> simp [hcomment]

theorem places_comments (all : List Token) :
    (Cursor.separate 0 none all).2.map (fun s => (s.token, s.before)) = commentPlaces all :=
  places_separate [] all none

/-! ## Runs -/

namespace CommentRun

theorem before_of_continues {run : CommentRun} {s : SetAside} (h : run.continues s = true) :
    run.before = s.before := by
  simp only [continues, Bool.and_eq_true, beq_iff_eq] at h
  exact h.1.2

theorem places_groupAux (open? : Option CommentRun) (cs : List SetAside) :
    (groupAux open? cs).flatMap places =
      open?.toList.flatMap places ++ cs.map fun s => (s.token, s.before) := by
  induction cs generalizing open? with
  | nil => cases open? <;> simp [groupAux]
  | cons s cs ih =>
      cases open? with
      | none => simp [groupAux, ih, places]
      | some run =>
          by_cases hs : run.continues s = true
          · have hbefore := before_of_continues hs
            simp [groupAux, hs, ih, places, hbefore]
          · simp [groupAux, hs, ih, places]

theorem tokens_ne_nil_of_groupAux {open? : Option CommentRun} {cs : List SetAside}
    (hopen : ∀ run ∈ open?, run.tokens ≠ []) : ∀ run ∈ groupAux open? cs, run.tokens ≠ [] := by
  induction cs generalizing open? with
  | nil =>
      intro run hrun
      cases open? with
      | none => simp [groupAux] at hrun
      | some run' =>
          have hsame : run = run' := by simpa [groupAux] using hrun
          exact hopen run (by simp [hsame])
  | cons s cs ih =>
      intro run hrun
      cases open? with
      | none => exact ih (by simp) run hrun
      | some run' =>
          by_cases hs : run'.continues s = true
          · rw [groupAux, if_pos hs] at hrun
            exact ih (by simp) run hrun
          · rw [groupAux, if_neg hs] at hrun
            rcases List.mem_cons.mp hrun with rfl | hrun
            · exact hopen run rfl
            · exact ih (by simp) run hrun

end CommentRun

/-! ## Targets -/

section Targets

variable {decls : List Decl} {i k : Nat}

theorem declStartingAt_eq_some (h : declStartingAt decls i = some k) :
    ∃ d, decls[k]? = some d ∧ d.first = some i := by
  unfold declStartingAt at h
  obtain ⟨j, hj, rfl⟩ := Option.map_eq_some_iff.mp h
  obtain ⟨hlt, hfirst, -⟩ := List.findIdx?_eq_some_iff_getElem.mp hj
  rw [List.length_reverse] at hlt
  rw [List.getElem_reverse] at hfirst
  exact ⟨_, List.getElem?_eq_getElem (by omega), by simpa using hfirst⟩

theorem declStartingAt_eq_none :
    declStartingAt decls i = none ↔ ∀ d ∈ decls, d.first ≠ some i := by
  simp [declStartingAt, List.findIdx?_eq_none_iff]

theorem declEndingBefore_eq_some (h : declEndingBefore decls i = some k) :
    ∃ d, decls[k]? = some d ∧ d.stop = i := by
  unfold declEndingBefore at h
  split at h
  · cases h
  · obtain ⟨hlt, hstop, -⟩ := List.findIdx?_eq_some_iff_getElem.mp h
    exact ⟨_, List.getElem?_eq_getElem hlt, by simpa using hstop⟩

theorem declEndingBefore_eq_none (hpos : ∀ d ∈ decls, 0 < d.stop) :
    declEndingBefore decls i = none ↔ ∀ d ∈ decls, d.stop ≠ i := by
  unfold declEndingBefore
  split
  · rename_i hzero
    subst hzero
    exact ⟨fun _ d hd => Nat.ne_of_gt (hpos d hd), fun _ => rfl⟩
  · simp [List.findIdx?_eq_none_iff]

namespace CommentRun

variable (run : CommentRun) (revise : Bool)

theorem target_cases : run.target decls revise =
      (declEndingBefore decls run.before <|> declStartingAt decls run.before) ∨
    run.target decls revise =
      (declStartingAt decls run.before <|> declEndingBefore decls run.before) := by
  unfold target
  dsimp only
  split
  · exact .inl rfl
  · exact .inr rfl

theorem target_lands (h : run.target decls revise = some k) :
    ∃ d, decls[k]? = some d ∧ (d.first = some run.before ∨ d.stop = run.before) := by
  have hfound : declStartingAt decls run.before = some k ∨
      declEndingBefore decls run.before = some k := by
    rcases run.target_cases revise with htarget | htarget <;> rw [htarget] at h <;>
      cases hstart : declStartingAt decls run.before <;>
      cases hend : declEndingBefore decls run.before <;> simp_all
  rcases hfound with hstart | hend
  · obtain ⟨d, hd, hfirst⟩ := declStartingAt_eq_some hstart
    exact ⟨d, hd, .inl hfirst⟩
  · obtain ⟨d, hd, hstop⟩ := declEndingBefore_eq_some hend
    exact ⟨d, hd, .inr hstop⟩

theorem target_eq_none (hpos : ∀ d ∈ decls, 0 < d.stop) :
    run.target decls revise = none ↔
      ∀ d ∈ decls, d.first ≠ some run.before ∧ d.stop ≠ run.before := by
  have hnone : run.target decls revise = none ↔
      declStartingAt decls run.before = none ∧ declEndingBefore decls run.before = none := by
    rcases run.target_cases revise with htarget | htarget <;> rw [htarget] <;>
      cases declStartingAt decls run.before <;> cases declEndingBefore decls run.before <;> simp
  rw [hnone, declStartingAt_eq_none, declEndingBefore_eq_none hpos]
  exact ⟨fun h d hd => ⟨h.1 d hd, h.2 d hd⟩,
    fun h => ⟨fun d hd => (h d hd).1, fun d hd => (h d hd).2⟩⟩

end CommentRun

end Targets

/-! ## Declarations and their comments -/

theorem attached_filterMap {α : Type} (runs : List α) (target : α → Option Nat) (f : α → Comment)
    (k : Nat) :
    attached (runs.filterMap fun run => (target run).map fun decl => (decl, f run)) k =
      (runs.filter fun run => target run == some k).map f := by
  induction runs with
  | nil => rfl
  | cons run runs ih =>
      unfold attached at ih ⊢
      cases htarget : target run with
      | none => simpa [htarget] using ih
      | some n =>
          by_cases hn : n = k
          · simpa [htarget, hn] using ih
          · simpa [htarget, hn] using ih

theorem flatMap_range_singleton {α : Type} {n k : Nat} (a : α) (h : k < n) :
    ((List.range n).flatMap fun i => if k = i then [a] else []) = [a] := by
  induction n with
  | zero => omega
  | succ n ih =>
      rw [List.range_succ, List.flatMap_append]
      by_cases hk : k = n
      · subst hk
        have hbefore : ((List.range k).flatMap fun i => if k = i then [a] else []) = [] := by
          refine List.flatMap_eq_nil_iff.mpr fun i hi => if_neg ?_
          have hlt := List.mem_range.mp hi
          omega
        simp [hbefore]
      · rw [ih (by omega)]
        simp [hk]

/-- The comments of all declarations are those that go to one, whatever their order. -/
theorem flatMap_attached_perm {all : List (Nat × Comment)} {n : Nat} (h : ∀ x ∈ all, x.1 < n) :
    ((List.range n).flatMap (attached all)).Perm (all.map (·.2)) := by
  induction all with
  | nil =>
      have hnil : attached [] = fun _ => [] := rfl
      simp [hnil]
  | cons x all ih =>
      have hx : x.1 < n := h x List.mem_cons_self
      have hsplit : ∀ k, attached (x :: all) k =
          (if x.1 = k then [x.2] else []) ++ attached all k := by
        intro k
        by_cases hk : x.1 = k <;> simp [attached, hk]
      have hsingle := flatMap_range_singleton x.2 hx
      have hmerge := List.flatMap_append_perm (List.range n)
        (fun k => if x.1 = k then [x.2] else []) (attached all)
      rw [hsingle] at hmerge
      rw [funext hsplit]
      exact hmerge.symm.trans ((ih fun y hy => h y (List.mem_cons_of_mem x hy)).cons x.2)

theorem map_snd_attachments (c : Cursor) (revise : Bool) :
    (attachments c revise).map (·.2) =
      ((CommentRun.group c.comments).filter fun run => (run.target c.decls revise).isSome).map
        CommentRun.comment := by
  unfold attachments
  induction CommentRun.group c.comments with
  | nil => rfl
  | cons run runs ih =>
      cases htarget : run.target c.decls revise with
      | none => simpa [htarget] using ih
      | some k => simpa [htarget] using ih

end Source

namespace Load

open Source

section Tokens

variable (dialect : Dialect) (uri : String) (all : List Token) (r : Reporter) (fatalBefore : Nat)

theorem stop_pos : ∀ d ∈ (stopOf dialect (.ofTokens uri all r fatalBefore)).decls, 0 < d.stop := by
  intro d hd
  obtain ⟨i, -, -, hspan, -⟩ := (nestedIn_stopOf dialect uri all r fatalBefore).spans d hd
  omega

theorem comments_stopOf : (stopOf dialect (.ofTokens uri all r fatalBefore)).comments =
    (Cursor.separate 0 none all).2 :=
  (onward_stopOf dialect (.ofTokens uri all r fatalBefore)).comments

/-- Comments are conserved. For either language, all tokens and the declarations of
their parse: every comment is in one run; a run goes to one declaration at most,
once, and in source order; that declaration starts right after the run or ends
right before it; and a run is dropped only when no declaration does either. The
comments that declarations have are the same ones whether trailing comments go back
or not. -/
theorem stop_conserves :
    (∀ revise, Conserves all (stopOf dialect (.ofTokens uri all r fatalBefore)) revise) ∧
      let c := stopOf dialect (.ofTokens uri all r fatalBefore)
      ((List.range c.decls.length).flatMap (attached (attachments c true))).Perm
        ((List.range c.decls.length).flatMap (attached (attachments c false))) := by
  have hpos := stop_pos dialect uri all r fatalBefore
  have hcomments := comments_stopOf dialect uri all r fatalBefore
  generalize stopOf dialect (.ofTokens uri all r fatalBefore) = c at *
  constructor
  · intro revise
    constructor
    · rw [hcomments, ← places_comments]
      exact CommentRun.places_groupAux none _
    · exact CommentRun.tokens_ne_nil_of_groupAux (by simp)
    · intro k
      exact attached_filterMap _ _ _ k
    · intro run _ k hk
      exact run.target_lands revise hk
    · intro run _
      exact run.target_eq_none revise hpos
  · have hbound : ∀ revise, ∀ x ∈ attachments c revise, x.1 < c.decls.length := by
      intro revise x hx
      obtain ⟨run, -, hrun⟩ := List.mem_filterMap.mp hx
      obtain ⟨k, hk, rfl⟩ := Option.map_eq_some_iff.mp hrun
      obtain ⟨d, hd, -⟩ := run.target_lands revise hk
      exact (List.getElem?_eq_some_iff.mp hd).choose
    -- Which runs go nowhere does not depend on the setting.
    have hsame : (attachments c true).map (·.2) = (attachments c false).map (·.2) := by
      rw [map_snd_attachments, map_snd_attachments]
      refine congrArg _ (List.filter_congr fun run _ => ?_)
      have hnone := (run.target_eq_none true hpos).trans (run.target_eq_none false hpos).symm
      cases htrue : run.target c.decls true <;> cases hfalse : run.target c.decls false <;>
        simp_all
    have htrue := flatMap_attached_perm (hbound true)
    have hfalse := flatMap_attached_perm (hbound false)
    rw [hsame] at htrue
    exact htrue.trans hfalse.symm

end Tokens

end Load
end ClientGen
