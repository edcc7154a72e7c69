import ClientGen.Pipeline.Hook
import Mathlib.Data.List.FinRange
import Mathlib.Data.List.Sort
import Mathlib.Logic.Equiv.Defs

/-! # The order of handlers

A hook runs the handlers that were registered for it, whatever else was registered
before, between and after them. Which one runs when is decided by three things, in
this order: the phase, the priority, and how many calls were made before
(`Precedes`). A run passes the context from each handler to the next and ends with
the first one that cannot go on (`Ends`).

Calls are told apart by their positions, as equal calls may be made twice. The
positions that a hook runs are strictly increasing in the order of `Precedes`, and
this leaves one list only. So two sequences of calls that differ in the order of
unrelated calls give buses that cannot be told apart.
-/

namespace ClientGen
namespace Pipeline

open Source (Failure)

/-! ## Calls -/

inductive Phase where
  | before | on | after
deriving DecidableEq, Repr

namespace Phase

def name : Phase → String
  | before => "BEFORE"
  | on => "ON"
  | after => "AFTER"

/-- The place of a phase among the three. -/
def rank : Phase → Nat
  | before => 0
  | on => 1
  | after => 2

def all : List Phase := [before, on, after]

theorem map_name_all : all.map name = phases := rfl

theorem mem_all (p : Phase) : p ∈ all := by
  cases p <;> decide

theorem pairwise_rank_all : all.Pairwise fun p q => p.rank < q.rank := by
  decide

end Phase

/-- The key tells both the phase and the hook. -/
theorem key_eq_key_iff {p q : Phase} {hook other : String} :
    key p.name hook = key q.name other ↔ p = q ∧ hook = other := by
  constructor
  · intro h
    have hchars := congrArg String.toList h
    cases p <;> cases q <;> simp [key, Phase.name] at hchars ⊢ <;> exact String.toList_inj.mp hchars
  · rintro ⟨rfl, rfl⟩
    rfl

structure Call (η : Type) where
  hook : String
  phase : Phase
  priority : Int
  /-- The plugin that makes the call, empty for none. -/
  plugin : String := ""
  handler : η

namespace Call

variable {η : Type}

def registration (a : Call η) : Registration η :=
  { key := key a.phase.name a.hook, priority := a.priority, plugin := a.plugin,
    handler := a.handler }

/-- What decides, but for the order of calls, when the handler runs. -/
def slot (a : Call η) : String × Phase × Int := (a.hook, a.phase, a.priority)

end Call

/-- The bus after some calls, made in order. -/
def Bus.ofCalls {η : Type} (calls : List (Call η)) : Bus η :=
  calls.foldl (fun b a => b.register a.registration) {}

/-- The handler of one call runs before that of another: in an earlier phase, or else
with a lower priority, or else because its call was made earlier. -/
def Precedes {η : Type} (calls : List (Call η)) (i j : Fin calls.length) : Prop :=
  (calls.get i).phase.rank < (calls.get j).phase.rank ∨
    (calls.get i).phase = (calls.get j).phase ∧
      ((calls.get i).priority < (calls.get j).priority ∨
        (calls.get i).priority = (calls.get j).priority ∧ i < j)

instance {η : Type} (calls : List (Call η)) (i j : Fin calls.length) :
    Decidable (Precedes calls i j) :=
  inferInstanceAs (Decidable (_ ∨ _ ∧ (_ ∨ _ ∧ _)))

/-- The same calls in another order, but those for one hook, phase and priority in the
order that they had. -/
def Reordered {η : Type} (calls calls' : List (Call η)) : Prop :=
  ∃ π : Fin calls.length ≃ Fin calls'.length,
    (∀ i, calls'.get (π i) = calls.get i) ∧
      ∀ i j, (calls.get i).slot = (calls.get j).slot → i < j → π i < π j

/-! ## Sorting by a key -/

section Sorting

variable {α : Type} (weight : α → Int) {l : List α}

theorem decide_key_trans (a b c : α) (hab : decide (weight a ≤ weight b) = true)
    (hbc : decide (weight b ≤ weight c) = true) : decide (weight a ≤ weight c) = true := by
  rw [decide_eq_true_iff] at hab hbc ⊢
  exact hab.trans hbc

theorem decide_key_total (a b : α) :
    (decide (weight a ≤ weight b) || decide (weight b ≤ weight a)) = true := by
  rw [Bool.or_eq_true_iff, decide_eq_true_iff, decide_eq_true_iff]
  exact Int.le_total _ _

/-- Sorting by a key leaves the elements with one key as they are. -/
theorem filter_mergeSort_key (k : Int) :
    (l.mergeSort fun a b => decide (weight a ≤ weight b)).filter (fun a => weight a = k) =
      l.filter fun a => weight a = k := by
  have hequal : (l.filter fun a => weight a = k).Pairwise fun a b =>
      decide (weight a ≤ weight b) = true := by
    apply List.pairwise_of_forall_mem_list
    intro a ha b hb
    have ha : weight a = k := by simpa using (List.mem_filter.mp ha).2
    have hb : weight b = k := by simpa using (List.mem_filter.mp hb).2
    rw [ha, hb]
    exact decide_eq_true (Int.le_refl k)
  have hsub := (List.sublist_mergeSort (decide_key_trans weight) (decide_key_total weight) hequal
    List.filter_sublist).filter fun a => decide (weight a = k)
  rw [List.filter_filter] at hsub
  simp only [Bool.and_self] at hsub
  have hlength := ((List.mergeSort_perm l fun a b => decide (weight a ≤ weight b)).filter
    fun a => decide (weight a = k)).length_eq
  exact (hsub.eq_of_length hlength.symm).symm

/-- Where the keys of two elements are equal, what held of them before sorting holds
after it. -/
theorem pairwise_mergeSort_key {R : α → α → Prop} (h : l.Pairwise R) :
    (l.mergeSort fun a b => decide (weight a ≤ weight b)).Pairwise fun a b =>
      weight a < weight b ∨ weight a = weight b ∧ R a b := by
  have hsorted := List.pairwise_mergeSort (decide_key_trans weight) (decide_key_total weight) l
  apply List.pairwise_of_forall_sublist
  intro a b hsub
  have hle : weight a ≤ weight b := by
    simpa using List.pairwise_iff_forall_sublist.mp hsorted hsub
  by_cases hlt : weight a < weight b
  · exact .inl hlt
  · have heq : weight a = weight b := by omega
    have hfiltered := hsub.filter fun c => decide (weight c = weight b)
    rw [filter_mergeSort_key] at hfiltered
    have hback : [a, b].Sublist l := by
      simpa [heq] using hfiltered.trans List.filter_sublist
    exact .inr ⟨heq, List.pairwise_iff_forall_sublist.mp h hback⟩

end Sorting

/-! ## Positions -/

section Positions

variable {η : Type} (calls : List (Call η)) (hook : String) (p : Phase)

theorem registrations_foldl (b : Bus η) :
    (calls.foldl (fun b a => b.register a.registration) b).registrations =
      b.registrations ++ calls.map Call.registration := by
  induction calls generalizing b with
  | nil => simp
  | cons a calls ih =>
      rw [List.foldl_cons, ih]
      simp [Bus.register]

theorem registrations_ofCalls :
    (Bus.ofCalls calls).registrations = calls.map Call.registration :=
  registrations_foldl calls {}

theorem Precedes.asymm {i j : Fin calls.length} (h : Precedes calls i j) :
    ¬ Precedes calls j i := by
  intro h'
  unfold Precedes at h h'
  by_cases hphase : (calls.get i).phase = (calls.get j).phase
  · rw [hphase] at h h'
    omega
  · have hother : (calls.get j).phase ≠ (calls.get i).phase := fun heq => hphase heq.symm
    simp only [hphase, hother, false_and, or_false] at h h'
    omega

/-- The calls for a phase of a hook, as they were made. -/
def made : List (Fin calls.length) :=
  (List.finRange calls.length).filter fun i =>
    decide ((calls.get i).phase = p ∧ (calls.get i).hook = hook)

/-- The calls for a phase of a hook, as they run. -/
def positions : List (Fin calls.length) :=
  (made calls hook p).mergeSort fun i j =>
    decide ((calls.get i).priority ≤ (calls.get j).priority)

theorem mem_positions {i : Fin calls.length} :
    i ∈ positions calls hook p ↔ (calls.get i).phase = p ∧ (calls.get i).hook = hook := by
  simp [positions, made]

theorem ordered_ofCalls :
    (Bus.ofCalls calls).ordered (key p.name hook) =
      (positions calls hook p).map fun i => (calls.get i).registration := by
  have hmade : (Bus.ofCalls calls).registrations.filter (·.key == key p.name hook) =
      (made calls hook p).map fun i => (calls.get i).registration := by
    have hcalls : calls.map Call.registration =
        (List.finRange calls.length).map fun i => (calls.get i).registration := by
      conv_lhs => rw [← List.map_get_finRange calls]
      rw [List.map_map]
      rfl
    rw [registrations_ofCalls, hcalls, List.filter_map]
    unfold made
    congr 1
    apply List.filter_congr
    intro i _
    rw [Bool.eq_iff_iff]
    simp only [Function.comp_apply, beq_iff_eq, decide_eq_true_eq]
    exact key_eq_key_iff
  rw [Bus.ordered, hmade, positions, List.map_mergeSort]
  intro i _ j _
  rfl

theorem pairwise_positions : (positions calls hook p).Pairwise (Precedes calls) := by
  have hmade : (made calls hook p).Pairwise (· < ·) :=
    (List.pairwise_lt_finRange calls.length).filter _
  have hsorted := pairwise_mergeSort_key (fun i => (calls.get i).priority) hmade
  refine hsorted.imp_of_mem ?_
  intro i j hi hj hpriority
  have hi := ((mem_positions calls hook p).mp hi).1
  have hj := ((mem_positions calls hook p).mp hj).1
  exact .inr ⟨hi.trans hj.symm, hpriority⟩

def order : List (Fin calls.length) := Phase.all.flatMap (positions calls hook)

theorem mem_order {i : Fin calls.length} : i ∈ order calls hook ↔ (calls.get i).hook = hook := by
  unfold order
  rw [List.mem_flatMap]
  constructor
  · rintro ⟨p, -, hi⟩
    exact ((mem_positions calls hook p).mp hi).2
  · intro hhook
    exact ⟨_, Phase.mem_all _, (mem_positions calls hook _).mpr ⟨rfl, hhook⟩⟩

theorem pairwise_order : (order calls hook).Pairwise (Precedes calls) := by
  unfold order
  rw [List.pairwise_flatMap]
  constructor
  · intro p _
    exact pairwise_positions calls hook p
  · refine Phase.pairwise_rank_all.imp ?_
    intro p q hrank i hi j hj
    have hi := ((mem_positions calls hook p).mp hi).1
    have hj := ((mem_positions calls hook q).mp hj).1
    left
    rw [hi, hj]
    exact hrank

theorem schedule_ofCalls :
    (Bus.ofCalls calls).schedule hook =
      (order calls hook).map fun i => (calls.get i).registration := by
  unfold Bus.schedule order
  rw [← Phase.map_name_all, List.flatMap_map, List.map_flatMap]
  apply List.flatMap_congr
  intro p _
  exact ordered_ofCalls calls hook p

/-- The order of `Precedes` leaves one list of positions. -/
theorem eq_order {is : List (Fin calls.length)} (hsorted : is.Pairwise (Precedes calls))
    (hmem : ∀ i, i ∈ is ↔ (calls.get i).hook = hook) : is = order calls hook := by
  have hstrict : ∀ {js : List (Fin calls.length)}, js.Pairwise (Precedes calls) → js.Nodup := by
    intro js hjs
    refine hjs.imp ?_
    rintro i j hij rfl
    exact Precedes.asymm calls hij hij
  have hperm : is.Perm (order calls hook) := by
    rw [List.perm_ext_iff_of_nodup (hstrict hsorted) (hstrict (pairwise_order calls hook))]
    intro i
    rw [hmem i, mem_order]
  refine hperm.eq_of_pairwise ?_ hsorted (pairwise_order calls hook)
  intro i j _ _ hij hji
  exact absurd hji (Precedes.asymm calls hij)

end Positions

/-! ## Runs -/

section Runs

variable {η σ γ : Type} {serve : η → Option (Handler σ γ)}

/-- Handlers that all serve the context and do not fail take `c` to `c'`, each from the
context that the one before it returned. -/
inductive Passes (serve : η → Option (Handler σ γ)) :
    List (Registration η) → γ → σ → γ → σ → Prop where
  | nil (c : γ) (s : σ) : Passes serve [] c s c s
  | cons {r : Registration η} {rest : List (Registration η)} {h : Handler σ γ} {c c₁ c' : γ}
      {s s₁ s' : σ} (hserves : serve r.handler = some h) (hpasses : h c s = (.ok c₁, s₁))
      (hrest : Passes serve rest c₁ s₁ c' s') : Passes serve (r :: rest) c s c' s'

/-- How a run of handlers ends: all of them pass, or the first that does not is of
another type of context or fails. It is given with the context that it was to handle. -/
inductive Ends (serve : η → Option (Handler σ γ)) (regs : List (Registration η)) (c : γ) (s : σ) :
    Option Failure × γ × σ → Prop where
  | passed {c' : γ} {s' : σ} (h : Passes serve regs c s c' s') : Ends serve regs c s (none, c', s')
  | foreign {done rest : List (Registration η)} {r : Registration η} {c' : γ} {s' : σ}
      (hregs : regs = done ++ r :: rest) (h : Passes serve done c s c' s')
      (hforeign : serve r.handler = none) :
      Ends serve regs c s (some .foreignHandler, c', s')
  | failed {done rest : List (Registration η)} {r : Registration η} {handler : Handler σ γ}
      {f : Failure} {c' : γ} {s' s'' : σ} (hregs : regs = done ++ r :: rest)
      (h : Passes serve done c s c' s') (hserves : serve r.handler = some handler)
      (hfails : handler c' s' = (.error f, s'')) :
      Ends serve regs c s (some (.context (Bus.label r) f), c', s'')

/-- One handler that passes, before the run of the others. -/
theorem Ends.cons {r : Registration η} {rest : List (Registration η)} {h : Handler σ γ} {c c₁ : γ}
    {s s₁ : σ} {result : Option Failure × γ × σ} (hserves : serve r.handler = some h)
    (hpasses : h c s = (.ok c₁, s₁)) (hrest : Ends serve rest c₁ s₁ result) :
    Ends serve (r :: rest) c s result := by
  cases hrest with
  | passed hall => exact .passed (.cons hserves hpasses hall)
  | foreign hregs hdone hforeign =>
      exact .foreign (congrArg (r :: ·) hregs) (.cons hserves hpasses hdone) hforeign
  | failed hregs hdone hserves' hfails =>
      exact .failed (congrArg (r :: ·) hregs) (.cons hserves hpasses hdone) hserves' hfails

theorem ends_runAll (regs : List (Registration η)) (c : γ) (s : σ) :
    Ends serve regs c s (Bus.runAll serve regs c s) := by
  induction regs generalizing c s with
  | nil => exact .passed (.nil c s)
  | cons r rest ih =>
      unfold Bus.runAll
      cases hserves : serve r.handler with
      | none =>
          have hregs : r :: rest = [] ++ r :: rest := rfl
          exact .foreign hregs (.nil c s) hserves
      | some handler =>
          dsimp only
          cases hstep : handler c s with
          | mk result s₁ =>
              cases result with
              | ok c₁ => exact (ih c₁ s₁).cons hserves hstep
              | error f =>
                  have hregs : r :: rest = [] ++ r :: rest := rfl
                  exact .failed hregs (.nil c s) hserves hstep

theorem runAll_eq_passed_iff {regs : List (Registration η)} {c c' : γ} {s s' : σ} :
    Bus.runAll serve regs c s = (none, c', s') ↔ Passes serve regs c s c' s' := by
  constructor
  · intro h
    have hends : Ends serve regs c s _ := ends_runAll regs c s
    rw [h] at hends
    cases hends with
    | passed hpasses => exact hpasses
  · intro h
    induction h with
    | nil => rfl
    | cons hserves hpasses _ ih => simp only [Bus.runAll, hserves, hpasses, ih]

theorem passes_append_iff {xs ys : List (Registration η)} {c c' : γ} {s s' : σ} :
    Passes serve (xs ++ ys) c s c' s' ↔
      ∃ c₁ s₁, Passes serve xs c s c₁ s₁ ∧ Passes serve ys c₁ s₁ c' s' := by
  constructor
  · intro h
    induction xs generalizing c s with
    | nil => exact ⟨c, s, .nil c s, h⟩
    | cons r xs ih =>
        cases h with
        | cons hserves hpasses hrest =>
            obtain ⟨c₁, s₁, hxs, hys⟩ := ih hrest
            exact ⟨c₁, s₁, .cons hserves hpasses hxs, hys⟩
  · rintro ⟨c₁, s₁, hxs, hys⟩
    induction hxs with
    | nil => exact hys
    | cons hserves hpasses _ ih => exact .cons hserves hpasses (ih hys)

/-- What each handler preserves is preserved by all of them. -/
theorem Passes.preserves {P : γ → σ → Prop} {regs : List (Registration η)} {c c' : γ} {s s' : σ}
    (h : Passes serve regs c s c' s')
    (hstep : ∀ r ∈ regs, ∀ handler, serve r.handler = some handler →
      ∀ c s c' s', handler c s = (.ok c', s') → P c s → P c' s')
    (hP : P c s) : P c' s' := by
  induction h with
  | nil => exact hP
  | cons hserves hpasses _ ih =>
      exact ih (fun r hr => hstep r (List.mem_cons_of_mem _ hr))
        (hstep _ List.mem_cons_self _ hserves _ _ _ _ hpasses hP)

/-- A failure that a run of some handlers can end with: one of them fails, or is for another
type of context. -/
inductive Stops (serve : η → Option (Handler σ γ)) (regs : List (Registration η)) :
    Failure → Prop where
  | foreign {r : Registration η} (hr : r ∈ regs) (hforeign : serve r.handler = none) :
      Stops serve regs .foreignHandler
  | failed {r : Registration η} {handler : Handler σ γ} {f : Failure} {c : γ} {s s' : σ}
      (hr : r ∈ regs) (hserves : serve r.handler = some handler)
      (hfails : handler c s = (.error f, s')) : Stops serve regs (.context (Bus.label r) f)

theorem Stops.mono {regs more : List (Registration η)} {f : Failure} (h : Stops serve regs f)
    (hsub : regs ⊆ more) : Stops serve more f := by
  cases h with
  | foreign hr hforeign => exact .foreign (hsub hr) hforeign
  | failed hr hserves hfails => exact .failed (hsub hr) hserves hfails

theorem stops_of_runAll {regs : List (Registration η)} {f : Failure} {c c' : γ} {s s' : σ}
    (h : Bus.runAll serve regs c s = (some f, c', s')) : Stops serve regs f := by
  have hends : Ends serve regs c s _ := ends_runAll regs c s
  rw [h] at hends
  cases hends with
  | foreign hregs _ hforeign =>
      exact .foreign (hregs ▸ List.mem_append_right _ List.mem_cons_self) hforeign
  | failed hregs _ hserves hfails =>
      exact .failed (hregs ▸ List.mem_append_right _ List.mem_cons_self) hserves hfails

theorem runAll_append (xs ys : List (Registration η)) (c : γ) (s : σ) :
    Bus.runAll serve (xs ++ ys) c s =
      match Bus.runAll serve xs c s with
      | (none, c', s') => Bus.runAll serve ys c' s'
      | stopped => stopped := by
  induction xs generalizing c s with
  | nil => rfl
  | cons r xs ih =>
      rw [List.cons_append, Bus.runAll, Bus.runAll]
      cases serve r.handler with
      | none => rfl
      | some handler =>
          dsimp only
          rcases handler c s with ⟨_ | c₁, s₁⟩
          · rfl
          · exact ih c₁ s₁

/-- A handler that passes once something holds is not what stops a run, if it holds at first
and the handlers before keep it. -/
theorem stops_around {P : γ → σ → Prop} {x : Registration η} {handler : Handler σ γ}
    {before behind : List (Registration η)} {f : Failure} {c c' : γ} {s s' : σ}
    (hserves : serve x.handler = some handler)
    (hpasses : ∀ c s, P c s → ∃ c' s', handler c s = (.ok c', s'))
    (hkeep : ∀ r ∈ before, ∀ handler, serve r.handler = some handler →
      ∀ c s c' s', handler c s = (.ok c', s') → P c s → P c' s')
    (hP : P c s) (h : Bus.runAll serve (before ++ x :: behind) c s = (some f, c', s')) :
    Stops serve (before ++ behind) f := by
  rw [runAll_append] at h
  rcases hbefore : Bus.runAll serve before c s with ⟨_ | g, c₁, s₁⟩
  · obtain ⟨c₂, s₂, hx⟩ := hpasses c₁ s₁ ((runAll_eq_passed_iff.mp hbefore).preserves hkeep hP)
    simp only [hbefore, Bus.runAll, hserves, hx] at h
    exact (stops_of_runAll h).mono (List.subset_append_right _ _)
  · simp only [hbefore, Prod.mk.injEq, Option.some.injEq] at h
    rw [← h.1]
    exact (stops_of_runAll hbefore).mono (List.subset_append_left _ _)

theorem has_iff_schedule (b : Bus η) (hook : String) :
    b.has hook = true ↔ b.schedule hook ≠ [] := by
  have hmem : ∀ r, r ∈ b.schedule hook ↔ ∃ p ∈ phases, r ∈ b.registrations ∧ r.key = key p hook := by
    intro r
    simp [Bus.schedule, Bus.ordered]
  constructor
  · intro h
    obtain ⟨p, hp, r, hr, hkey⟩ : ∃ p ∈ phases, ∃ r ∈ b.registrations, r.key = key p hook := by
      simpa [Bus.has] using h
    exact List.ne_nil_of_mem ((hmem r).mpr ⟨p, hp, hr, hkey⟩)
  · intro h
    obtain ⟨r, hr⟩ := List.exists_mem_of_ne_nil _ h
    obtain ⟨p, hp, hr, hkey⟩ := (hmem r).mp hr
    have hany : ∃ p ∈ phases, ∃ r ∈ b.registrations, r.key = key p hook := ⟨p, hp, r, hr, hkey⟩
    simpa [Bus.has] using hany

theorem has_ofCalls (calls : List (Call η)) (hook : String) :
    (Bus.ofCalls calls).has hook = true ↔ ∃ a ∈ calls, a.hook = hook := by
  rw [has_iff_schedule, schedule_ofCalls, ne_eq, List.map_eq_nil_iff]
  constructor
  · intro hne
    obtain ⟨i, hi⟩ := List.exists_mem_of_ne_nil _ hne
    exact ⟨calls.get i, List.get_mem _ _, (mem_order calls hook).mp hi⟩
  · rintro ⟨a, ha, hhook⟩
    obtain ⟨i, rfl⟩ := List.mem_iff_get.mp ha
    exact List.ne_nil_of_mem ((mem_order calls hook).mpr hhook)

/-- Handlers of the main phase run by their priorities. -/
theorem schedule_of_on {b : Bus η} {hook : String}
    (h : ∀ r ∈ b.registrations, r.key = key "ON" hook) :
    b.schedule hook = b.registrations.mergeSort fun r s => decide (r.priority ≤ s.priority) := by
  have hfilter : ∀ p : Phase, b.registrations.filter (·.key == key p.name hook) =
      if p = .on then b.registrations else [] := by
    intro p
    split
    · rename_i hp
      subst hp
      exact List.filter_eq_self.mpr fun r hr => beq_iff_eq.mpr (h r hr)
    · rename_i hp
      refine List.filter_eq_nil_iff.mpr fun r hr hkey => hp ?_
      have hkey : key Phase.on.name hook = key p.name hook := (h r hr).symm.trans (by simpa using hkey)
      exact (key_eq_key_iff.mp hkey).1.symm
  unfold Bus.schedule
  rw [← Phase.map_name_all, List.flatMap_map]
  simp [Bus.ordered, hfilter, Phase.all]

/-- What is ordered before and behind one registration for a key. -/
theorem exists_ordered {b : Bus η} {x : Registration η} {xs ys : List (Registration η)} {k : String}
    (hb : b.registrations = xs ++ x :: ys) (hx : x.key = k) :
    ∃ before behind, b.ordered k = before ++ x :: behind ∧
      (∀ r ∈ before ++ behind, r ∈ xs ++ ys ∧ r.key = k) ∧ ∀ r ∈ behind, x.priority ≤ r.priority := by
  have hfilter : b.registrations.filter (·.key == k) =
      xs.filter (·.key == k) ++ x :: ys.filter (·.key == k) := by
    rw [hb, List.filter_append, List.filter_cons, if_pos (beq_iff_eq.mpr hx)]
  have hperm : (b.ordered k).Perm (xs.filter (·.key == k) ++ x :: ys.filter (·.key == k)) :=
    hfilter ▸ List.mergeSort_perm _ _
  obtain ⟨before, behind, hordered⟩ :=
    List.append_of_mem (hperm.mem_iff.mpr (List.mem_append_right _ List.mem_cons_self))
  have hsorted : (b.ordered k).Pairwise fun r s => decide (r.priority ≤ s.priority) = true :=
    List.pairwise_mergeSort (decide_key_trans fun r : Registration η => r.priority)
      (decide_key_total fun r : Registration η => r.priority) _
  rw [hordered] at hperm hsorted
  refine ⟨before, behind, hordered, fun r hr => ?_, fun r hr => ?_⟩
  · have hothers := ((List.perm_middle.symm.trans hperm).trans List.perm_middle).cons_inv
    rw [hothers.mem_iff, ← List.filter_append] at hr
    obtain ⟨hr, hkey⟩ := List.mem_filter.mp hr
    exact ⟨hr, eq_of_beq hkey⟩
  · have hle := (List.pairwise_cons.mp (List.pairwise_append.mp hsorted).2.1).1 r hr
    simpa using hle

/-- What runs before and behind one handler of the last phase. What runs behind it is of that
phase too and has no lower priority. -/
theorem schedule_after {b : Bus η} {x : Registration η} {xs ys : List (Registration η)}
    {hook : String} (hb : b.registrations = xs ++ x :: ys) (hx : x.key = key "AFTER" hook) :
    ∃ before behind, b.schedule hook = before ++ x :: behind ∧
      (∀ r ∈ before, r ∈ xs ++ ys ∧ ∃ p : Phase, r.key = key p.name hook) ∧
      ∀ r ∈ behind, r ∈ xs ++ ys ∧ r.key = key "AFTER" hook ∧ x.priority ≤ r.priority := by
  have hearlier : ∀ p : Phase, p ≠ .after → ∀ r ∈ b.ordered (key p.name hook),
      r ∈ xs ++ ys ∧ ∃ p : Phase, r.key = key p.name hook := by
    intro p hp r hr
    obtain ⟨hr, hkey⟩ := List.mem_filter.mp ((List.mergeSort_perm _ _).mem_iff.mp hr)
    have hkey : r.key = key p.name hook := eq_of_beq hkey
    have hne : r ≠ x := by
      rintro rfl
      have hphase : key p.name hook = key Phase.after.name hook := hkey.symm.trans hx
      exact hp (key_eq_key_iff.mp hphase).1
    rw [hb] at hr
    rcases List.mem_append.mp hr with hr | hr
    · exact ⟨List.mem_append_left _ hr, p, hkey⟩
    · exact ⟨List.mem_append_right _ (List.mem_of_ne_of_mem hne hr), p, hkey⟩
  obtain ⟨before, behind, hordered, hlast, hle⟩ := exists_ordered hb hx
  refine ⟨b.ordered (key Phase.before.name hook) ++ b.ordered (key Phase.on.name hook) ++ before,
    behind, ?_, ?_, ?_⟩
  · have hphases : b.schedule hook = b.ordered (key Phase.before.name hook) ++
        (b.ordered (key Phase.on.name hook) ++ b.ordered (key "AFTER" hook)) := by
      simp [Bus.schedule, phases, Phase.name]
    rw [hphases, hordered]
    simp
  · intro r hr
    rcases List.mem_append.mp hr with hr | hr
    · rcases List.mem_append.mp hr with hr | hr
      · exact hearlier .before (by decide) r hr
      · exact hearlier .on (by decide) r hr
    · obtain ⟨hr, hkey⟩ := hlast r (List.mem_append_left _ hr)
      exact ⟨hr, .after, hkey⟩
  · intro r hr
    obtain ⟨hmem, hkey⟩ := hlast r (List.mem_append_right _ hr)
    exact ⟨hmem, hkey, hle r hr⟩

def owned (p : Plugin η) : List (Registration η) :=
  p.registrations.map fun r => { r with plugin := p.name }

/-- Plugins that do not fail leave their registrations on the bus, in order. -/
theorem ofPlugins_eq_ok {ps : List (Plugin η)} (h : ∀ p ∈ ps, p.failure = none) :
    Bus.ofPlugins ps = .ok { registrations := ps.flatMap owned } := by
  have hfold : ∀ {apply : Bus η → Plugin η → Except Failure (Bus η)},
      (∀ b p, p.failure = none → apply b p = .ok { registrations := b.registrations ++ owned p }) →
      ∀ b, ps.foldlM apply b = .ok { registrations := b.registrations ++ ps.flatMap owned } := by
    intro apply happly
    induction ps with
    | nil =>
        intro b
        simp [pure, Except.pure]
    | cons p ps ih =>
        intro b
        have hp : p.failure = none := h p List.mem_cons_self
        rw [List.foldlM_cons, happly b p hp]
        refine (ih (fun q hq => h q (List.mem_cons_of_mem p hq)) _).trans ?_
        simp
  refine hfold ?_ {}
  intro b p hp
  simp [Bus.apply, hp, owned]

/-- Unrelated calls may change places. -/
theorem schedule_reordered {calls calls' : List (Call η)} (h : Reordered calls calls')
    (hook : String) : (Bus.ofCalls calls').schedule hook = (Bus.ofCalls calls).schedule hook := by
  obtain ⟨π, hsame, hkeeps⟩ := h
  have horder : (order calls hook).map π = order calls' hook := by
    apply eq_order
    · rw [List.pairwise_map]
      refine (pairwise_order calls hook).imp_of_mem ?_
      intro i j hi hj hprecedes
      have hhook := ((mem_order calls hook).mp hi).trans ((mem_order calls hook).mp hj).symm
      unfold Precedes at hprecedes ⊢
      rw [hsame i, hsame j]
      rcases hprecedes with hphase | ⟨hphase, hpriority | ⟨hpriority, hij⟩⟩
      · exact .inl hphase
      · exact .inr ⟨hphase, .inl hpriority⟩
      · have hslot : (calls.get i).slot = (calls.get j).slot := by
          unfold Call.slot
          rw [hhook, hphase, hpriority]
        exact .inr ⟨hphase, .inr ⟨hpriority, hkeeps i j hslot hij⟩⟩
    · intro j
      rw [List.mem_map]
      constructor
      · rintro ⟨i, hi, rfl⟩
        rw [hsame i]
        exact (mem_order calls hook).mp hi
      · intro hj
        refine ⟨π.symm j, (mem_order calls hook).mpr ?_, π.apply_symm_apply j⟩
        rw [← hsame (π.symm j), π.apply_symm_apply]
        exact hj
  rw [schedule_ofCalls, schedule_ofCalls, ← horder, List.map_map]
  apply List.map_congr_left
  intro i _
  exact congrArg Call.registration (hsame i)

/-- What a hook runs after any calls. Without a handler it fails and gives the context
back. Otherwise exactly the handlers registered for it run, each once, in the order of
phase, priority and registration, up to the first that does not pass. And calls for
different hooks, phases or priorities may have been made in any order. -/
theorem trigger_ofCalls (calls : List (Call η)) (serve : η → Option (Handler σ γ)) (hook : String)
    (c : γ) (s : σ) :
    ((∀ a ∈ calls, a.hook ≠ hook) →
        (Bus.ofCalls calls).trigger serve hook c s =
          (some (.plain ("no handler registered for hook " ++ Text.quoted hook)), c, s)) ∧
      ((∃ a ∈ calls, a.hook = hook) →
        ∃ is : List (Fin calls.length), is.Pairwise (Precedes calls) ∧
          (∀ i, i ∈ is ↔ (calls.get i).hook = hook) ∧
          Ends serve (is.map fun i => (calls.get i).registration) c s
            ((Bus.ofCalls calls).trigger serve hook c s)) ∧
      ∀ calls', Reordered calls calls' →
        (Bus.ofCalls calls').trigger serve hook c s = (Bus.ofCalls calls).trigger serve hook c s := by
  refine ⟨?_, ?_, ?_⟩
  · intro hnone
    have hhas : ¬ (Bus.ofCalls calls).has hook = true := by
      rw [has_ofCalls]
      rintro ⟨a, ha, hhook⟩
      exact hnone a ha hhook
    unfold Bus.trigger
    rw [if_neg hhas]
  · intro hsome
    refine ⟨order calls hook, pairwise_order calls hook, fun i => mem_order calls hook, ?_⟩
    unfold Bus.trigger
    rw [if_pos ((has_ofCalls calls hook).mpr hsome), schedule_ofCalls]
    exact ends_runAll _ c s
  · intro calls' hreordered
    have hschedule := schedule_reordered hreordered hook
    have hhas : (Bus.ofCalls calls').has hook = (Bus.ofCalls calls).has hook := by
      rw [Bool.eq_iff_iff, has_iff_schedule, has_iff_schedule, hschedule]
    unfold Bus.trigger
    rw [hhas, hschedule]

def noting (word : String) : Option (Handler Unit (List String)) :=
  some fun words s => (.ok (words ++ [word]), s)

/-- Calls in an order that is not the one of the handlers; the last handler that runs
does not serve lists of words. -/
def shuffledCalls : List (Call (Option (Handler Unit (List String)))) :=
  [{ hook := "H", phase := .after, priority := -9, handler := none },
    { hook := "H", phase := .on, priority := 1, handler := noting "d" },
    { hook := "K", phase := .before, priority := 0, handler := noting "e" },
    { hook := "H", phase := .on, priority := 0, plugin := "x", handler := noting "b" },
    { hook := "H", phase := .before, priority := 7, handler := noting "a" },
    { hook := "H", phase := .on, priority := 0, handler := noting "c" }]

def shuffledOrder : List (Fin shuffledCalls.length) :=
  [⟨4, by decide⟩, ⟨3, by decide⟩, ⟨5, by decide⟩, ⟨1, by decide⟩, ⟨0, by decide⟩]

theorem trigger_ofCalls_shuffled :
    let calls' := shuffledCalls.tail ++ shuffledCalls.take 1
    Reordered shuffledCalls calls' ∧
      (∃ is : List (Fin shuffledCalls.length), is.Pairwise (Precedes shuffledCalls) ∧
        (∀ i, i ∈ is ↔ (shuffledCalls.get i).hook = "H") ∧
        Ends id (is.map fun i => (shuffledCalls.get i).registration) [] ()
          (some .foreignHandler, ["a", "b", "c", "d"], ())) ∧
      (Bus.ofCalls calls').trigger id "H" [] () =
        (some .foreignHandler, ["a", "b", "c", "d"], ()) := by
  intro calls'
  have hreordered : Reordered shuffledCalls calls' := by
    have hleft : ∀ i : Fin 6, i - 1 + 1 = i := by decide
    have hright : ∀ i : Fin 6, i + 1 - 1 = i := by decide
    let π : Fin 6 ≃ Fin 6 := ⟨(· - 1), (· + 1), hleft, hright⟩
    have hkeeps : ∀ i j : Fin 6, (shuffledCalls.get i).slot = (shuffledCalls.get j).slot →
        i < j → i - 1 < j - 1 := by decide
    refine ⟨π, ?_, hkeeps⟩
    intro i
    match i with
    | ⟨0, _⟩ | ⟨1, _⟩ | ⟨2, _⟩ | ⟨3, _⟩ | ⟨4, _⟩ | ⟨5, _⟩ => rfl
  have hsorted : shuffledOrder.Pairwise (Precedes shuffledCalls) := by decide
  have hmem : ∀ i, i ∈ shuffledOrder ↔ (shuffledCalls.get i).hook = "H" := by decide
  have horder := eq_order shuffledCalls "H" hsorted hmem
  have hhas : (Bus.ofCalls shuffledCalls).has "H" = true :=
    (has_ofCalls shuffledCalls "H").mpr ⟨_, List.mem_cons_self, rfl⟩
  have hruns : (Bus.ofCalls shuffledCalls).trigger id "H" [] () =
      (some .foreignHandler, ["a", "b", "c", "d"], ()) := by
    unfold Bus.trigger
    rw [if_pos hhas, schedule_ofCalls, ← horder]
    rfl
  obtain ⟨-, hends, hagree⟩ := trigger_ofCalls shuffledCalls id "H" [] ()
  refine ⟨hreordered, ?_, (hagree calls' hreordered).trans hruns⟩
  rw [← hruns]
  exact hends ⟨_, List.mem_cons_self, rfl⟩

end Runs
end Pipeline
end ClientGen
