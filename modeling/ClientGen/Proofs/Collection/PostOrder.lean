import Mathlib.Data.List.Nodup
import Mathlib.Logic.Relation

/-! # Walks that list a node behind what comes next to it

A walk meets a node, goes through what comes next to it, and then lists the node. It
lists what it is led to, each node once (`PostOrder.mem_iff`, `PostOrder.fresh`), and
where no node leads back to itself every node stands behind all that comes next to it
(`PostOrder.behind`).
-/

namespace ClientGen

variable {α : Type} {next next' : α → List α} {listed met met' todo out : List α}

/-- Each node stands behind all that comes next to it, which may also be in `listed`. -/
def Behind (next : α → List α) (listed : List α) : List α → Prop
  | [] => True
  | a :: out => (∀ b ∈ next a, b ∈ listed) ∧ Behind next (listed ++ [a]) out

instance decidableBehind [DecidableEq α] (next : α → List α) :
    (listed out : List α) → Decidable (Behind next listed out)
  | _, [] => .isTrue trivial
  | listed, a :: out =>
    have := decidableBehind next (listed ++ [a]) out
    inferInstanceAs (Decidable ((∀ b ∈ next a, b ∈ listed) ∧ Behind next (listed ++ [a]) out))

theorem behind_append {rest : List α} :
    Behind next listed (out ++ rest) ↔
      Behind next listed out ∧ Behind next (listed ++ out) rest := by
  induction out generalizing listed with
  | nil => simp [Behind]
  | cons a out ih => simp [Behind, ih, and_assoc]

/-- A node that stands behind what comes next to it, with the nodes in front of it. -/
theorem Behind.split {before after : List α} {a : α}
    (hbehind : Behind next listed (before ++ a :: after)) : ∀ b ∈ next a, b ∈ listed ++ before :=
  (behind_append.mp hbehind).2.1

theorem Behind.congr (hsame : ∀ a ∈ out, next a = next' a) (hbehind : Behind next listed out) :
    Behind next' listed out := by
  induction out generalizing listed with
  | nil => trivial
  | cons a out ih =>
    exact ⟨hsame a List.mem_cons_self ▸ hbehind.1,
      ih (fun b h => hsame b (List.mem_cons_of_mem a h)) hbehind.2⟩

/-- What comes next to a node stands in front of it. -/
theorem Behind.idxOf_lt [BEq α] [LawfulBEq α] (honce : out.Nodup) (hbehind : Behind next [] out)
    {a b : α} (hmember : a ∈ out) (hnear : b ∈ next a) : out.idxOf b < out.idxOf a := by
  obtain ⟨before, after, rfl⟩ := List.append_of_mem hmember
  have hearlier : b ∈ before := by simpa using hbehind.split b hnear
  have hlater : a ∉ before := fun h =>
    (List.nodup_append.mp honce).2.2 a h a List.mem_cons_self rfl
  rw [List.idxOf_append_of_mem hearlier, List.idxOf_append_of_notMem hlater]
  have := List.idxOf_lt_length_of_mem hearlier
  omega

/-- A walk through `todo` that has met the nodes in `met` lists `out` and has met the
nodes in `met'` at its end. A node is met first, then the walk goes through what comes
next to it, and then the node is listed. -/
inductive PostOrder (next : α → List α) : List α → List α → List α → List α → Prop where
  | done (met : List α) : PostOrder next met [] met []
  | skip {met todo met' out : List α} {a : α} (hold : a ∈ met)
      (hrest : PostOrder next met todo met' out) : PostOrder next met (a :: todo) met' out
  | visit {met todo met₁ met₂ out₁ out₂ : List α} {a : α} (hnew : a ∉ met)
      (hinner : PostOrder next (a :: met) (next a) met₁ out₁)
      (hrest : PostOrder next met₁ todo met₂ out₂) :
      PostOrder next met (a :: todo) met₂ (out₁ ++ a :: out₂)

namespace PostOrder

/-- The nodes met at the end are those met before and those listed. -/
theorem mem_met (hwalk : PostOrder next met todo met' out) {x : α} :
    x ∈ met' ↔ x ∈ met ∨ x ∈ out := by
  induction hwalk with
  | done met => simp
  | skip _ _ ih => exact ih
  | visit _ _ _ ih₁ ih₂ =>
    rw [ih₂, ih₁, List.mem_cons, List.mem_append, List.mem_cons]
    tauto

/-- No node is listed twice, and none that was met before. -/
theorem fresh (hwalk : PostOrder next met todo met' out) :
    out.Nodup ∧ ∀ a ∈ out, a ∉ met := by
  induction hwalk with
  | done met => exact ⟨List.nodup_nil, by simp⟩
  | skip _ _ ih => exact ih
  | @visit met todo met₁ met₂ out₁ out₂ a hnew hinner hrest ih₁ ih₂ =>
    obtain ⟨honce₁, hnew₁⟩ := ih₁
    obtain ⟨honce₂, hnew₂⟩ := ih₂
    have hself : a ∉ out₂ :=
      fun hlater => hnew₂ a hlater (hinner.mem_met.mpr (.inl List.mem_cons_self))
    refine ⟨List.nodup_append.mpr ⟨honce₁, List.nodup_cons.mpr ⟨hself, honce₂⟩, ?_⟩, ?_⟩
    · rintro b hearlier c hlater rfl
      rcases List.mem_cons.mp hlater with rfl | hlater
      · exact hnew₁ b hearlier List.mem_cons_self
      · exact hnew₂ b hlater (hinner.mem_met.mpr (.inr hearlier))
    · intro b hlisted hold
      rcases List.mem_append.mp hlisted with hearlier | hlater
      · exact hnew₁ b hearlier (List.mem_cons_of_mem a hold)
      · rcases List.mem_cons.mp hlater with rfl | hlater
        · exact hnew hold
        · exact hnew₂ b hlater (hinner.mem_met.mpr (.inl (List.mem_cons_of_mem a hold)))

/-- Every listed node is led to. -/
theorem reached (hwalk : PostOrder next met todo met' out) :
    ∀ a ∈ out, ∃ s ∈ todo, Relation.ReflTransGen (fun a b => b ∈ next a) s a := by
  induction hwalk with
  | done met => simp
  | skip _ _ ih =>
    intro b hlisted
    obtain ⟨s, hstarted, hway⟩ := ih b hlisted
    exact ⟨s, List.mem_cons_of_mem _ hstarted, hway⟩
  | @visit met todo met₁ met₂ out₁ out₂ a _ _ _ ih₁ ih₂ =>
    intro b hlisted
    rcases List.mem_append.mp hlisted with hlisted | hlisted
    · obtain ⟨s, hstarted, hway⟩ := ih₁ b hlisted
      exact ⟨a, List.mem_cons_self, .head hstarted hway⟩
    · rcases List.mem_cons.mp hlisted with rfl | hlisted
      · exact ⟨b, List.mem_cons_self, .refl⟩
      · obtain ⟨s, hstarted, hway⟩ := ih₂ b hlisted
        exact ⟨s, List.mem_cons_of_mem _ hstarted, hway⟩

/-- Nothing is left out: neither of `todo`, nor of what comes next to a listed node. -/
theorem covers (hwalk : PostOrder next met todo met' out) :
    (∀ a ∈ todo, a ∈ met') ∧ ∀ a ∈ out, ∀ b ∈ next a, b ∈ met' := by
  induction hwalk with
  | done met => simp
  | skip hold hwalk ih =>
    exact ⟨List.forall_mem_cons.mpr ⟨hwalk.mem_met.mpr (.inl hold), ih.1⟩, ih.2⟩
  | @visit met todo met₁ met₂ out₁ out₂ a _ hinner hrest ih₁ ih₂ =>
    have hkept : ∀ b ∈ met₁, b ∈ met₂ := fun b h => hrest.mem_met.mpr (.inl h)
    have hself : a ∈ met₂ := hkept a (hinner.mem_met.mpr (.inl List.mem_cons_self))
    refine ⟨List.forall_mem_cons.mpr ⟨hself, ih₂.1⟩, fun b hlisted c hnear => ?_⟩
    rcases List.mem_append.mp hlisted with hlisted | hlisted
    · exact hkept c (ih₁.2 b hlisted c hnear)
    · rcases List.mem_cons.mp hlisted with rfl | hlisted
      · exact hkept c (ih₁.1 c hnear)
      · exact ih₂.2 b hlisted c hnear

/-- A walk from the start lists what it is led to. -/
theorem mem_iff (hwalk : PostOrder next [] todo met' out) (a : α) :
    a ∈ out ↔ ∃ s ∈ todo, Relation.ReflTransGen (fun a b => b ∈ next a) s a := by
  have hall : ∀ b, b ∈ met' → b ∈ out := fun b h => (hwalk.mem_met.mp h).resolve_left (by simp)
  refine ⟨hwalk.reached a, ?_⟩
  rintro ⟨s, hstarted, hway⟩
  induction hway with
  | refl => exact hall s (hwalk.covers.1 s hstarted)
  | tail _ hnear ih => exact hall _ (hwalk.covers.2 _ ih _ hnear)

theorem cons {a : α} {met₁ met₂ out₁ out₂ : List α} (hfirst : PostOrder next met [a] met₁ out₁)
    (hrest : PostOrder next met₁ todo met₂ out₂) :
    PostOrder next met (a :: todo) met₂ (out₁ ++ out₂) := by
  cases hfirst with
  | skip hold hwalk =>
    cases hwalk
    exact .skip hold hrest
  | visit hnew hinner hwalk =>
    cases hwalk
    simpa using PostOrder.visit hnew hinner hrest

/-- Where no node leads back to itself, each node is listed behind all that comes next to
it. The nodes that were met are those listed and those that the walk is at, which lead
to all of `todo`. -/
theorem behind (hacyclic : ∀ a, ¬ Relation.TransGen (fun a b => b ∈ next a) a a)
    (hwalk : PostOrder next met todo met' out) (listed active : List α)
    (hknown : ∀ a ∈ met, a ∈ listed ∨ a ∈ active)
    (habove : ∀ t ∈ active, ∀ s ∈ todo, Relation.TransGen (fun a b => b ∈ next a) t s) :
    Behind next listed out := by
  induction hwalk generalizing listed active with
  | done met => trivial
  | skip _ _ ih =>
    exact ih listed active hknown fun t hat' s hstarted =>
      habove t hat' s (List.mem_cons_of_mem _ hstarted)
  | @visit met todo met₁ met₂ out₁ out₂ a _ hinner hrest ih₁ ih₂ =>
    have hhere : ∀ t ∈ active, Relation.TransGen (fun a b => b ∈ next a) t a := fun t hat' =>
      habove t hat' a List.mem_cons_self
    have hwithin : Behind next listed out₁ := by
      refine ih₁ listed (a :: active) (fun b hold => ?_) (fun t hat' s hnear => ?_)
      · rcases List.mem_cons.mp hold with rfl | hold
        · exact .inr List.mem_cons_self
        · exact (hknown b hold).imp_right (List.mem_cons_of_mem a)
      · rcases List.mem_cons.mp hat' with rfl | hat'
        · exact .single hnear
        · exact (hhere t hat').tail hnear
    have hown : ∀ b ∈ next a, b ∈ listed ++ out₁ := by
      intro b hnear
      rcases hinner.mem_met.mp (hinner.covers.1 b hnear) with hold | hnew
      · rcases List.mem_cons.mp hold with rfl | hold
        · exact absurd (.single hnear) (hacyclic b)
        · rcases hknown b hold with hdone | hat'
          · exact List.mem_append_left _ hdone
          · exact absurd ((hhere b hat').tail hnear) (hacyclic b)
      · exact List.mem_append_right _ hnew
    have honward : Behind next (listed ++ out₁ ++ [a]) out₂ := by
      refine ih₂ (listed ++ out₁ ++ [a]) active (fun b hold => ?_) (fun t hat' s hstarted =>
        habove t hat' s (List.mem_cons_of_mem _ hstarted))
      rcases hinner.mem_met.mp hold with hold | hnew
      · rcases List.mem_cons.mp hold with rfl | hold
        · exact .inl (by simp)
        · exact (hknown b hold).imp_left fun hdone => by simp [hdone]
      · exact .inl (by simp [hnew])
    exact behind_append.mpr ⟨hwithin, hown, honward⟩

/-- Where nothing comes next to a node, `todo` is listed in its own order. -/
theorem pairwise_idxOf [BEq α] [LawfulBEq α] {met met' todo out : List α}
    (hwalk : PostOrder (fun _ => []) met todo met' out) :
    out.Pairwise fun a b => todo.idxOf a < todo.idxOf b := by
  have hfurther {a : α} {todo out : List α} (hother : ∀ b ∈ out, b ≠ a)
      (hsorted : out.Pairwise fun x y => todo.idxOf x < todo.idxOf y) :
      out.Pairwise fun x y => (a :: todo).idxOf x < (a :: todo).idxOf y := by
    refine hsorted.imp_of_mem fun {x y} hx hy hbefore => ?_
    rw [List.idxOf_cons_ne _ (hother x hx).symm, List.idxOf_cons_ne _ (hother y hy).symm]
    omega
  generalize hempty : (fun _ : α => ([] : List α)) = next at hwalk
  induction hwalk with
  | done met => exact .nil
  | @skip met todo met' out a hold hwalk ih =>
    exact hfurther (fun b hlisted hsame => hwalk.fresh.2 b hlisted (hsame ▸ hold)) ih
  | @visit met todo met₁ met₂ out₁ out₂ a hnew hinner hrest _ ih₂ =>
    subst hempty
    cases hinner
    have hother : ∀ b ∈ out₂, b ≠ a := fun b hlisted hsame =>
      hrest.fresh.2 b hlisted (hsame ▸ List.mem_cons_self)
    refine List.pairwise_cons.mpr ⟨fun b hlisted => ?_, hfurther hother ih₂⟩
    rw [List.idxOf_cons_self, List.idxOf_cons_ne _ (hother b hlisted).symm]
    omega

end PostOrder

end ClientGen
