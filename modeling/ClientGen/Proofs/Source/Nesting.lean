import ClientGen.Proofs.Source.Moves
import ClientGen.Proofs.Source.Session

/-! # Nested declarations

A production that declares something notes its first token, reads on, and
registers the declaration with its last token. Productions inside it have
registered theirs by then. The spans that a parse leaves are therefore nested,
inner ones first, and this holds whether the parse gave a value or not.

A production is followed in three stages. At first only its start is noted. Once
it has passed over a token of its own, whatever is registered lies behind that
token; and since every list of inner productions ends with a closing token, it
lies before the last consumed token as well. Then the production is registered.
-/

namespace ClientGen
namespace Source

/-- Of two declarations registered in this order, the first ends before the second
starts, or lies inside it with a token to spare at both ends. -/
def Decl.Precedes (d e : Decl) : Prop :=
  ∃ i j, d.first = some i ∧ e.first = some j ∧ (d.stop ≤ j ∨ j < i ∧ d.stop < e.stop)

/-- Declarations between two places, in the order in which nested productions
register them. -/
structure NestedIn (lo hi : Nat) (ds : List Decl) : Prop where
  spans : ∀ d ∈ ds, ∃ i, d.first = some i ∧ lo ≤ i ∧ i < d.stop ∧ d.stop ≤ hi
  pairs : ds.Pairwise Decl.Precedes

namespace NestedIn

variable {lo hi mid : Nat} {ds es : List Decl}

theorem nil (lo hi : Nat) : NestedIn lo hi [] := ⟨by simp, List.Pairwise.nil⟩

theorem mono {lo' hi' : Nat} (h : NestedIn lo hi ds) (hlo : lo' ≤ lo) (hhi : hi ≤ hi') :
    NestedIn lo' hi' ds := by
  refine ⟨fun d hd => ?_, h.pairs⟩
  obtain ⟨i, hfirst, hi, hstop, hend⟩ := h.spans d hd
  exact ⟨i, hfirst, by omega, hstop, by omega⟩

theorem append (h : NestedIn lo mid ds) (h' : NestedIn mid hi es) (hlo : lo ≤ mid)
    (hhi : mid ≤ hi) : NestedIn lo hi (ds ++ es) := by
  constructor
  · intro d hd
    rcases List.mem_append.mp hd with hd | hd
    · exact (h.mono (Nat.le_refl lo) hhi).spans d hd
    · exact (h'.mono hlo (Nat.le_refl hi)).spans d hd
  · refine List.pairwise_append.mpr ⟨h.pairs, h'.pairs, fun d hd e he => ?_⟩
    obtain ⟨i, hdfirst, -, -, hdstop⟩ := h.spans d hd
    obtain ⟨j, hefirst, hj, -, -⟩ := h'.spans e he
    exact ⟨i, j, hdfirst, hefirst, .inl (by omega)⟩

/-- A declaration around everything registered so far. -/
theorem close (h : NestedIn (lo + 1) (hi - 1) ds) (hlt : lo < hi) :
    NestedIn lo hi (ds ++ [{ first := some lo, stop := hi }]) := by
  constructor
  · intro d hd
    rcases List.mem_append.mp hd with hd | hd
    · exact (h.mono (Nat.le_succ lo) (Nat.sub_le hi 1)).spans d hd
    · obtain rfl := List.mem_singleton.mp hd
      exact ⟨lo, rfl, Nat.le_refl lo, hlt, Nat.le_refl hi⟩
  · refine List.pairwise_append.mpr ⟨h.pairs, List.pairwise_singleton _ _, fun d hd e he => ?_⟩
    obtain ⟨i, hfirst, hi', -, hstop⟩ := h.spans d hd
    obtain rfl := List.mem_singleton.mp he
    exact ⟨i, lo, hfirst, rfl, .inr ⟨by omega, show d.stop < hi by omega⟩⟩

end NestedIn

/-! ## The stages of a production -/

/-- Everything registered from `c` on lies between `c` and `c'`. -/
structure Encloses (c c' : Cursor) : Prop where
  place : c.place ≤ c'.place
  decls : ∃ new, c'.decls = c.decls ++ new ∧ NestedIn c.place c'.place new

/-- Nothing is registered since `c`. -/
structure Begun (c c' : Cursor) : Prop where
  place : c.place ≤ c'.place
  decls : c'.decls = c.decls

/-- Everything registered since `c` lies strictly between the token at `c` and the
last consumed one. -/
structure Within (c c' : Cursor) : Prop where
  place : c.place < c'.place
  decls : ∃ new, c'.decls = c.decls ++ new ∧ NestedIn (c.place + 1) (c'.place - 1) new

section Stages

variable {c₀ c c' : Cursor}

theorem Begun.refl (c : Cursor) : Begun c c := ⟨Nat.le_refl _, rfl⟩

theorem Begun.encloses (h : Begun c₀ c) : Encloses c₀ c :=
  ⟨h.place, [], by simp [h.decls], .nil _ _⟩

theorem Within.encloses (h : Within c₀ c) : Encloses c₀ c := by
  have hplace := h.place
  obtain ⟨new, hnew, hnested⟩ := h.decls
  exact ⟨by omega, new, hnew, hnested.mono (by omega) (by omega)⟩

theorem Encloses.trans (h : Encloses c₀ c) (h' : Encloses c c') : Encloses c₀ c' := by
  obtain ⟨new, hnew, hnested⟩ := h.decls
  obtain ⟨new', hnew', hnested'⟩ := h'.decls
  refine ⟨Nat.le_trans h.place h'.place, new ++ new', ?_, hnested.append hnested' h.place h'.place⟩
  rw [hnew', hnew, List.append_assoc]

/-- Passing over tokens keeps the stage. -/
theorem Within.onward (h : Within c₀ c) (hplace : c.place ≤ c'.place)
    (hdecls : c'.decls = c.decls) : Within c₀ c' := by
  have hlt := h.place
  obtain ⟨new, hnew, hnested⟩ := h.decls
  exact ⟨by omega, new, hdecls.trans hnew, hnested.mono (Nat.le_refl _) (by omega)⟩

/-- Inner declarations and the token that closes them. -/
theorem Within.closing {c'' : Cursor} (h : Within c₀ c) (h' : Encloses c c')
    (hplace : c''.place = c'.place + 1) (hdecls : c''.decls = c'.decls) : Within c₀ c'' := by
  have hlt := h.place
  have hle := h'.place
  obtain ⟨new, hnew, hnested⟩ := h.decls
  obtain ⟨new', hnew', hnested'⟩ := h'.decls
  refine ⟨by omega, new ++ new', by rw [hdecls, hnew', hnew, List.append_assoc], ?_⟩
  have hbefore : NestedIn (c₀.place + 1) c.place new := hnested.mono (Nat.le_refl _) (by omega)
  have hstop : c''.place - 1 = c'.place := by omega
  rw [hstop]
  exact hbefore.append hnested' hlt hle

/-- The production is registered. -/
theorem Within.declare (h : Within c₀ c) : Encloses c₀ (c.declare (some c₀.place)) := by
  obtain ⟨new, hnew, hnested⟩ := h.decls
  have hclosed := hnested.close h.place
  exact ⟨Nat.le_of_lt h.place, _, by simp [Cursor.declare, hnew], hclosed⟩

end Stages

/-! ## Parsers that keep the nesting -/

section Parsers

variable {α β : Type} {p q : Parser α} {f : α → Parser β} {c₀ c c' : Cursor}

/-- What a parser registers is nested in what it consumes. -/
class Nests (p : Parser α) : Prop where
  encloses : ∀ c, Encloses c (p.run c).2

/-- A part of a production behind its first token: what it registers, it closes
with a token of its own. -/
class Wraps (p : Parser α) : Prop where
  within : ∀ {c₀ c c' a}, Within c₀ c → p.run c = (some a, c') → Within c₀ c'
  encloses : ∀ {c₀ c}, Within c₀ c → Encloses c₀ (p.run c).2

/-- A parser that consumes a token whenever it gives a value, and registers nothing. -/
class TakesToken (p : Parser α) : Prop where
  made : Made false p
  place : ∀ {c c' a}, p.run c = (some a, c') → c.place < c'.place

theorem Made.begun (h : Made false p) (c : Cursor) : Begun c (p.run c).2 :=
  ⟨(h.onward c).place, h.decls_eq c⟩

/-! ### Closure -/

instance (priority := low) [h : Made false p] : Nests p := ⟨fun c => (h.begun c).encloses⟩

instance [hp : Nests p] [hf : ∀ a, Nests (f a)] : Nests (p >>= f) := by
  refine ⟨fun c => ?_⟩
  have h := hp.encloses c
  rw [Parser.run_bind]
  cases hrun : p.run c with
  | mk value c' =>
      rw [hrun] at h
      cases value with
      | none => exact h
      | some a => exact h.trans ((hf a).encloses c')

instance {b : Prop} [Decidable b] [hp : Nests p] [hq : Nests q] : Nests (if b then p else q) := by
  split
  · exact hp
  · exact hq

theorem Nests.branch {p : Parser Bool} {f g : Parser α} [hp : Nests p] (hf : Nests f)
    (hg : Nests g) : Nests (p >>= fun b => if b then f else g) :=
  inferInstance

theorem Nests.whileAux {again : Cursor → Bool} (hp : Nests p) (fuel : Nat) :
    Nests (Parser.whileAux again p fuel) := by
  have hlook : Nests (Parser.look again) := ⟨fun c => (Begun.refl c).encloses⟩
  induction fuel with
  | zero =>
      unfold Parser.whileAux
      infer_instance
  | succ fuel ih =>
      unfold Parser.whileAux
      infer_instance

instance {again : Cursor → Bool} [hp : Nests p] : Nests (Parser.whileDo again p) :=
  ⟨fun c => (hp.whileAux (c.rest.length + 1)).encloses c⟩

instance {close : TokenKind} [hp : Nests p] : Nests (Parser.upTo close p) := by
  unfold Parser.upTo
  infer_instance

instance (priority := low) [h : Made false p] : Wraps p := by
  constructor
  · intro c₀ c c' a hc hrun
    have hbegun := h.begun c
    rw [hrun] at hbegun
    exact hc.onward hbegun.place hbegun.decls
  · intro c₀ c hc
    exact hc.encloses.trans (h.begun c).encloses

instance [hp : Wraps p] [hf : ∀ a, Wraps (f a)] : Wraps (p >>= f) := by
  constructor
  · intro c₀ c c'' b hc hrun
    obtain ⟨a, c', hfirst, hrest⟩ := Parser.run_bind_eq_some hrun
    exact (hf a).within (hp.within hc hfirst) hrest
  · intro c₀ c hc
    have h := hp.encloses hc
    rw [Parser.run_bind]
    cases hrun : p.run c with
    | mk value c' =>
        rw [hrun] at h
        cases value with
        | none => exact h
        | some a => exact (hf a).encloses (hp.within hc hrun)

instance {b : Prop} [Decidable b] [hp : Wraps p] [hq : Wraps q] : Wraps (if b then p else q) := by
  split
  · exact hp
  · exact hq

/-- A loop that ended stands before its closing token. -/
theorem Cursor.place_advance_of_is {c : Cursor} {k : TokenKind} (h : c.is k = true) :
    c.advance.place = c.place + 1 ∧ c.advance.decls = c.decls := by
  unfold Cursor.is at h
  unfold Cursor.advance
  cases hrest : c.rest with
  | nil => simp [hrest] at h
  | cons t ts => exact ⟨rfl, rfl⟩

instance {close : TokenKind} [hp : Nests p] : Wraps (Parser.upTo close p) := by
  constructor
  · intro c₀ c c'' xs hc hrun
    obtain ⟨ys, c', hloop, hclose⟩ := Parser.run_bind_eq_some hrun
    have hitems : Encloses c c' := by
      have h := Nests.encloses (p := Parser.whileDo (fun c => !c.is close) p) c
      rwa [hloop] at h
    have hend : c'.is close = true := by
      have h := Parser.again_of_whileAux hloop
      simpa using h
    obtain ⟨hplace, hdecls⟩ := Cursor.place_advance_of_is hend
    have hlast : c'' = c'.advance := ((Prod.mk.inj hclose).2).symm
    rw [hlast]
    exact hc.closing hitems hplace hdecls
  · intro c₀ c hc
    exact hc.encloses.trans (Nests.encloses (p := Parser.upTo close p) c)

/-! ### Tokens -/

theorem TakesToken.token {p : Parser Token} (hmade : Made false p) (hp : ∀ c c' t,
    p.run c = (some t, c') → c' = c.advance ∧ c.rest ≠ []) : TakesToken p := by
  refine ⟨hmade, fun {c c' t} hrun => ?_⟩
  obtain ⟨rfl, hrest⟩ := hp c c' t hrun
  unfold Cursor.advance
  cases htokens : c.rest with
  | nil => exact absurd htokens hrest
  | cons u us => exact Nat.lt_succ_self _

instance (kinds : List TokenKind) : TakesToken (Parser.expectOf kinds) := by
  refine TakesToken.token inferInstance fun c c' t hrun => ?_
  cases hrest : c.rest with
  | nil => simp [Parser.run, Parser.expectOf, hrest] at hrun
  | cons u us =>
      by_cases hk : u.kind ∈ kinds
      · have hc : c.advance = c' := by simp_all [Parser.run, Parser.expectOf]
        exact ⟨hc.symm, by simp⟩
      · simp [Parser.run, Parser.expectOf, hrest, hk] at hrun

instance (k : TokenKind) : TakesToken (Parser.expect k) :=
  inferInstanceAs (TakesToken (Parser.expectOf [k]))

instance : TakesToken Parser.identifier := inferInstanceAs (TakesToken (Parser.expect .identifier))

instance (words : List String) : TakesToken (Parser.expectWord words) := by
  refine TakesToken.token inferInstance fun c c' t hrun => ?_
  cases hrest : c.rest with
  | nil => simp [Parser.run, Parser.expectWord, hrest] at hrun
  | cons u us =>
      by_cases hw : u.kind = .identifier ∧ u.value ∈ words
      · have hc : c.advance = c' := by simp_all [Parser.run, Parser.expectWord]
        exact ⟨hc.symm, by simp⟩
      · simp [Parser.run, Parser.expectWord, hrest, hw] at hrun

/-! ### Productions -/

/-- The rest of the production that starts at `c₀`, from its start on. -/
def Begins (c₀ : Cursor) (p : Parser α) : Prop := ∀ c, Begun c₀ c → Encloses c₀ (p.run c).2

/-- The rest of the production that starts at `c₀`, behind a token of its own. -/
def Completes (c₀ : Cursor) (p : Parser α) : Prop := ∀ c, Within c₀ c → Encloses c₀ (p.run c).2

/-- A production notes the place where it starts. -/
theorem Nests.production {f : Nat → Parser α} (h : ∀ c₀ : Cursor, Begins c₀ (f c₀.place)) :
    Nests (Parser.place >>= f) :=
  ⟨fun c => h c c (Begun.refl c)⟩

theorem Begins.optional [hp : Made false p] (h : ∀ a, Begins c₀ (f a)) : Begins c₀ (p >>= f) := by
  intro c hc
  have hbegun := hp.begun c
  rw [Parser.run_bind]
  cases hrun : p.run c with
  | mk value c' =>
      rw [hrun] at hbegun
      have hc' : Begun c₀ c' :=
        ⟨Nat.le_trans hc.place hbegun.place, hbegun.decls.trans hc.decls⟩
      cases value with
      | none => exact hc'.encloses
      | some a => exact h a c' hc'

theorem Begins.token [hp : TakesToken p] (h : ∀ a, Completes c₀ (f a)) : Begins c₀ (p >>= f) := by
  intro c hc
  have hbegun := hp.made.begun c
  have hplace := hc.place
  rw [Parser.run_bind]
  cases hrun : p.run c with
  | mk value c' =>
      rw [hrun] at hbegun
      have hdecls : c'.decls = c₀.decls := hbegun.decls.trans hc.decls
      cases value with
      | none => exact Begun.encloses ⟨Nat.le_trans hplace hbegun.place, hdecls⟩
      | some a =>
          have htaken : c.place < c'.place := hp.place hrun
          exact h a c' ⟨by omega, [], by simp [hdecls], .nil _ _⟩

theorem Completes.part [hp : Wraps p] (h : ∀ a, Completes c₀ (f a)) : Completes c₀ (p >>= f) := by
  intro c hc
  have hencloses := hp.encloses hc
  rw [Parser.run_bind]
  cases hrun : p.run c with
  | mk value c' =>
      rw [hrun] at hencloses
      cases value with
      | none => exact hencloses
      | some a => exact h a c' (hp.within hc hrun)

theorem Completes.declare (mk : Nat → α) :
    Completes c₀ (Parser.declare c₀.place >>= fun decl => pure (mk decl)) :=
  fun _ hc => hc.declare

end Parsers

end Source
end ClientGen
