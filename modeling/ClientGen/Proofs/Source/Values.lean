import ClientGen.Proofs.Source.Nesting

/-! # What parsers make of tokens

A production sees nothing but tokens that are still left, and it leaves some of
them. So what holds of every token of a source holds of all that a production may
look at, and restricts the values that it can give. The judgment `Among` follows
such a restriction through sequences, choices and repetitions.
-/

namespace ClientGen
namespace Source

/-! ## Tokens -/

namespace Lexer

def Step.All (P : Token → Prop) : Step → Prop
  | .token t _ => P t
  | _ => True

section Readers

variable {P : Token → Prop}

theorem all_finish {kind : TokenKind} (h : ∀ t : Token, t.kind = kind → P t) (value : List Char)
    (first here : Position) (taken rest : List Char) :
    (finish kind value first here taken rest).All P := h _ rfl

theorem all_readSlash (h : ∀ t : Token, t.kind ∈ [.comment, .commentBlock, .slash] → P t)
    (p : Position) (rest : List Char) : (readSlash p rest).All P := by
  unfold readSlash
  split
  · exact all_finish (fun t ht => h t (by simp [ht])) _ _ _ _ _
  · unfold readBlockComment
    split
    · exact h _ (by simp)
    · trivial
  · exact all_finish (fun t ht => h t (by simp [ht])) _ _ _ _ _

theorem all_readHex (h : ∀ t : Token, t.kind = .integerHex → P t) (first p : Position)
    (marker : Char) (rest : List Char) : (readHex first p marker rest).All P := by
  unfold readHex
  dsimp only
  split
  · trivial
  · exact all_finish h _ _ _ _ _

theorem all_readZero {p : Position} {rest : List Char}
    (hhex : ∀ marker ∈ ['x', 'X'], ∀ more, (readHex p (p.step marker) marker more).All P)
    (hdecimal : (readDecimal '0' p rest).All P) : (readZero p rest).All P := by
  unfold readZero
  split
  · split
    · rename_i hmarker
      exact hhex _ (by simpa using hmarker) _
    · exact hdecimal
  · exact hdecimal

theorem all_readText (h : ∀ t : Token, t.kind = .text → P t) (quote : Char) (p : Position)
    (rest : List Char) : (readText quote p rest).All P := by
  unfold readText
  split
  · exact h _ rfl
  · trivial

theorem all_readReturn (h : ∀ t : Token, t.kind = .newline → P t) (p : Position)
    (rest : List Char) : (readReturn p rest).All P := by
  unfold readReturn
  split
  · exact h _ rfl
  · exact h _ rfl

theorem kind_of_ofPunctuation? {c : Char} {kind : TokenKind}
    (h : TokenKind.ofPunctuation? c = some kind) :
    kind ∉ [TokenKind.identifier, .integerDecimal, .floatDecimal, .integerHex] := by
  unfold TokenKind.ofPunctuation? at h
  split at h <;> cases h <;> decide

/-- What holds of the identifier and of the numbers that may start at a place, and of every
token of another kind, holds of the token that is read there. -/
theorem all_readToken_at {o : Options} {c : Char} {p : Position} {rest : List Char}
    (hword : isIdentifierStart c = true → (readIdentifier c p rest).All P)
    (hnumber : c.isDigit = true → (readDecimal c p rest).All P)
    (hhex : ∀ marker ∈ ['x', 'X'], ∀ more, (readHex p (p.step marker) marker more).All P)
    (hother : ∀ t : Token,
      t.kind ∉ [.identifier, .integerDecimal, .floatDecimal, .integerHex] → P t) :
    (readToken o c p rest).All P := by
  have hkind : ∀ kind ∉ [TokenKind.identifier, .integerDecimal, .floatDecimal, .integerHex],
      ∀ t : Token, t.kind = kind → P t := fun kind hk t ht => hother t (ht ▸ hk)
  unfold readToken
  repeat' split
  · exact hkind .newline (by decide) _ rfl
  · exact all_readReturn (hkind _ (by decide)) p rest
  · rename_i hzero
    exact all_readZero hhex (hzero ▸ hnumber (hzero ▸ rfl))
  · rename_i hdigit
    exact hnumber hdigit
  · exact all_readText (hkind _ (by decide)) c p rest
  · exact all_finish (hkind _ (by decide)) _ _ _ _ _
  · refine all_readSlash (fun t ht => hother t ?_) p rest
    have hnone : ∀ kind ∈ [TokenKind.comment, .commentBlock, .slash],
        kind ∉ [TokenKind.identifier, .integerDecimal, .floatDecimal, .integerHex] := by decide
    exact hnone t.kind ht
  · rename_i kind hpunctuation
    exact all_finish (hkind kind (kind_of_ofPunctuation? hpunctuation)) _ _ _ _ _
  · rename_i hstart
    exact hword hstart
  · exact all_finish (hkind _ (by decide)) _ _ _ _ _

/-- What holds of identifiers and numbers, and of every token of another kind, holds of
every token that is read. -/
theorem all_readToken_hex (hword : ∀ c p rest, isIdentifierStart c = true →
      (readIdentifier c p rest).All P)
    (hnumber : ∀ c p rest, c.isDigit = true → (readDecimal c p rest).All P)
    (hhex : ∀ first p, ∀ marker ∈ ['x', 'X'], ∀ rest, (readHex first p marker rest).All P)
    (hother : ∀ t : Token,
      t.kind ∉ [.identifier, .integerDecimal, .floatDecimal, .integerHex] → P t)
    (o : Options) (c : Char) (p : Position) (rest : List Char) : (readToken o c p rest).All P :=
  all_readToken_at (hword c p rest) (hnumber c p rest)
    (fun marker hmarker => hhex p (p.step marker) marker hmarker) hother

theorem all_readToken (hword : ∀ c p rest, isIdentifierStart c = true →
      (readIdentifier c p rest).All P)
    (hnumber : ∀ c p rest, c.isDigit = true → (readDecimal c p rest).All P)
    (hother : ∀ t : Token, t.kind ∉ [.identifier, .integerDecimal, .floatDecimal] → P t)
    (o : Options) (c : Char) (p : Position) (rest : List Char) : (readToken o c p rest).All P := by
  refine all_readToken_hex hword hnumber (fun first p marker _ rest => ?_) (fun t h => ?_) o c p rest
  · exact all_readHex (fun t ht => hother t (by simp [ht])) first p marker rest
  · exact hother t fun hmem => h (by simp at hmem ⊢; tauto)

theorem all_step {o : Options} (h : ∀ c p rest, (readToken o c p rest).All P) (s : Scan) :
    (step o s).All P := by
  unfold step
  split
  · trivial
  · unfold dispatch
    repeat' split
    · trivial
    · trivial
    · trivial
    · trivial
    · exact h _ _ _

theorem forall_runAux {o : Options} (h : ∀ c p rest, (readToken o c p rest).All P) (fuel : Nat)
    (s : Scan) : ∀ t ∈ (runAux o fuel s).1, P t := by
  induction fuel generalizing s with
  | zero => simp [runAux]
  | succ fuel ih =>
      have hstep := all_step h s
      unfold runAux
      cases hs : step o s with
      | stop => simp
      | fault f => simp
      | skip next => exact ih next
      | token t next =>
          rw [hs] at hstep
          intro u hu
          rcases List.mem_cons.mp hu with rfl | hu
          · exact hstep
          · exact ih next u hu

end Readers

end Lexer

theorem Lexer.fst_lex (o : Options) (uri source : String) (r : Reporter) :
    (lex o uri source r).1 = (run o (Text.codePoints source)).1 := by
  unfold lex
  split <;> rename_i h <;> rw [h]

theorem Cursor.mem_of_mem_ofSource {o : Lexer.Options} {uri source : String} {r : Reporter}
    {t : Token} (h : t ∈ (Cursor.ofSource o uri source r).rest) :
    t ∈ (Lexer.lex o uri source r).1 := by
  have hrest : (Cursor.ofSource o uri source r).rest =
      (separate 0 none (Lexer.lex o uri source r).1).1 := rfl
  rw [hrest, fst_separate] at h
  exact (List.mem_filter.mp h).1

/-- What holds of every token that can be read holds of all tokens of a source. -/
theorem Cursor.forall_ofSource {P : Token → Prop} {o : Lexer.Options}
    (h : ∀ c p rest, (Lexer.readToken o c p rest).All P) (uri source : String) (r : Reporter) :
    ∀ t ∈ (Cursor.ofSource o uri source r).rest, P t := by
  intro t ht
  have hlex := Cursor.mem_of_mem_ofSource ht
  rw [Lexer.fst_lex] at hlex
  exact Lexer.forall_runAux h _ _ t hlex

/-! ## Parsers -/

theorem Made.rest_suffix {registers : Bool} {α : Type} {p : Parser α} (h : Made registers p)
    (c : Cursor) : (p.run c).2.rest <:+ c.rest := by
  induction h generalizing c with
  | pure a => exact List.suffix_refl _
  | @bind _ _ p f _ _ ihp ihf =>
      have hp := ihp c
      rw [Parser.run_bind]
      cases hrun : p.run c with
      | mk value c' =>
          rw [hrun] at hp
          cases value with
          | none => exact hp
          | some a => exact (ihf a c').trans hp
  | look _ => exact List.suffix_refl _
  | advance =>
      change c.advance.rest <:+ c.rest
      unfold Cursor.advance
      cases hrest : c.rest with
      | nil => simp [hrest]
      | cons t ts => exact List.suffix_cons t ts
  | illegal =>
      change c.illegal.rest <:+ c.rest
      unfold Cursor.illegal
      cases hrest : c.rest <;> simp [Cursor.report, Cursor.reportHere, hrest]
  | giveUp => exact List.suffix_refl _
  | report _ _ => exact List.suffix_refl _
  | attempt _ ih => exact ih c
  | fuelled _ ih => exact ih _ c
  | declare _ _ => exact List.suffix_refl _

/-- Among tokens that all satisfy `P`, every value that a parser gives satisfies `Q`. -/
def Among {α : Type} (P : Token → Prop) (Q : α → Prop) (p : Parser α) : Prop :=
  ∀ ⦃c : Cursor⦄ ⦃a : α⦄ ⦃c' : Cursor⦄, (∀ t ∈ c.rest, P t) → p.run c = (some a, c') → Q a

namespace Among

variable {α β : Type} {P : Token → Prop} {Q : α → Prop} {R : β → Prop} {p : Parser α}
  {f : α → Parser β}

theorem pure {a : α} (h : Q a) : Among P Q (Pure.pure a : Parser α) := by
  intro c b c' _ hrun
  obtain rfl : a = b := by simpa using congrArg Prod.fst hrun
  exact h

theorem any : Among P (fun _ => True) p := fun _ _ _ _ _ => trivial

theorem mono {Q' : α → Prop} (himp : ∀ a, Q a → Q' a) (h : Among P Q p) : Among P Q' p :=
  fun _ a _ hc hrun => himp a (h hc hrun)

theorem bind [hmade : Made true p] (hp : Among P Q p) (hf : ∀ a, Q a → Among P R (f a)) :
    Among P R (p >>= f) := by
  intro c b c'' hc hrun
  obtain ⟨a, c', ha, hb⟩ := Parser.run_bind_eq_some hrun
  have hsuffix := hmade.rest_suffix c
  rw [ha] at hsuffix
  exact hf a (hp hc ha) (fun t ht => hc t (hsuffix.subset ht)) hb

/-- A part whose value does not matter. -/
theorem skip [Made true p] (hf : ∀ a, Among P R (f a)) : Among P R (p >>= f) :=
  bind any fun a _ => hf a

theorem branch {b : Prop} [Decidable b] {q : Parser α} (hp : Among P Q p) (hq : Among P Q q) :
    Among P Q (if b then p else q) := by
  split
  · exact hp
  · exact hq

theorem illegal : Among P Q (Parser.illegal : Parser α) := by
  intro c a c' _ hrun
  cases hrun

/-- A token that is asked for is one of those left. -/
theorem expectOf {kinds : List TokenKind} :
    Among P (fun t => t.kind ∈ kinds ∧ P t) (Parser.expectOf kinds) := by
  intro c t c' hc hrun
  unfold Parser.run Parser.expectOf at hrun
  cases hrest : c.rest with
  | nil => simp [hrest] at hrun
  | cons u us =>
      simp only [hrest] at hrun
      split at hrun
      · rename_i hkind
        obtain rfl : u = t := Option.some.inj (congrArg Prod.fst hrun)
        exact ⟨by simpa using hkind, hc u (by simp [hrest])⟩
      · cases hrun

theorem expect {kind : TokenKind} :
    Among P (fun t => t.kind = kind ∧ P t) (Parser.expect kind) :=
  mono (fun _ h => ⟨List.mem_singleton.mp h.1, h.2⟩) expectOf

/-- A word that is taken is one of those asked for. -/
theorem acceptWord {words : List String} :
    Among P (fun word? => ∀ word ∈ word?, word ∈ words) (Parser.acceptWord words) := by
  intro c word? c' _ hrun
  unfold Parser.run Parser.acceptWord Cursor.isWord at hrun
  cases hrest : c.rest with
  | nil =>
      simp only [hrest] at hrun
      obtain rfl := Option.some.inj (congrArg Prod.fst hrun)
      exact nofun
  | cons t ts =>
      simp only [hrest] at hrun
      split at hrun
      · rename_i hword
        obtain rfl := Option.some.inj (congrArg Prod.fst hrun)
        simpa [Cursor.peek, hrest] using (Bool.and_eq_true_iff.mp hword).2
      · obtain rfl := Option.some.inj (congrArg Prod.fst hrun)
        exact nofun

theorem fuelled {p : Nat → Parser α} (h : ∀ fuel, Among P Q (p fuel)) :
    Among P Q fun c => p (c.rest.length + 1) c :=
  fun _ _ _ hc hrun => h _ hc hrun

/-- Where none of some words is left, the branch behind them is not taken. -/
theorem absent {words : List String} {q : Parser α}
    (h : ∀ t, P t → t.kind = .identifier → t.value ∉ words) (hq : Among P Q q) :
    Among P Q (Parser.isWord words >>= fun b => if b then p else q) := by
  intro c a c' hc hrun
  have hword : c.isWord words = false := by
    unfold Cursor.isWord
    cases hrest : c.rest with
    | nil => rfl
    | cons t ts =>
        have hnot := h t (hc t (by simp [hrest]))
        by_cases hkind : t.kind = .identifier
        · simp [hnot hkind]
        · simp [hkind]
  have hrun' : q.run c = (some a, c') := by
    simpa [Parser.run, Parser.isWord, Parser.look, Bind.bind, hword] using hrun
  exact hq hc hrun'

theorem whileDo {again : Cursor → Bool} [hmade : Made true p] (hp : Among P Q p) :
    Among P (fun xs => ∀ x ∈ xs, Q x) (Parser.whileDo again p) := by
  have hloop : ∀ fuel, Among P (fun xs => ∀ x ∈ xs, Q x) (Parser.whileAux again p fuel) := by
    intro fuel
    induction fuel with
    | zero => exact illegal
    | succ fuel ih =>
        intro c xs c'' hc hrun
        unfold Parser.whileAux at hrun
        obtain ⟨b, c₀, hlook, hrest⟩ := Parser.run_bind_eq_some hrun
        obtain ⟨-, rfl⟩ : again c = b ∧ c = c₀ := by simpa [Parser.look, Parser.run] using hlook
        cases b with
        | true =>
            obtain ⟨x, c₁, hx, hmore⟩ := Parser.run_bind_eq_some hrest
            obtain ⟨ys, c₂, hys, hpure⟩ := Parser.run_bind_eq_some hmore
            obtain ⟨rfl, -⟩ : x :: ys = xs ∧ c₂ = c'' := by
              simpa [Parser.run, Pure.pure] using hpure
            have hsuffix := hmade.rest_suffix c
            rw [hx] at hsuffix
            have hall := ih (fun t ht => hc t (hsuffix.subset ht)) hys
            intro y hy
            rcases List.mem_cons.mp hy with rfl | hy
            · exact hp hc hx
            · exact hall y hy
        | false =>
            obtain ⟨rfl, -⟩ : [] = xs ∧ c = c'' := by simpa [Parser.run, Pure.pure] using hrest
            simp
  intro c xs c' hc hrun
  exact hloop _ hc hrun

theorem upTo {close : TokenKind} [hmade : Made true p] (hp : Among P Q p) :
    Among P (fun xs => ∀ x ∈ xs, Q x) (Parser.upTo close p) := by
  have hwhile : Made true (Parser.whileDo (fun c => !c.is close) p) :=
    .whileDo (fun _ _ _ => rfl) hmade
  unfold Parser.upTo
  exact .bind (.whileDo hp) fun _ hxs => .skip fun _ => .pure hxs

theorem sepBy1 {sep : TokenKind} [Made true p] (hp : Among P Q p) :
    Among P (fun xs => ∀ x ∈ xs, Q x) (Parser.sepBy1 sep p) := by
  have hrest : Made true (Parser.whileDo (fun c => c.is sep) (Parser.advance >>= fun _ => p)) :=
    .whileDo (fun _ _ _ => rfl) inferInstance
  unfold Parser.sepBy1
  exact .bind hp fun x hx => .bind (.whileDo (.skip fun _ => hp)) fun xs hxs =>
    .pure (List.forall_mem_cons.mpr ⟨hx, hxs⟩)

/-- A file that was read is what its items give. -/
theorem file {Tree : Type} (g : Grammar Tree) {Q : Tree → Prop} (h : Among P Q g.items) :
    Among P Q g.file := by
  intro c t c' hc hrun
  cases hfailed : c.failed with
  | true =>
      have hnone := (g.run_of_failed hfailed).symm.trans hrun
      cases hnone
  | false => exact h hc ((g.run_of_unfailed hfailed).symm.trans hrun)

end Among

end Source
end ClientGen
