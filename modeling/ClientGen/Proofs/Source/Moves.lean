import ClientGen.Document.Literal

/-! # Parsers made of moves

Every production of the grammars is made of a few moves of the cursor: looking
at it, passing over a token, reporting, registering a declaration. What all moves
keep, all productions keep, so it is proved here once, by induction on how a
parser is made, and each production only has to be shown to be made of moves.

A parser of this kind accounts for every token that it passes over. It registers
no declaration unless it is allowed to. And it does not read the history: what
was reported before changes neither its value nor its own reports.
-/

namespace ClientGen
namespace Source

/-- Parsers made of the moves of a cursor. A value that is looked up may not depend
on the reporter, and declarations are registered only if `registers` says so. -/
class inductive Made (registers : Bool) : {α : Type} → Parser α → Prop where
  | pure {α : Type} (a : α) : Made registers (Pure.pure a : Parser α)
  | bind {α β : Type} {p : Parser α} {f : α → Parser β} (hp : Made registers p)
      (hf : ∀ a, Made registers (f a)) : Made registers (p >>= f)
  | look {α : Type} {f : Cursor → α}
      (hf : ∀ c r n, f { c with reporter := r, fatalBefore := n } = f c) :
      Made registers (Parser.look f)
  | advance : Made registers Parser.advance
  | illegal {α : Type} : Made registers (Parser.illegal : Parser α)
  | giveUp {α : Type} : Made registers (Parser.giveUp : Parser α)
  | report (code : Code) (message : String) :
      Made registers (Parser.change fun c => c.reportHere code message)
  | attempt {α : Type} {p : Parser α} (hp : Made registers p) : Made registers (Parser.attempt p)
  | fuelled {α : Type} {p : Nat → Parser α} (hp : ∀ fuel, Made registers (p fuel)) :
      Made registers fun c => p (c.rest.length + 1) c
  | declare (first : Nat) (h : registers = true) : Made registers (Parser.declare first)

namespace Made

variable {registers : Bool} {α β : Type}

/-! ## How parsers are made

The instances let a production be taken apart by unfolding it. -/

instance (a : α) : Made registers (Pure.pure a : Parser α) := .pure a

instance {p : Parser α} {f : α → Parser β} [hp : Made registers p]
    [hf : ∀ a, Made registers (f a)] : Made registers (p >>= f) := .bind hp hf

instance {p : Parser α} {f : α → β} [hp : Made registers p] : Made registers (f <$> p) :=
  .bind hp fun a => .pure (f a)

instance {b : Prop} [Decidable b] {p q : Parser α} [hp : Made registers p]
    [hq : Made registers q] : Made registers (if b then p else q) := by
  split
  · exact hp
  · exact hq

/-- A choice by an answer. Long chains of choices are taken apart by it. -/
theorem branch {p : Parser Bool} {f g : Parser α} [hp : Made registers p] (hf : Made registers f)
    (hg : Made registers g) : Made registers (p >>= fun b => if b then f else g) :=
  .bind hp fun _ => inferInstance

instance : Made registers (Parser.illegal : Parser α) := .illegal

instance : Made registers (Parser.giveUp : Parser α) := .giveUp

instance : Made registers Parser.advance := .advance

instance (code : Code) (message : String) :
    Made registers (Parser.change fun c => c.reportHere code message) := .report code message

instance {p : Parser α} [hp : Made registers p] : Made registers (Parser.attempt p) := .attempt hp

instance (first : Nat) : Made true (Parser.declare first) := .declare first rfl

instance : Made registers Parser.here := .look fun _ _ _ => rfl

instance : Made registers Parser.place := .look fun _ _ _ => rfl

instance : Made registers Parser.kind? := .look fun _ _ _ => rfl

instance (k : TokenKind) : Made registers (Parser.is k) := .look fun _ _ _ => rfl

instance (words : List String) : Made registers (Parser.isWord words) := .look fun _ _ _ => rfl

instance (k : TokenKind) : Made registers (Parser.accept k) := by
  have haccept : Parser.accept k = (do
      if ← Parser.is k then
        Parser.advance
        return true
      else return false) := by
    funext c
    cases hk : c.is k <;> simp [Parser.accept, hk, Bind.bind, Pure.pure, Parser.is, Parser.look,
      Parser.advance, Parser.change]
  rw [haccept]
  infer_instance

instance (words : List String) : Made registers (Parser.acceptWord words) := by
  have haccept : Parser.acceptWord words = (do
      if ← Parser.isWord words then
        let word ← Parser.look fun c => c.peek.map (·.value)
        Parser.advance
        return word
      else return none) := by
    funext c
    cases hw : c.isWord words <;> simp [Parser.acceptWord, hw, Bind.bind, Pure.pure,
      Parser.isWord, Parser.look, Parser.advance, Parser.change]
  have hlook : Made registers (Parser.look fun c => c.peek.map (·.value)) := .look fun _ _ _ => rfl
  rw [haccept]
  infer_instance

instance : Made registers Parser.separator := by
  unfold Parser.separator
  infer_instance

/-- A token that a test lets through. -/
theorem token {p : Parser Token} (test : Token → Bool) (hp : ∀ c : Cursor, p.run c =
    match c.rest with
    | t :: _ => if test t then (some t, c.advance) else (none, c.illegal)
    | [] => (none, c.illegal)) : Made registers p := by
  have heq : p = (Parser.look (·.peek) >>= fun t? => t?.elim Parser.illegal fun t =>
      if test t then Parser.advance >>= fun _ => return t else Parser.illegal) := by
    funext c
    refine (hp c).trans ?_
    cases hrest : c.rest with
    | nil => simp [Bind.bind, Parser.look, Cursor.peek, hrest, Parser.illegal]
    | cons t ts =>
        cases ht : test t <;> simp [Bind.bind, Pure.pure, Parser.look, Cursor.peek, hrest, ht,
          Parser.illegal, Parser.advance, Parser.change]
  rw [heq]
  refine .bind (.look fun _ _ _ => rfl) fun t => ?_
  cases t with
  | none => exact .illegal
  | some t =>
      dsimp only [Option.elim]
      infer_instance

instance (kinds : List TokenKind) : Made registers (Parser.expectOf kinds) :=
  token (fun t => kinds.contains t.kind) fun c => by
    unfold Parser.run Parser.expectOf
    cases c.rest <;> rfl

instance (words : List String) : Made registers (Parser.expectWord words) :=
  token (fun t => t.kind == .identifier && words.contains t.value) fun c => by
    unfold Parser.run Parser.expectWord
    cases c.rest <;> rfl

instance (k : TokenKind) : Made registers (Parser.expect k) :=
  inferInstanceAs (Made registers (Parser.expectOf [k]))

instance : Made registers Parser.identifier :=
  inferInstanceAs (Made registers (Parser.expect .identifier))

/-! ### Loops, names and numbers -/

section Loops

variable {again : Cursor → Bool} {item : Parser α}

theorem whileAux (hagain : ∀ c r n, again { c with reporter := r, fatalBefore := n } = again c)
    (hitem : Made registers item) (fuel : Nat) :
    Made registers (Parser.whileAux again item fuel) := by
  induction fuel with
  | zero => exact .illegal
  | succ fuel ih =>
      have hlook : Made registers (Parser.look again) := .look hagain
      unfold Parser.whileAux
      infer_instance

theorem whileDo (hagain : ∀ c r n, again { c with reporter := r, fatalBefore := n } = again c)
    (hitem : Made registers item) : Made registers (Parser.whileDo again item) :=
  .fuelled fun fuel => whileAux hagain hitem fuel

instance (close : TokenKind) [hitem : Made registers item] :
    Made registers (Parser.upTo close item) := by
  have hloop : Made registers (Parser.whileDo (fun c => !c.is close) item) :=
    whileDo (fun _ _ _ => rfl) hitem
  unfold Parser.upTo
  infer_instance

instance (sep : TokenKind) [hitem : Made registers item] :
    Made registers (Parser.sepBy1 sep item) := by
  have hloop : Made registers (Parser.whileDo (fun c => c.is sep) do
      Parser.advance
      item) := whileDo (fun _ _ _ => rfl) inferInstance
  unfold Parser.sepBy1
  infer_instance

end Loops

instance : Made registers Parser.dottedName := by
  unfold Parser.dottedName
  infer_instance

instance : Made registers Parser.integer := by
  unfold Parser.integer
  refine .bind inferInstance fun negative => .bind inferInstance fun t => ?_
  cases Number.int64? t.value <;> infer_instance

end Made

/-! ## What all moves keep -/

/-- `c'` is further on in the same source: the same tokens, comments and codes, and
every token that is no longer ahead is counted as consumed. -/
structure Onward (c c' : Cursor) : Prop where
  tokens : c'.tokens = c.tokens
  comments : c'.comments = c.comments
  codes : c'.reporter.nonfatal = c.reporter.nonfatal
  place : c.place ≤ c'.place
  total : c'.place + c'.rest.length = c.place + c.rest.length

namespace Onward

variable {c c' c'' : Cursor}

theorem refl (c : Cursor) : Onward c c := ⟨rfl, rfl, rfl, Nat.le_refl _, rfl⟩

theorem trans (h : Onward c c') (h' : Onward c' c'') : Onward c c'' :=
  ⟨h'.tokens.trans h.tokens, h'.comments.trans h.comments, h'.codes.trans h.codes,
    Nat.le_trans h.place h'.place, h'.total.trans h.total⟩

theorem advance (c : Cursor) : Onward c c.advance := by
  cases hrest : c.rest with
  | nil =>
      have hsame : c.advance = c := by simp [Cursor.advance, hrest]
      rw [hsame]
      exact refl c
  | cons t ts =>
      simp only [Cursor.advance, hrest]
      refine ⟨rfl, rfl, rfl, by simp, ?_⟩
      simp only [hrest, List.length_cons]
      omega

theorem illegal (c : Cursor) : Onward c c.illegal := by
  unfold Cursor.illegal
  cases c.rest <;> exact ⟨rfl, rfl, rfl, Nat.le_refl _, rfl⟩

end Onward

def Reporter.after (earlier : List Diagnostic) (r : Reporter) : Reporter :=
  { r with reported := earlier ++ r.reported }

theorem Reporter.report_after (earlier : List Diagnostic) (r : Reporter) (d : Diagnostic) :
    (r.after earlier).report d = (r.report d).after earlier := by
  simp [after, report]

theorem Reporter.fatal_after (earlier : List Diagnostic) (r : Reporter) :
    (r.after earlier).fatal = earlier.filter r.isFatal ++ r.fatal :=
  List.filter_append _ _

/-- The cursor with more reported before its source, and nothing else changed. -/
def Cursor.after (earlier : List Diagnostic) (c : Cursor) : Cursor :=
  { c with
    reporter := c.reporter.after earlier,
    fatalBefore := c.fatalBefore + (earlier.filter c.reporter.isFatal).length }

namespace Cursor

variable (earlier : List Diagnostic) (c : Cursor)

theorem report_after (d : Diagnostic) :
    (c.after earlier).report d = (c.report d).after earlier := by
  simp only [after, report, Reporter.report_after]
  rfl

theorem advance_after : (c.after earlier).advance = c.advance.after earlier := by
  unfold advance
  cases hrest : c.rest <;> simp [after, hrest]

theorem illegal_after : (c.after earlier).illegal = c.illegal.after earlier := by
  have hrest : (c.after earlier).rest = c.rest := rfl
  unfold illegal
  rw [hrest]
  cases c.rest <;> exact report_after earlier c _

theorem error?_after : (c.after earlier).error? = c.error? := by
  have hbefore : (c.after earlier).fatalBefore =
      (earlier.filter c.reporter.isFatal).length + c.fatalBefore := Nat.add_comm _ _
  have hfailed : (c.after earlier).failed = c.failed := rfl
  have hfatal : (c.after earlier).reporter.fatal =
      earlier.filter c.reporter.isFatal ++ c.reporter.fatal := c.reporter.fatal_after earlier
  unfold error?
  rw [hfailed, hbefore, hfatal, List.getElem?_append_right (Nat.le_add_right _ _),
    Nat.add_sub_cancel_left]

end Cursor

namespace Made

variable {registers : Bool} {α : Type} {p : Parser α}

/-- A parser goes on in its source. -/
theorem onward (h : Made registers p) (c : Cursor) : Onward c (p.run c).2 := by
  induction h generalizing c with
  | pure a => exact .refl c
  | @bind _ _ p f _ _ ihp ihf =>
      have hp := ihp c
      rw [Parser.run_bind]
      cases hrun : p.run c with
      | mk value c' =>
          rw [hrun] at hp
          cases value with
          | none => exact hp
          | some a => exact hp.trans (ihf a c')
  | look _ => exact .refl c
  | advance => exact .advance c
  | illegal => exact .illegal c
  | giveUp => exact .refl c
  | report _ _ => exact ⟨rfl, rfl, rfl, Nat.le_refl _, rfl⟩
  | attempt _ ih => exact ih c
  | fuelled _ ih => exact ih _ c
  | declare _ _ => exact ⟨rfl, rfl, rfl, Nat.le_refl _, rfl⟩

/-- A parser that may not register declarations leaves them as they are. -/
theorem decls_eq (h : Made false p) (c : Cursor) : (p.run c).2.decls = c.decls := by
  induction h generalizing c with
  | pure a => rfl
  | @bind _ _ p f _ _ ihp ihf =>
      have hp := ihp c
      rw [Parser.run_bind]
      cases hrun : p.run c with
      | mk value c' =>
          rw [hrun] at hp
          cases value with
          | none => exact hp
          | some a => exact (ihf a c').trans hp
  | look _ => rfl
  | advance =>
      change c.advance.decls = c.decls
      unfold Cursor.advance
      cases c.rest <;> rfl
  | illegal =>
      change c.illegal.decls = c.decls
      unfold Cursor.illegal
      cases c.rest <;> rfl
  | giveUp => rfl
  | report _ _ => rfl
  | attempt _ ih => exact ih c
  | fuelled _ ih => exact ih _ c
  | declare _ h => cases h

/-- What was reported earlier is not read: it only stays in front of the reports. -/
theorem run_after (h : Made registers p) (earlier : List Diagnostic) (c : Cursor) :
    p.run (c.after earlier) = ((p.run c).1, (p.run c).2.after earlier) := by
  induction h generalizing c with
  | pure a => rfl
  | @bind _ _ p f _ _ ihp ihf =>
      rw [Parser.run_bind, Parser.run_bind, ihp c]
      cases hrun : p.run c with
      | mk value c' =>
          cases value with
          | none => rfl
          | some a => exact ihf a c'
  | look hf => exact Prod.ext (congrArg some (hf c _ _)) rfl
  | advance => exact Prod.ext rfl (Cursor.advance_after earlier c)
  | illegal => exact Prod.ext rfl (Cursor.illegal_after earlier c)
  | giveUp => rfl
  | report code message => exact Prod.ext rfl (Cursor.report_after earlier c _)
  | attempt _ ih =>
      simp only [Parser.run, Parser.attempt] at ih ⊢
      rw [ih c]
  | fuelled _ ih => exact ih _ c
  | declare _ _ => rfl

end Made

end Source
end ClientGen
