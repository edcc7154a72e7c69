import ClientGen.Document.Literal
import ClientGen.Proofs.Source.Reading
import Mathlib.Data.List.Infix

/-! # Parsers in lockstep

A grammar decides by the kinds and values of tokens alone. Below, two parsers go
in *lockstep* when, from cursors that see the same faces, they consume the same
number of tokens, report the same notices at whatever places, and give values
that are equal once an erasure has been applied, or both none. A parser in
lockstep with itself therefore reads no position, no comment and no reporter.

The same walk through a production settles what it owes to the reporter. A parse
without a value has reported something, whatever was read; and it reports once
and only then, as long as the faces ahead are *steady*: none of their suffixes is
one where the grammar drops a failure and reads on. Which suffixes these are is a
parameter, which the two grammars fill in.
-/

namespace ClientGen
namespace Source

/-- What a diagnostic says, apart from its place. -/
def Diagnostic.notice (d : Diagnostic) : Code × String := (d.code, d.message)

theorem Token.face_eq_iff {t u : Token} :
    t.face = u.face ↔ t.kind = u.kind ∧ t.value = u.value := by
  simp [Token.face]

theorem Token.map_value_eq {ts us : List Token} (h : ts.map Token.face = us.map Token.face) :
    ts.map (·.value) = us.map (·.value) := by
  simpa [Function.comp_def, Token.face] using congrArg (List.map Face.value) h

/-! ## One run -/

/-- `c'` comes after `c` in a parse: it stands `n` tokens further on, and the
diagnostics `ds` were reported on the way. A parse reports nothing harmless. -/
structure Follows (n : Nat) (ds : List Diagnostic) (c c' : Cursor) : Prop where
  rest : c'.rest = c.rest.drop n
  reporter : c'.reporter = { c.reporter with reported := c.reporter.reported ++ ds }
  failed : c'.failed = (c.failed || ds.any c.reporter.isFatal)
  fatalBefore : c'.fatalBefore = c.fatalBefore
  serious : ∀ d ∈ ds, d.code ∉ Code.harmless

namespace Follows

variable {c c' c'' : Cursor} {m n : Nat} {ds es : List Diagnostic}

theorem refl (c : Cursor) : Follows 0 [] c c :=
  ⟨rfl, by simp, by simp, rfl, by simp⟩

theorem faces (h : Follows n ds c c') : c'.faces = c.faces.drop n := by
  rw [Cursor.faces, h.rest, List.map_drop, Cursor.faces]

theorem isFatal (h : Follows n ds c c') : c'.reporter.isFatal = c.reporter.isFatal := by
  rw [h.reporter]
  rfl

theorem trans (h : Follows m ds c c') (h' : Follows n es c' c'') :
    Follows (m + n) (ds ++ es) c c'' := by
  constructor
  · rw [h'.rest, h.rest, List.drop_drop]
  · rw [h'.reporter, h.reporter]
    simp
  · rw [h'.failed, h.failed, h.isFatal, List.any_append, Bool.or_assoc]
  · rw [h'.fatalBefore, h.fatalBefore]
  · intro d hd
    rcases List.mem_append.mp hd with hd | hd
    · exact h.serious d hd
    · exact h'.serious d hd

/-- Passing over a token reports nothing. -/
theorem advance (c : Cursor) : Follows 1 [] c c.advance := by
  unfold Cursor.advance
  split
  · rename_i t ts hrest
    exact ⟨by simp [hrest], by simp, by simp, rfl, by simp⟩
  · rename_i hrest
    exact ⟨by simp [hrest], by simp, by simp, rfl, by simp⟩

/-- One diagnostic consumes nothing. -/
theorem report (c : Cursor) {d : Diagnostic} (hd : d.code ∉ Code.harmless) :
    Follows 0 [d] c (c.report d) :=
  ⟨rfl, rfl, by simp [Cursor.report], rfl, by simpa using hd⟩

/-- Registering a declaration leaves what a parse reads as it is. -/
theorem declare (c : Cursor) (first : Option Nat) : Follows 0 [] c (c.declare first) :=
  ⟨rfl, by simp [Cursor.declare], by simp [Cursor.declare], rfl, by simp⟩

end Follows

/-- What is reported where the grammar does not allow the current token, or the
end of the source. -/
def Cursor.objection (c : Cursor) : Diagnostic :=
  match c.rest with
  | t :: _ => .illegalToken c.uri t.span.first t.value
  | [] => { location := { uri := c.uri, position := c.position }, code := Code.unexpectedEnd,
            message := "unexpected EOF" }

theorem Cursor.illegal_eq (c : Cursor) : c.illegal = c.report c.objection := by
  unfold Cursor.illegal Cursor.objection
  cases c.rest <;> rfl

theorem Follows.illegal (c : Cursor) : Follows 0 [c.objection] c c.illegal := by
  rw [Cursor.illegal_eq]
  apply Follows.report
  unfold Cursor.objection
  cases c.rest with
  | nil => exact (by decide : Code.unexpectedEnd ∉ Code.harmless)
  | cons t ts => exact (by decide : Code.illegalToken ∉ Code.harmless)

/-- What an objection says is decided by the faces. -/
theorem Cursor.notice_objection {c d : Cursor} (h : c.faces = d.faces) :
    c.objection.notice = d.objection.notice := by
  unfold Cursor.faces at h
  unfold Cursor.objection
  cases hc : c.rest with
  | nil =>
      have hd : d.rest = [] := by simpa [hc] using h.symm
      rw [hd]
      rfl
  | cons t ts =>
      rw [hc] at h
      obtain ⟨u, us, hd, hface, -⟩ := Cursor.exists_of_faces_cons h.symm
      have hvalue : u.value = t.value := congrArg Face.value hface
      rw [hd]
      simp [Diagnostic.notice, Diagnostic.illegalToken, hvalue]

theorem Cursor.map_peek_eq {α : Type} {c d : Cursor} (f : Face → α) (h : c.faces = d.faces) :
    (c.peek.map fun t => f t.face) = d.peek.map fun t => f t.face := by
  have hhead := congrArg (fun fs => fs.head?.map f) h
  simpa [Cursor.peek, Cursor.faces, Function.comp_def] using hhead

/-- A cursor at some faces: its tokens are at no particular place, and nothing is
reported. -/
def Cursor.ofFaces (fs : List Face) : Cursor :=
  { uri := "", tokens := fs.map Face.token, comments := [], rest := fs.map Face.token,
    reporter := {} }

@[simp] theorem Cursor.faces_ofFaces (fs : List Face) : (Cursor.ofFaces fs).faces = fs := by
  simp [Cursor.faces, Cursor.ofFaces, Face.token, Token.face, Function.comp_def]

/-! ## Two runs -/

section Lockstep

variable {α β γ δ : Type}

/-- How two runs `x` and `y` from the cursors `c` and `d` agree. What is owed
beyond that, one report for no value and none for a value, holds if `S` does. -/
structure Agree (S : Prop) (e : α → γ) (c d : Cursor) (n : Nat) (ds es : List Diagnostic)
    (x y : Option α × Cursor) : Prop where
  left : Follows n ds c x.2
  right : Follows n es d y.2
  notices : ds.map Diagnostic.notice = es.map Diagnostic.notice
  values : x.1.map e = y.1.map e
  reported : x.1 = none → ds ≠ []
  once : S → ds.length = if x.1.isSome then 0 else 1

/-- Two parsers run alike from two given cursors. -/
def LockstepAt (S : Prop) (e : α → γ) (p q : Parser α) (c d : Cursor) : Prop :=
  ∃ n ds es, Agree S e c d n ds es (p.run c) (q.run d)

/-- Every suffix of some faces meets a condition. -/
def Steady (ok : List Face → Bool) (fs : List Face) : Prop := ∀ t ∈ fs.tails, ok t = true

instance (ok : List Face → Bool) (fs : List Face) : Decidable (Steady ok fs) :=
  inferInstanceAs (Decidable (∀ t ∈ fs.tails, ok t = true))

theorem Steady.self {ok : List Face → Bool} {fs : List Face} (h : Steady ok fs) : ok fs = true :=
  h fs ((List.mem_tails _ _).mpr List.suffix_rfl)

theorem Steady.drop {ok : List Face → Bool} {fs : List Face} (h : Steady ok fs) (n : Nat) :
    Steady ok (fs.drop n) := by
  intro t ht
  have hsuffix : t <:+ fs := ((List.mem_tails _ _).mp ht).trans (List.drop_suffix n fs)
  exact h t ((List.mem_tails _ _).mpr hsuffix)

/-- Two parsers run alike wherever the same faces are ahead. -/
def Lockstep (ok : List Face → Bool) (e : α → γ) (p q : Parser α) : Prop :=
  ∀ c d : Cursor, c.faces = d.faces → LockstepAt (Steady ok c.faces) e p q c d

variable {S S' : Prop} {ok : List Face → Bool} {e : α → γ} {e' : β → δ} {p q : Parser α}
  {f g : α → Parser β} {c d : Cursor}

theorem LockstepAt.mono (h : LockstepAt S e p q c d) (hS : S' → S) :
    LockstepAt S' e p q c d := by
  obtain ⟨n, ds, es, a⟩ := h
  exact ⟨n, ds, es, a.left, a.right, a.notices, a.values, a.reported, fun h => a.once (hS h)⟩

/-- Two runs with values: the same tokens are consumed and nothing is reported. -/
theorem LockstepAt.value {a b : α} {c' d' : Cursor} {n : Nat} (hp : p.run c = (some a, c'))
    (hq : q.run d = (some b, d')) (hab : e a = e b) (hc : Follows n [] c c')
    (hd : Follows n [] d d') : LockstepAt S e p q c d := by
  unfold LockstepAt
  rw [hp, hq]
  exact ⟨n, [], [], hc, hd, rfl, congrArg some hab, by simp, fun _ => rfl⟩

/-- Two runs without values: each reports one diagnostic. -/
theorem LockstepAt.refusal {x y : Diagnostic} {c' d' : Cursor} (hp : p.run c = (none, c'))
    (hq : q.run d = (none, d')) (hxy : x.notice = y.notice) (hc : Follows 0 [x] c c')
    (hd : Follows 0 [y] d d') : LockstepAt S e p q c d := by
  unfold LockstepAt
  rw [hp, hq]
  exact ⟨0, [x], [y], hc, hd, by simp [hxy], rfl, by simp, fun _ => rfl⟩

/-- Sequencing: what follows has to run alike from where the first parsers stop,
for values that are equal after erasure. -/
theorem LockstepAt.bind (hp : LockstepAt S e p q c d)
    (hf : ∀ a b c' d', p.run c = (some a, c') → q.run d = (some b, d') → e a = e b →
      (∀ ok, Steady ok c.faces → Steady ok c'.faces) → c'.faces = d'.faces →
      LockstepAt S e' (f a) (g b) c' d') (hfaces : c.faces = d.faces) :
    LockstepAt S e' (p >>= f) (q >>= g) c d := by
  obtain ⟨n, ds, es, h⟩ := hp
  unfold LockstepAt
  rw [Parser.run_bind, Parser.run_bind]
  obtain ⟨x, c', hx⟩ : ∃ x c', p.run c = (x, c') := ⟨_, _, rfl⟩
  obtain ⟨y, d', hy⟩ : ∃ y d', q.run d = (y, d') := ⟨_, _, rfl⟩
  rw [hx, hy] at h
  rw [hx, hy]
  cases x with
  | none =>
      have hnone : y = none := by simpa using h.values.symm
      subst hnone
      exact ⟨n, ds, es, h.left, h.right, h.notices, rfl, fun _ => h.reported rfl, h.once⟩
  | some a =>
      obtain ⟨b, rfl, hab⟩ : ∃ b, y = some b ∧ e b = e a := by simpa using h.values.symm
      have hc' : c'.faces = d'.faces := by rw [h.left.faces, h.right.faces, hfaces]
      have hkeep : ∀ ok, Steady ok c.faces → Steady ok c'.faces :=
        fun ok hS => h.left.faces ▸ hS.drop n
      obtain ⟨m, ds', es', h'⟩ := hf a b c' d' hx hy hab.symm hkeep hc'
      refine ⟨n + m, ds ++ ds', es ++ es', h.left.trans h'.left, h.right.trans h'.right, ?_,
        h'.values, ?_, ?_⟩
      · rw [List.map_append, List.map_append, h.notices, h'.notices]
      · intro hnone hnil
        exact h'.reported hnone (List.append_eq_nil_iff.mp hnil).2
      · intro hS
        have hzero : ds.length = 0 := h.once hS
        rw [List.length_append, hzero, h'.once hS, Nat.zero_add]

/-- A failure may be dropped where it does not happen while `S` holds. -/
theorem LockstepAt.attempt (hp : LockstepAt S e p q c d) (hS : S → (p.run c).1.isSome) :
    LockstepAt S (Option.map e) (Parser.attempt p) (Parser.attempt q) c d := by
  obtain ⟨n, ds, es, h⟩ := hp
  refine ⟨n, ds, es, h.left, h.right, h.notices, congrArg some h.values, ?_, ?_⟩
  · intro hnone
    cases hnone
  · intro hs
    have hzero := h.once hs
    rwa [hS hs] at hzero

namespace Lockstep

theorem isSome_eq (h : Lockstep ok e p q) (hfaces : c.faces = d.faces) :
    (p.run c).1.isSome = (q.run d).1.isSome := by
  obtain ⟨n, ds, es, h⟩ := h c d hfaces
  simpa using congrArg Option.isSome h.values

theorem faces_eq (h : Lockstep ok e p q) (hfaces : c.faces = d.faces) :
    (p.run c).2.faces = (q.run d).2.faces := by
  obtain ⟨n, ds, es, h⟩ := h c d hfaces
  rw [h.left.faces, h.right.faces, hfaces]

theorem runAt (h : Lockstep ok e p q) (hfaces : c.faces = d.faces) (hS : S → Steady ok c.faces) :
    LockstepAt S e p q c d :=
  (h c d hfaces).mono hS

theorem bind (hp : Lockstep ok e p q) (hf : ∀ a b, e a = e b → Lockstep ok e' (f a) (g b)) :
    Lockstep ok e' (p >>= f) (q >>= g) := by
  intro c d hfaces
  refine (hp c d hfaces).bind ?_ hfaces
  intro a b c' d' _ _ hab hkeep hfaces'
  exact (hf a b hab).runAt hfaces' (hkeep ok)

theorem pure {a b : α} (h : e a = e b) : Lockstep ok e (pure a) (pure b) := by
  intro c d _
  exact .value rfl rfl h (Follows.refl c) (Follows.refl d)

/-- A value that is read off the cursor and is the same for the same faces. -/
theorem look {u v : Cursor → α} (h : ∀ c d : Cursor, c.faces = d.faces → e (u c) = e (v d)) :
    Lockstep ok e (Parser.look u) (Parser.look v) := by
  intro c d hfaces
  exact .value rfl rfl (h c d hfaces) (Follows.refl c) (Follows.refl d)

theorem map {k l : α → β} (hp : Lockstep ok e p q) (h : ∀ a b, e a = e b → e' (k a) = e' (l b)) :
    Lockstep ok e' (k <$> p) (l <$> q) :=
  hp.bind fun a b hab => pure (h a b hab)

/-- A branch on the same answer. -/
theorem branch {p q : Parser α} {f f' g g' : Parser β} (hp : Lockstep ok (fun a => a) p q)
    (test : α → Bool) (h : Lockstep ok e' f g) (h' : Lockstep ok e' f' g') :
    Lockstep ok e' (p >>= fun a => if test a then f else f')
      (q >>= fun a => if test a then g else g') := by
  refine hp.bind fun a _ hab => ?_
  subst hab
  cases test a
  · exact h'
  · exact h

theorem illegal : Lockstep ok e Parser.illegal Parser.illegal := by
  intro c d hfaces
  exact .refusal rfl rfl (Cursor.notice_objection hfaces) (Follows.illegal c) (Follows.illegal d)

/-- A parser that is given as many steps as there are tokens left. -/
theorem fuelled {p q : Nat → Parser α} (h : ∀ fuel, Lockstep ok e (p fuel) (q fuel)) :
    Lockstep ok e (fun c => p (c.rest.length + 1) c) (fun c => q (c.rest.length + 1) c) := by
  intro c d hfaces
  have hlength : c.rest.length = d.rest.length := by
    simpa [Cursor.faces] using congrArg List.length hfaces
  have hrun := h (c.rest.length + 1) c d hfaces
  unfold LockstepAt at hrun ⊢
  simp only [Parser.run] at hrun ⊢
  rw [← hlength]
  exact hrun

/-! ### Tokens -/

theorem here : Lockstep ok (fun _ => ()) Parser.here Parser.here :=
  look fun _ _ _ => rfl

theorem place : Lockstep ok (fun _ => ()) Parser.place Parser.place :=
  look fun _ _ _ => rfl

theorem is (k : TokenKind) : Lockstep ok (fun b => b) (Parser.is k) (Parser.is k) :=
  look fun c d h => by rw [Cursor.is_eq, Cursor.is_eq, h]

theorem isWord (words : List String) :
    Lockstep ok (fun b => b) (Parser.isWord words) (Parser.isWord words) :=
  look fun c d h => by rw [Cursor.isWord_eq, Cursor.isWord_eq, h]

theorem kind? : Lockstep ok (fun k => k) Parser.kind? Parser.kind? :=
  look fun _ _ h => Cursor.map_peek_eq Face.kind h

theorem advance : Lockstep ok (fun _ => ()) Parser.advance Parser.advance := by
  intro c d _
  exact .value rfl rfl rfl (Follows.advance c) (Follows.advance d)

theorem declare (first first' : Nat) :
    Lockstep ok (fun _ => ()) (Parser.declare first) (Parser.declare first') := by
  intro c d _
  exact .value rfl rfl rfl (Follows.declare c first) (Follows.declare d first')

theorem accept (k : TokenKind) : Lockstep ok (fun b => b) (Parser.accept k) (Parser.accept k) := by
  have haccept : Parser.accept k = (do
      if ← Parser.is k then
        Parser.advance
        return true
      else return false) := by
    funext c
    cases hk : c.is k <;> simp [Parser.accept, hk, Bind.bind, Pure.pure, Parser.is, Parser.look,
      Parser.advance, Parser.change]
  rw [haccept]
  exact (is k).branch _ (advance.bind fun _ _ _ => pure rfl) (pure rfl)

theorem acceptWord (words : List String) :
    Lockstep ok (fun w => w) (Parser.acceptWord words) (Parser.acceptWord words) := by
  have haccept : Parser.acceptWord words = (do
      if ← Parser.isWord words then
        let word ← Parser.look fun c => c.peek.map (·.value)
        Parser.advance
        return word
      else return none) := by
    funext c
    cases hw : c.isWord words <;> simp [Parser.acceptWord, hw, Bind.bind, Pure.pure, Parser.isWord,
      Parser.look, Parser.advance, Parser.change]
  rw [haccept]
  refine (isWord words).branch _ ?_ (pure rfl)
  refine (look (e := fun w => w) ?_).bind fun w _ h => advance.bind fun _ _ _ => pure h
  exact fun c d h => Cursor.map_peek_eq Face.value h

theorem separator : Lockstep ok (fun _ => ()) Parser.separator Parser.separator := by
  unfold Parser.separator
  exact (accept .comma).branch _ (pure rfl) ((accept .semicolon).bind fun _ _ _ => pure rfl)

/-- A token that a test on its face lets through. -/
theorem token {ok : List Face → Bool} (test : Face → Bool) {p : Parser Token}
    (hp : ∀ c : Cursor, p.run c =
      match c.rest with
      | t :: _ => if test t.face then (some t, c.advance) else (none, c.illegal)
      | [] => (none, c.illegal)) :
    Lockstep ok Token.face p p := by
  intro c d hfaces
  have hrefuse : (p.run c = (none, c.illegal)) → (p.run d = (none, d.illegal)) →
      LockstepAt (Steady ok c.faces) Token.face p p c d := fun hc hd =>
    .refusal hc hd (Cursor.notice_objection hfaces) (Follows.illegal c) (Follows.illegal d)
  have hpc := hp c
  have hpd := hp d
  cases hc : c.rest with
  | nil =>
      have hd : d.rest = [] := by simpa [Cursor.faces, hc] using hfaces.symm
      rw [hc] at hpc
      rw [hd] at hpd
      exact hrefuse hpc hpd
  | cons t ts =>
      have hcons : d.faces = t.face :: ts.map Token.face := by
        rw [← hfaces, Cursor.faces, hc, List.map_cons]
      obtain ⟨u, us, hd, hface, -⟩ := Cursor.exists_of_faces_cons hcons
      rw [hc] at hpc
      rw [hd] at hpd
      simp only [hface] at hpc hpd
      cases htest : test t.face with
      | true =>
          rw [htest, if_pos rfl] at hpc hpd
          exact .value hpc hpd hface.symm (Follows.advance c) (Follows.advance d)
      | false =>
          rw [htest, if_neg Bool.false_ne_true] at hpc hpd
          exact hrefuse hpc hpd

theorem expectOf (kinds : List TokenKind) :
    Lockstep ok Token.face (Parser.expectOf kinds) (Parser.expectOf kinds) :=
  token (fun f => kinds.contains f.kind) fun c => by
    simp only [Parser.run, Parser.expectOf]
    cases c.rest <;> rfl

theorem expect (k : TokenKind) : Lockstep ok Token.face (Parser.expect k) (Parser.expect k) :=
  expectOf [k]

theorem identifier : Lockstep ok Token.face Parser.identifier Parser.identifier :=
  expect .identifier

theorem expectWord (words : List String) :
    Lockstep ok Token.face (Parser.expectWord words) (Parser.expectWord words) :=
  token (Face.isWord words) fun c => by
    simp only [Parser.run, Parser.expectWord]
    cases c.rest <;> rfl

/-! ### Loops -/

/-- A loop whose condition is decided by the faces. -/
theorem whileAux {again : Cursor → Bool}
    (hagain : ∀ c d : Cursor, c.faces = d.faces → again c = again d) (hp : Lockstep ok e p q)
    (fuel : Nat) :
    Lockstep ok (List.map e) (Parser.whileAux again p fuel) (Parser.whileAux again q fuel) := by
  induction fuel with
  | zero => exact illegal
  | succ fuel ih =>
      unfold Parser.whileAux
      refine (look (e := fun b => b) hagain).branch _ ?_ (pure rfl)
      refine hp.bind fun x y hxy => ih.bind fun xs ys hxs => pure ?_
      rw [List.map_cons, List.map_cons, hxy, hxs]

theorem whileDo {again : Cursor → Bool}
    (hagain : ∀ c d : Cursor, c.faces = d.faces → again c = again d) (hp : Lockstep ok e p q) :
    Lockstep ok (List.map e) (Parser.whileDo again p) (Parser.whileDo again q) :=
  fuelled (whileAux hagain hp)

theorem upTo (close : TokenKind) (hp : Lockstep ok e p q) :
    Lockstep ok (List.map e) (Parser.upTo close p) (Parser.upTo close q) := by
  unfold Parser.upTo
  refine (whileDo ?_ hp).bind fun xs ys hxs => advance.bind fun _ _ _ => pure hxs
  intro c d h
  rw [Cursor.is_eq, Cursor.is_eq, h]

theorem sepBy1 (sep : TokenKind) (hp : Lockstep ok e p q) :
    Lockstep ok (List.map e) (Parser.sepBy1 sep p) (Parser.sepBy1 sep q) := by
  unfold Parser.sepBy1
  refine hp.bind fun x y hxy => ?_
  refine (whileDo ?_ (advance.bind fun _ _ _ => hp)).bind fun xs ys hxs => pure ?_
  · intro c d h
    rw [Cursor.is_eq, Cursor.is_eq, h]
  · rw [List.map_cons, List.map_cons, hxy, hxs]

/-! ### Names and numbers -/

theorem dottedName : Lockstep ok (fun s => s) Parser.dottedName Parser.dottedName := by
  unfold Parser.dottedName
  refine (sepBy1 .dot identifier).bind fun ts us h => pure ?_
  rw [Token.map_value_eq h]

theorem integer : Lockstep ok (fun n => n) Parser.integer Parser.integer := by
  unfold Parser.integer
  refine (accept .minus).bind fun negative _ h => ?_
  subst h
  refine (expectOf [.integerDecimal, .integerHex]).bind fun t u h => ?_
  have hvalue : t.value = u.value := congrArg Face.value h
  rw [hvalue]
  cases Number.int64? u.value with
  | some n => exact pure rfl
  | none =>
      intro c d _
      have hcode : Code.invalidNumber ∉ Code.harmless := by decide
      refine .refusal rfl rfl ?_ (Follows.report c hcode) (Follows.report d hcode)
      rfl

end Lockstep
end Lockstep

end Source

theorem Const.ofNumber_eq (sign : String) {t u : Source.Token} (h : t.face = u.face) :
    Const.ofNumber sign t = Const.ofNumber sign u := by
  obtain ⟨hkind, hvalue⟩ := Source.Token.face_eq_iff.mp h
  rw [Const.ofNumber, Const.ofNumber, hkind, hvalue]

end ClientGen
