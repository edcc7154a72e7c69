import ClientGen.Source.Cursor

/-! # Reading spelled productions

A grammar sees the kind and the value of a token, never its place. Below, a
parser *reads* a sequence of such faces when it consumes exactly them, whatever
stands after them within a stated limit, reports nothing and gives a value with
a stated property. The limit is on the first face after the sequence only: it is
what keeps a parser that takes optional parts from running into its successor.
Reading composes along `>>=`, so each production is settled by one walk through
its spelling.
-/

namespace ClientGen
namespace Source

/-- What a grammar sees of a token. -/
structure Face where
  kind : TokenKind
  value : String
deriving DecidableEq, Repr, Inhabited

def Token.face (t : Token) : Face := { kind := t.kind, value := t.value }

/-- The value of a punctuation mark; kinds whose values vary have none. -/
def TokenKind.symbol : TokenKind → String
  | curlyOpen => "\x7b"
  | curlyClose => "\x7d"
  | squareOpen => "["
  | squareClose => "]"
  | parenOpen => "("
  | parenClose => ")"
  | plus => "+"
  | minus => "-"
  | dot => "."
  | star => "*"
  | comma => ","
  | colon => ":"
  | angleOpen => "<"
  | angleClose => ">"
  | equal => "="
  | slash => "/"
  | semicolon => ";"
  | _ => ""

namespace Face

def word (value : String) : Face := { kind := .identifier, value }

def mark (kind : TokenKind) : Face := { kind, value := kind.symbol }

def text (value : String) : Face := { kind := .text, value }

def token (f : Face) : Token := { kind := f.kind, value := f.value, span := default }

def isWord (words : List String) (f : Face) : Bool :=
  f.kind == .identifier && words.contains f.value

@[simp] theorem kind_word (s : String) : (word s).kind = .identifier := rfl

@[simp] theorem value_word (s : String) : (word s).value = s := rfl

@[simp] theorem kind_mark (k : TokenKind) : (mark k).kind = k := rfl

@[simp] theorem kind_text (s : String) : (text s).kind = .text := rfl

@[simp] theorem value_text (s : String) : (text s).value = s := rfl

@[simp] theorem isWord_word (words : List String) (s : String) :
    (word s).isWord words = words.contains s := rfl

theorem isWord_eq_false_mono {f : Face} {words words' : List String}
    (h : f.isWord words = false) (hw : ∀ w ∈ words', w ∈ words) : f.isWord words' = false := by
  simp only [isWord, Bool.and_eq_false_iff, List.contains_eq_mem, decide_eq_false_iff_not] at h ⊢
  exact h.imp_right fun hv hm => hv (hw _ hm)

theorem isWord_eq_false_of_kind {f : Face} (h : f.kind ≠ .identifier) (words : List String) :
    f.isWord words = false := by
  simp [isWord, h]

end Face

/-- What a grammar sees of the tokens that are left. -/
def Cursor.faces (c : Cursor) : List Face := c.rest.map Token.face

/-- The limit that the next face is none of some kinds and none of some words.
The end of the tokens is within every such limit. -/
def avoids (kinds : List TokenKind) (words : List String) (next : Option Face) : Prop :=
  ∀ f ∈ next, f.kind ∉ kinds ∧ f.isWord words = false

section Avoids

variable {kinds : List TokenKind} {words : List String}

@[simp] theorem avoids_none : avoids kinds words none := by
  simp [avoids]

@[simp] theorem avoids_some {f : Face} :
    avoids kinds words (some f) ↔ f.kind ∉ kinds ∧ f.isWord words = false := by
  simp [avoids]

theorem avoids_of_kind {f : Face} (h : f.kind ∉ kinds) : avoids kinds [] (some f) :=
  avoids_some.mpr ⟨h, by simp [Face.isWord]⟩

theorem avoids_or {a b : Option Face} (ha : avoids kinds words a) (hb : avoids kinds words b) :
    avoids kinds words (a.or b) := by
  cases a with
  | none => simpa using hb
  | some f => simpa using ha

theorem avoids_append {s t : List Face} (hs : avoids kinds words s.head?)
    (ht : avoids kinds words t.head?) : avoids kinds words (s ++ t).head? := by
  rw [List.head?_append]
  exact avoids_or hs ht

theorem avoids_mono {kinds' : List TokenKind} {words' : List String} {o : Option Face}
    (h : avoids kinds words o) (hk : ∀ k ∈ kinds', k ∈ kinds) (hw : ∀ w ∈ words', w ∈ words) :
    avoids kinds' words' o := by
  intro f hf
  obtain ⟨hkind, hword⟩ := h f hf
  exact ⟨fun hm => hkind (hk _ hm), Face.isWord_eq_false_mono hword hw⟩

end Avoids

/-- `p` reads the faces `s` up to a limit on the face after them: it consumes
exactly these tokens, reports nothing and gives a value with the property `P`. -/
def Reads {α : Type} (p : Parser α) (s : List Face) (next : Option Face → Prop)
    (P : α → Prop) : Prop :=
  ∀ (c : Cursor) (after : List Face), c.faces = s ++ after → next after.head? →
    ∃ a c', p.run c = (some a, c') ∧ P a ∧ c'.faces = after ∧
      c'.reporter = c.reporter ∧ c'.failed = c.failed

/-- No limit on what follows. -/
def anything : Option Face → Prop := fun _ => True

namespace Reads

variable {α β : Type} {p : Parser α} {g : α → Parser β} {f : Face} {s t : List Face}
  {m n : Option Face → Prop} {P : α → Prop} {Q : β → Prop}

theorem mono {P' : α → Prop} (h : Reads p s m P) (hn : ∀ o, n o → m o)
    (hP : ∀ a, P a → P' a) : Reads p s n P' := by
  intro c after hc ho
  obtain ⟨a, c', hrun, ha, hrest⟩ := h c after hc (hn _ ho)
  exact ⟨a, c', hrun, hP a ha, hrest⟩

/-- A change of what is said about the value only. -/
theorem imp {P' : α → Prop} (h : Reads p s n P) (hP : ∀ a, P a → P' a) : Reads p s n P' :=
  h.mono (fun _ ho => ho) hP

theorem pure {a : α} (h : P a) : Reads (pure a) [] n P := by
  intro c after hc _
  exact ⟨a, c, rfl, h, hc, rfl, rfl⟩

/-- One production after another. The first one must be able to stop where the
second one starts, or, when that reads nothing, where the whole stops. -/
theorem bind (hp : Reads p s m P) (hm : ∀ o, n o → m (t.head?.or o))
    (hg : ∀ a, P a → Reads (g a) t n Q) : Reads (p >>= g) (s ++ t) n Q := by
  intro c after hc ho
  have hnext : m (t ++ after).head? := by
    rw [List.head?_append]
    exact hm _ ho
  obtain ⟨a, c₁, hrun₁, ha, hc₁, hr₁, hf₁⟩ := hp c (t ++ after) (by simpa using hc) hnext
  obtain ⟨b, c₂, hrun₂, hb, hc₂, hr₂, hf₂⟩ := hg a ha c₁ after hc₁ ho
  refine ⟨b, c₂, ?_, hb, hc₂, hr₂.trans hr₁, hf₂.trans hf₁⟩
  rw [Parser.run_bind, hrun₁]
  exact hrun₂

/-- One token, then the rest. -/
theorem token (hp : Reads p [f] anything P) (hg : ∀ a, P a → Reads (g a) t n Q) :
    Reads (p >>= g) (f :: t) n Q :=
  bind hp (fun _ _ => trivial) hg

/-- A look at the next token, then all of the tokens. -/
theorem ahead (hp : Reads p [] m P) (hm : ∀ o, n o → m (t.head?.or o))
    (hg : ∀ a, P a → Reads (g a) t n Q) : Reads (p >>= g) t n Q :=
  bind hp hm hg

/-- A last step that reads nothing. -/
theorem andThen (hp : Reads p s n P) (hg : ∀ a, P a → Reads (g a) [] n Q) :
    Reads (p >>= g) s n Q := by
  simpa using bind hp (fun o ho => by simpa using ho) hg

theorem map {h : α → β} (hp : Reads p s n P) (hQ : ∀ a, P a → Q (h a)) :
    Reads (h <$> p) s n Q :=
  andThen hp fun a ha => Reads.pure (hQ a ha)

end Reads

/-- A parser with fuel reads a sequence when the tokens left are its fuel. -/
theorem reads_fuelled {α : Type} {p : Nat → Parser α} {s : List Face} {n : Option Face → Prop}
    {P : α → Prop} (h : ∀ fuel, s.length < fuel → Reads (p fuel) s n P) :
    Reads (fun c => p (c.rest.length + 1) c) s n P := by
  intro c after hc ho
  have hlen : s.length < c.rest.length + 1 := by
    have htotal := congrArg List.length hc
    simp only [Cursor.faces, List.length_map, List.length_append] at htotal
    omega
  exact h (c.rest.length + 1) hlen c after hc ho

/-! ## Single tokens -/

section Tokens

variable {f : Face} {n : Option Face → Prop}

theorem Cursor.exists_of_faces_cons {c : Cursor} {t : List Face} (h : c.faces = f :: t) :
    ∃ u us, c.rest = u :: us ∧ u.face = f ∧ us.map Token.face = t := by
  cases hr : c.rest with
  | nil => simp [Cursor.faces, hr] at h
  | cons u us =>
      simp only [Cursor.faces, hr, List.map_cons, List.cons.injEq] at h
      exact ⟨u, us, rfl, h.1, h.2⟩

theorem Cursor.faces_advance {c : Cursor} {t : List Face} (h : c.faces = f :: t) :
    c.advance.faces = t ∧ c.advance.reporter = c.reporter ∧ c.advance.failed = c.failed := by
  obtain ⟨u, us, hr, -, ht⟩ := Cursor.exists_of_faces_cons h
  simp [Cursor.faces, Cursor.advance, hr, ht]

theorem Cursor.is_eq (c : Cursor) (k : TokenKind) :
    c.is k = c.faces.head?.any fun f => f.kind == k := by
  cases hr : c.rest <;> simp [Cursor.is, Cursor.faces, hr, Token.face]

theorem Cursor.isWord_eq (c : Cursor) (words : List String) :
    c.isWord words = c.faces.head?.any (Face.isWord words) := by
  cases hr : c.rest <;> simp [Cursor.isWord, Cursor.faces, hr, Token.face, Face.isWord]

theorem Cursor.atEnd_eq (c : Cursor) : c.atEnd = c.faces.head?.isNone := by
  cases hr : c.rest <;> simp [Cursor.atEnd, Cursor.faces, hr]

theorem Cursor.any_peekAt (c : Cursor) (i : Nat) (p : TokenKind → Bool) :
    ((c.peekAt i).any fun t => p t.kind) = c.faces[i]?.any fun f => p f.kind := by
  simp [Cursor.peekAt, Cursor.faces, Option.any_map, Token.face]

theorem reads_look {α : Type} (g : Cursor → α) : Reads (Parser.look g) [] n fun _ => True := by
  intro c after hc _
  exact ⟨g c, c, rfl, trivial, hc, rfl, rfl⟩

/-- A look that depends on the next face only. -/
theorem reads_look_head {α : Type} {g : Cursor → α} {h : Option Face → α}
    (hg : ∀ c : Cursor, g c = h c.faces.head?) (a : α) :
    Reads (Parser.look g) [] (fun o => h o = a) (· = a) := by
  intro c after hc ho
  refine ⟨g c, c, rfl, ?_, hc, rfl, rfl⟩
  rw [hg, hc]
  exact ho

/-- A look further ahead, answered by all of the faces to come. -/
theorem Reads.lookAhead {α β : Type} {g : Cursor → α} {k : α → Parser β} {s : List Face}
    {Q : β → Prop} (a : α) (hg : ∀ c after, c.faces = s ++ after → g c = a)
    (h : Reads (k a) s n Q) : Reads (Parser.look g >>= k) s n Q := by
  intro c after hc ho
  obtain ⟨b, c', hrun, hrest⟩ := h c after hc ho
  refine ⟨b, c', ?_, hrest⟩
  rw [Parser.run_bind]
  simpa [Parser.run, Parser.look, hg c after hc] using hrun

theorem reads_is (k : TokenKind) (b : Bool) :
    Reads (Parser.is k) [] (fun o => (o.any fun f => f.kind == k) = b) (· = b) :=
  reads_look_head (Cursor.is_eq · k) b

theorem reads_isWord (words : List String) (b : Bool) :
    Reads (Parser.isWord words) [] (fun o => o.any (Face.isWord words) = b) (· = b) :=
  reads_look_head (Cursor.isWord_eq · words) b

/-- A question about the next word, answered by the first face. -/
theorem Reads.askWord {β : Type} {words : List String} {g : Bool → Parser β} {s : List Face}
    {Q : β → Prop} (b : Bool) (hs : s.head? = some f) (hb : f.isWord words = b)
    (h : Reads (g b) s n Q) : Reads (Parser.isWord words >>= g) s n Q := by
  refine (reads_isWord words b).ahead (fun o _ => ?_) ?_
  · simp [hs, hb]
  · rintro _ rfl
    exact h

/-- The production that is listed for the next word, or else another one. -/
def Parser.byWord {β : Type} (otherwise : Parser β) : List (List String × Parser β) → Parser β
  | [] => otherwise
  | (words, p) :: rest =>
    Parser.isWord words >>= fun b => if b = true then p else Parser.byWord otherwise rest

section ByWord

variable {β : Type} {otherwise : Parser β} {productions : List (List String × Parser β)}
  {s : List Face} {Q : β → Prop}

/-- The first face tells which production is read. -/
theorem Reads.byWord {words : List String} {p : Parser β} (hs : s.head? = some f)
    (hlisted : productions.find? (fun production => f.isWord production.1) = some (words, p))
    (h : Reads p s n Q) : Reads (Parser.byWord otherwise productions) s n Q := by
  induction productions with
  | nil => cases hlisted
  | cons production rest ih =>
      cases hword : f.isWord production.1 with
      | true =>
          simp only [List.find?_cons, hword] at hlisted
          obtain rfl := Option.some.inj hlisted
          exact Reads.askWord true hs hword h
      | false =>
          simp only [List.find?_cons, hword] at hlisted
          exact Reads.askWord false hs hword (ih hlisted)

/-- The first face tells that none of the productions is read. -/
theorem Reads.byWord_none (hs : s.head? = some f)
    (hnone : ∀ production ∈ productions, f.isWord production.1 = false)
    (h : Reads otherwise s n Q) : Reads (Parser.byWord otherwise productions) s n Q := by
  induction productions with
  | nil => exact h
  | cons production rest ih =>
      obtain ⟨hword, hrest⟩ := List.forall_mem_cons.mp hnone
      exact Reads.askWord false hs hword (ih hrest)

end ByWord

theorem reads_kind (k : Option TokenKind) :
    Reads Parser.kind? [] (fun o => o.map Face.kind = k) (· = k) := by
  refine reads_look_head (fun c => ?_) k
  cases hr : c.rest <;> simp [Cursor.peek, Cursor.faces, hr, Token.face]

theorem reads_place : Reads Parser.place [] n fun _ => True := reads_look _

theorem reads_here : Reads Parser.here [] n fun _ => True := reads_look _

theorem reads_advance (f : Face) : Reads Parser.advance [f] anything fun _ => True := by
  intro c after hc _
  obtain ⟨hf, hrep, hfail⟩ := Cursor.faces_advance hc
  exact ⟨(), c.advance, rfl, trivial, hf, hrep, hfail⟩

theorem reads_declare (first : Nat) : Reads (Parser.declare first) [] n fun _ => True := by
  intro c after hc _
  exact ⟨c.decls.length, c.declare first, rfl, trivial, hc, rfl, rfl⟩

theorem reads_accept {k : TokenKind} (h : f.kind = k) :
    Reads (Parser.accept k) [f] anything (· = true) := by
  intro c after hc _
  obtain ⟨hf, hrep, hfail⟩ := Cursor.faces_advance hc
  have hk : c.is k = true := by simp [Cursor.is_eq, hc, h]
  refine ⟨true, c.advance, ?_, rfl, hf, hrep, hfail⟩
  simp [Parser.run, Parser.accept, hk]

theorem reads_accept_none {k : TokenKind} :
    Reads (Parser.accept k) [] (avoids [k] []) (· = false) := by
  intro c after hc ho
  have hk : c.is k = false := by
    rw [Cursor.is_eq, hc]
    cases after with
    | nil => simp
    | cons f _ => simpa using (ho f (by simp)).1
  refine ⟨false, c, ?_, rfl, hc, rfl, rfl⟩
  simp [Parser.run, Parser.accept, hk]

theorem reads_acceptWord {words : List String} (h : f.isWord words = true) :
    Reads (Parser.acceptWord words) [f] anything (· = some f.value) := by
  intro c after hc _
  obtain ⟨hf, hrep, hfail⟩ := Cursor.faces_advance hc
  obtain ⟨u, us, hr, rfl, -⟩ := Cursor.exists_of_faces_cons hc
  have hw : c.isWord words = true := by simp [Cursor.isWord_eq, hc, h]
  refine ⟨some u.value, c.advance, ?_, rfl, hf, hrep, hfail⟩
  simp [Parser.run, Parser.acceptWord, hw, Cursor.peek, hr]

theorem reads_acceptWord_none {words : List String} :
    Reads (Parser.acceptWord words) [] (avoids [] words) (· = none) := by
  intro c after hc ho
  have hw : c.isWord words = false := by
    rw [Cursor.isWord_eq, hc]
    cases after with
    | nil => simp
    | cons f _ => simpa using (ho f (by simp)).2
  refine ⟨none, c, ?_, rfl, hc, rfl, rfl⟩
  simp [Parser.run, Parser.acceptWord, hw]

theorem reads_expectOf {kinds : List TokenKind} (h : f.kind ∈ kinds) :
    Reads (Parser.expectOf kinds) [f] anything (·.face = f) := by
  intro c after hc _
  obtain ⟨hf, hrep, hfail⟩ := Cursor.faces_advance hc
  obtain ⟨u, us, hr, rfl, -⟩ := Cursor.exists_of_faces_cons hc
  have hk : u.kind ∈ kinds := h
  refine ⟨u, c.advance, ?_, rfl, hf, hrep, hfail⟩
  simp [Parser.run, Parser.expectOf, hr, hk]

theorem reads_expect {k : TokenKind} (h : f.kind = k) :
    Reads (Parser.expect k) [f] anything (·.face = f) :=
  reads_expectOf (by simp [h])

theorem reads_identifier (s : String) :
    Reads Parser.identifier [Face.word s] anything (·.value = s) :=
  (reads_expect rfl).imp fun _ ht => congrArg Face.value ht

theorem reads_text (s : String) :
    Reads (Parser.expect .text) [Face.text s] anything (·.value = s) :=
  (reads_expect rfl).imp fun _ ht => congrArg Face.value ht

theorem reads_expectWord {words : List String} {w : String} (h : w ∈ words) :
    Reads (Parser.expectWord words) [Face.word w] anything (·.value = w) := by
  intro c after hc _
  obtain ⟨hf, hrep, hfail⟩ := Cursor.faces_advance hc
  obtain ⟨u, us, hr, hu, -⟩ := Cursor.exists_of_faces_cons hc
  have hk : u.kind = .identifier := congrArg Face.kind hu
  have hv : u.value = w := congrArg Face.value hu
  refine ⟨u, c.advance, ?_, hv, hf, hrep, hfail⟩
  simp [Parser.run, Parser.expectWord, hr, hk, hv, h]

theorem reads_attempt {α : Type} {p : Parser α} {s : List Face} {P : α → Prop}
    (h : Reads p s n P) : Reads (Parser.attempt p) s n fun _ => True := by
  intro c after hc ho
  obtain ⟨a, c', hrun, -, hrest⟩ := h c after hc ho
  refine ⟨some a, c', ?_, trivial, hrest⟩
  simp only [Parser.run] at hrun
  simp [Parser.run, Parser.attempt, hrun]

end Tokens

/-! ## Separators -/

/-- What may close an item. -/
inductive Separator where
  | none | comma | semicolon
deriving DecidableEq, Repr, Inhabited

def Separator.faces : Separator → List Face
  | none => []
  | comma => [Face.mark .comma]
  | semicolon => [Face.mark .semicolon]

theorem avoids_mark {kinds : List TokenKind} {words : List String} {k : TokenKind}
    (hk : k ∉ kinds) (hw : k ≠ .identifier) : avoids kinds words (some (Face.mark k)) :=
  avoids_some.mpr ⟨hk, Face.isWord_eq_false_of_kind hw words⟩

theorem avoids_word {kinds : List TokenKind} {words : List String} {w : String}
    (hk : .identifier ∉ kinds) (hw : words.contains w = false) :
    avoids kinds words (some (Face.word w)) :=
  avoids_some.mpr ⟨hk, hw⟩

theorem avoids_separator {kinds : List TokenKind} {words : List String} (s : Separator)
    (hc : .comma ∉ kinds) (hs : .semicolon ∉ kinds) : avoids kinds words s.faces.head? := by
  cases s with
  | none => exact avoids_none
  | comma => exact avoids_mark hc (by decide)
  | semicolon => exact avoids_mark hs (by decide)

theorem reads_separator (s : Separator) :
    Reads Parser.separator s.faces (avoids [.comma, .semicolon] []) fun _ => True := by
  unfold Parser.separator
  cases s with
  | none =>
      refine reads_accept_none.ahead (fun o ho => avoids_mono ho (by simp) (by simp)) ?_
      rintro _ rfl
      refine reads_accept_none.ahead (fun o ho => avoids_mono ho (by simp) (by simp)) ?_
      exact fun _ _ => Reads.pure trivial
  | comma =>
      refine (reads_accept rfl).token ?_
      rintro _ rfl
      exact Reads.pure trivial
  | semicolon =>
      refine reads_accept_none.ahead (fun o _ => avoids_mark (by decide) (by decide)) ?_
      rintro _ rfl
      exact (reads_accept rfl).token fun _ _ => Reads.pure trivial

/-! ## Repetition

The items of a loop are spelled one after another. An item may stop where the
next one starts, and the loop goes on there; both are asked of the first face of
each item, so the items may stand in any order. -/

section Loops

variable {α γ X : Type} {item : Parser α} {spell : X → List Face} {e : α → γ} {y : X → γ}
  {m : Option Face → Prop}

/-- What one item of a loop has to satisfy: it is read, and it starts with a face
on which the loop goes on and its predecessor stops. -/
structure LoopItem (item : Parser α) (spell : X → List Face) (e : α → γ) (y : X → γ)
    (goes : Option Face → Bool) (m : Option Face → Prop) (x : X) : Prop where
  reads : Reads item (spell x) m fun a => e a = y x
  starts : ∃ f ∈ (spell x).head?, goes (some f) = true ∧ m (some f)

theorem length_pos_of_head {f : Face} {s : List Face} (h : s.head? = some f) : 1 ≤ s.length := by
  cases s with
  | nil => simp at h
  | cons _ _ => simp

theorem LoopItem.length_pos {goes : Option Face → Bool} {x : X}
    (h : LoopItem item spell e y goes m x) : 1 ≤ (spell x).length := by
  obtain ⟨f, hf, -⟩ := h.starts
  exact length_pos_of_head hf

theorem length_le_flatMap_of_mem {xs : List X} {x : X} (spell : X → List Face) (h : x ∈ xs) :
    (spell x).length ≤ (xs.flatMap spell).length := by
  rw [List.flatMap_def]
  exact (List.sublist_flatten_of_mem (List.mem_map_of_mem h)).length_le

theorem length_le_flatMap {spell : X → List Face} {xs : List X}
    (h : ∀ x ∈ xs, 1 ≤ (spell x).length) : xs.length ≤ (xs.flatMap spell).length := by
  induction xs with
  | nil => simp
  | cons x xs ih =>
      have hx := h x (by simp)
      have hxs := ih fun x' hx' => h x' (by simp [hx'])
      simp only [List.length_cons, List.flatMap_cons, List.length_append]
      omega

/-- The first face of a non-empty loop is the first face of its first item. -/
theorem LoopItem.head_flatMap {goes : Option Face → Bool} {x : X}
    (h : LoopItem item spell e y goes m x) (xs : List X) (o : Option Face) :
    ∃ f, (((x :: xs).flatMap spell).head?.or o) = some f ∧ goes (some f) = true ∧ m (some f) := by
  obtain ⟨f, hf, hg, hm⟩ := h.starts
  refine ⟨f, ?_, hg, hm⟩
  simp [List.head?_append, Option.mem_def.mp hf]

/-- A loop ends where the next face does not let it go on. -/
theorem reads_whileAux_stop {again : Cursor → Bool} {g : Option Face → Bool}
    (hagain : ∀ c : Cursor, again c = g c.faces.head?) {n : Option Face → Prop}
    (hstop : ∀ o, n o → g o = false) (fuel : Nat) :
    Reads (Parser.whileAux again item (fuel + 1)) [] n (· = []) := by
  rw [Parser.whileAux]
  refine (reads_look_head hagain false).ahead (fun o ho => hstop o ho) ?_
  rintro _ rfl
  exact Reads.pure rfl

/-- A loop takes an item and goes on where the item stopped. -/
theorem reads_whileAux_step {again : Cursor → Bool} {g : Option Face → Bool}
    (hagain : ∀ c : Cursor, again c = g c.faces.head?) {n : Option Face → Prop}
    {s t : List Face} {P : α → Prop} {Q : List α → Prop} {fuel : Nat}
    (hstart : ∃ f ∈ s.head?, g (some f) = true) (hitem : Reads item s m P)
    (hm : ∀ o, n o → m (t.head?.or o)) (hrest : Reads (Parser.whileAux again item fuel) t n Q) :
    Reads (Parser.whileAux again item (fuel + 1)) (s ++ t) n
      fun as => ∃ b bs, as = b :: bs ∧ P b ∧ Q bs := by
  obtain ⟨f, hf, hg⟩ := hstart
  rw [Parser.whileAux]
  refine (reads_look_head hagain true).ahead (fun o _ => ?_) ?_
  · simp [List.head?_append, Option.mem_def.mp hf, hg]
  rintro _ rfl
  refine hitem.bind hm fun b hb => ?_
  exact hrest.andThen fun bs hbs => Reads.pure ⟨b, bs, rfl, hb, hbs⟩

theorem reads_whileAux {again : Cursor → Bool} {g : Option Face → Bool}
    (hagain : ∀ c : Cursor, again c = g c.faces.head?) {n : Option Face → Prop}
    (hstop : ∀ o, n o → g o = false ∧ m o) (xs : List X)
    (hitem : ∀ x ∈ xs, LoopItem item spell e y g m x) (fuel : Nat) (hfuel : xs.length < fuel) :
    Reads (Parser.whileAux again item fuel) (xs.flatMap spell) n
      fun as => as.map e = xs.map y := by
  induction xs generalizing fuel with
  | nil =>
      obtain ⟨fuel, rfl⟩ : ∃ k, fuel = k + 1 := ⟨fuel - 1, by simp at hfuel; omega⟩
      refine (reads_whileAux_stop hagain (fun o ho => (hstop o ho).1) fuel).imp ?_
      rintro _ rfl
      rfl
  | cons x xs ih =>
      obtain ⟨fuel, rfl⟩ : ∃ k, fuel = k + 1 := ⟨fuel - 1, by simp at hfuel; omega⟩
      have hx := hitem x (by simp)
      have hxs : ∀ x' ∈ xs, LoopItem item spell e y g m x' :=
        fun x' hx' => hitem x' (by simp [hx'])
      obtain ⟨f, hf, hg, -⟩ := hx.starts
      refine (reads_whileAux_step hagain ⟨f, hf, hg⟩ hx.reads (fun o ho => ?_)
        (ih hxs fuel (by simp at hfuel; omega))).imp ?_
      · cases hcs : xs with
        | nil => simpa using (hstop o ho).2
        | cons x' xs' =>
            obtain ⟨f, hf, -, hm⟩ := (hxs x' (by simp [hcs])).head_flatMap xs' o
            rw [hf]
            exact hm
      · rintro _ ⟨b, bs, rfl, hb, hbs⟩
        simp [hb, hbs]

/-- A loop reads its items as long as the next face lets it go on. The tokens
left bound the number of items because every item takes one. -/
theorem reads_whileDo {again : Cursor → Bool} {g : Option Face → Bool}
    (hagain : ∀ c : Cursor, again c = g c.faces.head?) {n : Option Face → Prop}
    (hstop : ∀ o, n o → g o = false ∧ m o) (xs : List X)
    (hitem : ∀ x ∈ xs, LoopItem item spell e y g m x) :
    Reads (Parser.whileDo again item) (xs.flatMap spell) n fun as => as.map e = xs.map y := by
  intro c after hc ho
  have hlen : xs.length < c.rest.length + 1 := by
    have hle := length_le_flatMap fun x hx => (hitem x hx).length_pos
    have htotal := congrArg List.length hc
    simp only [Cursor.faces, List.length_map, List.length_append] at htotal
    omega
  exact reads_whileAux hagain hstop xs hitem (c.rest.length + 1) hlen c after hc ho

/-- A loop that reads some tokens before a closing mark, and the mark. The tokens
left are fuel enough when they are at least as many as the items. -/
theorem reads_upTo_of_loop {close : TokenKind} {s : List Face} {Q : List α → Prop}
    (h : ∀ fuel, s.length < fuel →
      Reads (Parser.whileAux (fun c => !c.is close) item fuel) s
        (· = some (Face.mark close)) Q) :
    Reads (Parser.upTo close item) (s ++ [Face.mark close]) anything Q := by
  refine (reads_fuelled h).bind (fun _ _ => rfl) fun as has => ?_
  exact (reads_advance _).andThen fun _ _ => Reads.pure has

/-- Items up to a closing mark. -/
theorem reads_upTo {close : TokenKind} (xs : List X) (hclose : m (some (Face.mark close)))
    (hitem : ∀ x ∈ xs,
      LoopItem item spell e y (fun o => !o.any fun f => f.kind == close) m x) :
    Reads (Parser.upTo close item) (xs.flatMap spell ++ [Face.mark close]) anything
      fun as => as.map e = xs.map y := by
  refine reads_upTo_of_loop fun fuel hfuel => ?_
  have hle := length_le_flatMap fun x hx => (hitem x hx).length_pos
  refine reads_whileAux (m := m) (fun c => ?_) ?_ xs hitem fuel (by omega)
  · rw [Cursor.is_eq]
  · rintro _ rfl
    exact ⟨by simp, hclose⟩

/-- Items with a mark between them. -/
theorem reads_sepBy1 {sep : TokenKind} {n : Option Face → Prop} (x : X) (xs : List X)
    (hsep : m (some (Face.mark sep))) (hstop : ∀ o, n o → avoids [sep] [] o ∧ m o)
    (hitem : ∀ z ∈ x :: xs, Reads item (spell z) m fun a => e a = y z) :
    Reads (Parser.sepBy1 sep item)
      (spell x ++ xs.flatMap fun z => Face.mark sep :: spell z) n
      fun as => as.map e = (x :: xs).map y := by
  have hloop : Reads (Parser.whileDo (fun c => c.is sep) (Parser.advance >>= fun _ => item))
      (xs.flatMap fun z => Face.mark sep :: spell z) n fun as => as.map e = xs.map y := by
    refine reads_whileDo (m := m) (Cursor.is_eq · sep) ?_ xs ?_
    · intro o ho
      obtain ⟨hk, hm⟩ := hstop o ho
      refine ⟨?_, hm⟩
      cases o with
      | none => rfl
      | some f => simpa using (avoids_some.mp hk).1
    · intro z hz
      refine ⟨?_, Face.mark sep, by simp, by simp, hsep⟩
      exact (reads_advance _).token fun _ _ => hitem z (by simp [hz])
  refine (hitem x (by simp)).bind ?_ fun a ha => ?_
  · intro o ho
    cases xs with
    | nil => simpa using (hstop o ho).2
    | cons z zs => simpa using hsep
  · refine hloop.andThen fun as has => ?_
    exact Reads.pure (by simp [ha, has])

end Loops

end Source
end ClientGen
