import ClientGen.Proofs.Source.Failure
import ClientGen.Source.Lexer
import Mathlib.Algebra.Ring.Int.Defs

/-! # What tokens cover

Each reader cuts a piece off the front of a text, moves the offset by the bytes of
that piece and makes the value from it. Tokens that are laid side by side over a text,
with blanks between them, account for it: their spans are apart, and each value is what
the characters of its span stand for.
-/

namespace ClientGen
namespace Source

open Lexer

/-! ## Offsets -/

/-- How many bytes some characters take. -/
def byteLength (cs : List Char) : Int := (cs.map fun c => (c.utf8Size : Int)).sum

@[simp] theorem byteLength_nil : byteLength [] = 0 := rfl

@[simp] theorem byteLength_cons (c : Char) (cs : List Char) :
    byteLength (c :: cs) = c.utf8Size + byteLength cs := rfl

@[simp] theorem byteLength_append (cs ds : List Char) :
    byteLength (cs ++ ds) = byteLength cs + byteLength ds := by
  induction cs with
  | nil => simp
  | cons c cs ih =>
      simp only [List.cons_append, byteLength_cons, ih]
      omega

theorem byteLength_nonneg (cs : List Char) : 0 ≤ byteLength cs := by
  induction cs with
  | nil => simp
  | cons c cs ih =>
      rw [byteLength_cons]
      omega

/-- Characters with their offsets, which are the offsets of their last bytes. The
first one stands after the offset `k`. -/
def placed (k : Int) : List Char → List (Int × Char)
  | [] => []
  | c :: cs => (k + c.utf8Size, c) :: placed (k + c.utf8Size) cs

theorem placed_append (k : Int) (cs ds : List Char) :
    placed k (cs ++ ds) = placed k cs ++ placed (k + byteLength cs) ds := by
  induction cs generalizing k with
  | nil => simp [placed]
  | cons c cs ih =>
      have hsum : k + (c.utf8Size + byteLength cs) = k + c.utf8Size + byteLength cs := by omega
      simp [placed, ih, hsum]

theorem map_snd_placed (k : Int) (cs : List Char) : (placed k cs).map Prod.snd = cs := by
  induction cs generalizing k with
  | nil => rfl
  | cons c cs ih => simp [placed, ih]

/-- The offsets of characters after `k` lie after `k` and within their bytes. -/
theorem bounds_of_mem_placed {k : Int} {cs : List Char} {x : Int × Char} (h : x ∈ placed k cs) :
    k < x.1 ∧ x.1 ≤ k + byteLength cs := by
  induction cs generalizing k with
  | nil => simp [placed] at h
  | cons c cs ih =>
      have hpos := c.utf8Size_pos
      have hrest := byteLength_nonneg cs
      rw [byteLength_cons]
      rcases List.mem_cons.mp h with rfl | h
      · constructor <;> simp <;> omega
      · obtain ⟨hlo, hhi⟩ := ih h
        constructor <;> omega

/-- The first character has the least offset. -/
theorem first_le_of_mem_placed {k : Int} {c : Char} {cs : List Char} {x : Int × Char}
    (h : x ∈ placed k (c :: cs)) : k + c.utf8Size ≤ x.1 := by
  rcases List.mem_cons.mp h with rfl | h
  · exact Int.le_refl _
  · have hlo := (bounds_of_mem_placed h).1
    omega

/-- Whether an offset lies in the span of a token. -/
def Token.covers (t : Token) (offset : Int) : Bool :=
  decide (t.span.first.offset ≤ offset) && decide (offset ≤ t.span.last.offset)

def covered (t : Token) (xs : List (Int × Char)) : List Char :=
  (xs.filter fun x => t.covers x.1).map Prod.snd

/-! ## Values -/

/-- The characters that stand for another one after a backslash. -/
def escapes : List (Char × Char) :=
  [('n', '\n'), ('t', '\t'), ('r', '\r'), ('\\', '\\'), ('"', '"'), ('\'', '\'')]

/-- The inside of a text with its escapes read. Any other escape is kept. -/
def readEscapes : List Char → List Char
  | '\\' :: c :: cs =>
    match escapes.lookup c with
    | some d => d :: readEscapes cs
    | none => '\\' :: c :: readEscapes cs
  | c :: cs => c :: readEscapes cs
  | [] => []

/-- The value that the characters of a token stand for. Comments lose their
markers, a text loses its quotes and its escapes are read. -/
def meaning (kind : TokenKind) (piece : List Char) : Option (List Char) :=
  match kind with
  | .comment =>
    match piece with
    | '/' :: '/' :: body => some body
    | '#' :: body => some body
    | _ => none
  | .commentBlock =>
    match piece with
    | '/' :: '*' :: rest =>
      if ['*', '/'].isSuffixOf rest then some rest.dropLast.dropLast else none
    | _ => none
  | .text =>
    match piece with
    | quote :: rest =>
      if (quote = '"' ∨ quote = '\'') ∧ rest.getLast? = some quote then
        some (readEscapes rest.dropLast)
      else none
    | [] => none
  | _ => some piece

/-! ## Readers -/

@[simp] theorem offset_step (p : Position) (c : Char) : (p.step c).offset = p.offset + c.utf8Size :=
  rfl

@[simp] theorem offset_newLine (p : Position) : p.newLine.offset = p.offset := rfl

/-- A character may start a new line or not. -/
theorem offset_passing (p : Position) (c : Char) (b : Prop) [Decidable b] :
    (if b then (p.step c).newLine else p.step c).offset = p.offset + c.utf8Size := by
  split <;> rfl

theorem offset_stepAll (p : Position) (cs : List Char) :
    (p.stepAll cs).offset = p.offset + byteLength cs := by
  induction cs generalizing p with
  | nil => simp [Position.stepAll]
  | cons c cs ih =>
      have hcons : p.stepAll (c :: cs) = (p.step c).stepAll cs := rfl
      rw [hcons, ih, offset_step, byteLength_cons]
      omega

/-- A step cuts a token off the front of what is left: after the characters `before`
of the token it takes some more, and its value is made from all of them. -/
def Cuts (before : List Char) (first here : Position) (rest : List Char) : Step → Prop
  | .token t next =>
    ∃ taken, rest = taken ++ next.rest ∧ t.span.first = first ∧
      t.span.last.offset = here.offset + byteLength taken ∧
      next.position.offset = t.span.last.offset ∧
      meaning t.kind (before ++ taken) = some t.value.toList
  | .fault _ => True
  | _ => False

section Cuts

variable {before taken rest left : List Char} {first here : Position}

theorem cuts_finish {kind : TokenKind} {value : List Char}
    (hrest : rest = taken ++ left) (hvalue : meaning kind (before ++ taken) = some value) :
    Cuts before first here rest (finish kind value first here taken left) := by
  refine ⟨taken, hrest, rfl, offset_stepAll here taken, rfl, ?_⟩
  rw [hvalue, String.toList_ofList]

theorem cuts_readIdentifier (c : Char) (p : Position) (rest : List Char) :
    Cuts [c] p p rest (readIdentifier c p rest) :=
  cuts_finish List.takeWhile_append_dropWhile.symm rfl

theorem cuts_readLineComment (rest : List Char)
    (hmark : before = ['/', '/'] ∨ before = ['#']) :
    Cuts before first here rest (readLineComment first here rest) := by
  refine cuts_finish List.takeWhile_append_dropWhile.symm ?_
  rcases hmark with rfl | rfl <;> rfl

/-- The body of a block comment is what stands before its delimiter. -/
theorem blockBody_cuts {p q : Position} {rest body left : List Char}
    (h : blockBody p rest = .ok (body, q, left)) :
    rest = body ++ '*' :: '/' :: left ∧ q.offset = p.offset + byteLength (body ++ ['*', '/']) := by
  fun_induction blockBody p rest generalizing body with
  | case1 p => exact absurd h (by simp)
  | case2 p rest =>
      simp only [Except.ok.injEq, Prod.mk.injEq] at h
      obtain ⟨rfl, rfl, rfl⟩ := h
      refine ⟨rfl, ?_⟩
      simp only [List.nil_append, byteLength_cons, byteLength_nil, offset_step]
      omega
  | case3 p rest ih =>
      obtain ⟨⟨body', q', left'⟩, hrest, hok⟩ := ok_of_bind h
      simp only [pure, Except.pure, Except.ok.injEq, Prod.mk.injEq] at hok
      obtain ⟨rfl, rfl, rfl⟩ := hok
      obtain ⟨hsplit, hoffset⟩ := ih hrest
      refine ⟨by simp [hsplit], ?_⟩
      simp only [hoffset, List.cons_append, byteLength_cons, offset_newLine, offset_step]
      omega
  | case4 p c rest hclose hbreak here =>
      rename_i ih
      obtain ⟨⟨body', q', left'⟩, hrest, hok⟩ := ok_of_bind h
      simp only [pure, Except.pure, Except.ok.injEq, Prod.mk.injEq] at hok
      obtain ⟨rfl, rfl, rfl⟩ := hok
      obtain ⟨hsplit, hoffset⟩ := ih hrest
      refine ⟨by simp [hsplit], ?_⟩
      rw [hoffset, offset_passing, List.cons_append, byteLength_cons]
      omega

theorem cuts_readBlockComment (rest : List Char) :
    Cuts ['/', '*'] first here rest (readBlockComment first here rest) := by
  unfold readBlockComment
  cases hbody : blockBody here rest with
  | error q => trivial
  | ok result =>
      obtain ⟨body, q, left⟩ := result
      obtain ⟨hrest, hoffset⟩ := blockBody_cuts hbody
      refine ⟨body ++ ['*', '/'], by simp [hrest], rfl, hoffset, rfl, ?_⟩
      have hsuffix : ['*', '/'].isSuffixOf (body ++ ['*', '/']) = true := by
        simp
      have hdrop : (body ++ ['*', '/']).dropLast.dropLast = body := by
        simp [List.dropLast_append_of_ne_nil]
      simp only [meaning, List.cons_append, List.nil_append, hsuffix, if_true, hdrop,
        String.toList_ofList]

theorem readEscapes_plain {c : Char} (hc : c ≠ '\\') (cs : List Char) :
    readEscapes (c :: cs) = c :: readEscapes cs := by
  simp [readEscapes, hc]

/-- Both tables of escapes agree. -/
theorem readEscapes_escape (c : Char) (cs : List Char) :
    readEscapes ('\\' :: c :: cs) = unescape c ++ readEscapes cs := by
  unfold unescape
  split
  · rfl
  · rfl
  · rfl
  · rfl
  · rfl
  · rfl
  · rename_i hn ht hr hbackslash hdouble hsingle
    have hother : escapes.lookup c = none := by
      rw [List.lookup_eq_none_iff]
      simpa [escapes] using ⟨hn, ht, hr, hbackslash, hdouble, hsingle⟩
    rw [readEscapes, hother]
    rfl

/-- The body of a text is what stands before its closing quote, with escapes read. -/
theorem textBody_cuts {quote : Char} {p q : Position} {rest body left : List Char}
    (h : textBody quote p rest = .ok (body, q, left)) :
    ∃ raw, rest = raw ++ quote :: left ∧ body = readEscapes raw ∧
      q.offset = p.offset + byteLength (raw ++ [quote]) := by
  fun_induction textBody quote p rest generalizing body with
  | case1 p => exact absurd h (by simp)
  | case2 p => exact absurd h (by simp)
  | case3 p c rest ih =>
      obtain ⟨⟨body', q', left'⟩, hrest, hok⟩ := ok_of_bind h
      simp only [pure, Except.pure, Except.ok.injEq, Prod.mk.injEq] at hok
      obtain ⟨rfl, rfl, rfl⟩ := hok
      obtain ⟨raw, hsplit, hraw, hoffset⟩ := ih hrest
      refine ⟨'\\' :: c :: raw, by simp [hsplit], ?_, ?_⟩
      · rw [hraw, readEscapes_escape]
      · simp only [hoffset, List.cons_append, byteLength_cons, offset_step]
        omega
  | case4 p rest hlone hpair =>
      simp only [Except.ok.injEq, Prod.mk.injEq] at h
      obtain ⟨rfl, rfl, rfl⟩ := h
      refine ⟨[], rfl, rfl, ?_⟩
      simp only [List.nil_append, byteLength_cons, byteLength_nil, offset_step]
      omega
  | case5 p c rest hlone hpair hquote here =>
      rename_i ih
      obtain ⟨⟨body', q', left'⟩, hrest, hok⟩ := ok_of_bind h
      simp only [pure, Except.pure, Except.ok.injEq, Prod.mk.injEq] at hok
      obtain ⟨rfl, rfl, rfl⟩ := hok
      have hc : c ≠ '\\' := by
        intro hc
        cases rest with
        | nil => exact hlone hc rfl
        | cons d rest => exact hpair d rest hc rfl
      obtain ⟨raw, hsplit, hraw, hoffset⟩ := ih hrest
      refine ⟨c :: raw, by simp [hsplit], ?_, ?_⟩
      · rw [hraw, readEscapes_plain hc]
      · rw [hoffset, offset_passing, List.cons_append, byteLength_cons]
        omega

theorem cuts_readText {quote : Char} (hquote : quote = '"' ∨ quote = '\'') (p : Position)
    (rest : List Char) : Cuts [quote] p p rest (readText quote p rest) := by
  unfold readText
  cases hbody : textBody quote p rest with
  | error q => trivial
  | ok result =>
      obtain ⟨body, q, left⟩ := result
      obtain ⟨raw, hrest, hraw, hoffset⟩ := textBody_cuts hbody
      refine ⟨raw ++ [quote], by simp [hrest], rfl, hoffset, rfl, ?_⟩
      simp [meaning, hquote, hraw]

theorem cuts_readHex {marker : Char} (rest : List Char) :
    Cuts ['0', marker] first here rest (readHex first here marker rest) := by
  unfold readHex
  by_cases hempty : (rest.takeWhile isHexDigit).isEmpty = true
  · rw [if_pos hempty]
    trivial
  · rw [if_neg hempty]
    exact cuts_finish List.takeWhile_append_dropWhile.symm rfl

/-- A character of a number is taken and the rest of the number follows it. -/
theorem decimalBody_taken {mode : DecimalMode} {p q : Position} {c : Char}
    {rest body left : List Char} {isFloat : Bool}
    (hrest : ∀ {body : List Char}, decimalBody mode (p.step c) rest = .ok (body, isFloat, q, left) →
      rest = body ++ left ∧ q.offset = (p.step c).offset + byteLength body)
    (h : (decimalBody mode (p.step c) rest >>= fun r => pure (c :: r.1, r.2.1, r.2.2.1, r.2.2.2)) =
      .ok (body, isFloat, q, left)) :
    c :: rest = body ++ left ∧ q.offset = p.offset + byteLength body := by
  obtain ⟨⟨body', isFloat', q', left'⟩, hbody, hok⟩ := ok_of_bind h
  simp only [pure, Except.pure, Except.ok.injEq, Prod.mk.injEq] at hok
  obtain ⟨rfl, rfl, rfl, rfl⟩ := hok
  obtain ⟨hsplit, hoffset⟩ := hrest hbody
  have htotal : q'.offset = p.offset + byteLength (c :: body') := by
    rw [hoffset, offset_step, byteLength_cons]
    omega
  exact ⟨by rw [hsplit, List.cons_append], htotal⟩

/-- The body of a number is what stands before what is left. -/
theorem decimalBody_cuts {mode : DecimalMode} {p q : Position} {rest body left : List Char}
    {isFloat : Bool} (h : decimalBody mode p rest = .ok (body, isFloat, q, left)) :
    rest = body ++ left ∧ q.offset = p.offset + byteLength body := by
  fun_induction decimalBody mode p rest generalizing body with
  | case1 mode p =>
      simp only [Except.ok.injEq, Prod.mk.injEq] at h
      obtain ⟨rfl, rfl, rfl, rfl⟩ := h
      exact ⟨rfl, by simp⟩
  | case2 mode p c rest hdigit ih => exact decimalBody_taken ih h
  | case3 mode p c rest hdigit hpoint ih => exact decimalBody_taken ih h
  | case4 mode p c rest hdigit hpoint hmark sign hsign => exact absurd h (by simp)
  | case5 mode p c rest hdigit hpoint hmark next hnext ih => exact decimalBody_taken ih h
  | case6 mode p c rest hdigit hpoint hmark =>
      simp only [Except.ok.injEq, Prod.mk.injEq] at h
      obtain ⟨rfl, rfl, rfl, rfl⟩ := h
      exact ⟨rfl, by simp⟩

theorem cuts_readDecimal (c : Char) (p : Position) (rest : List Char) :
    Cuts [c] p p rest (readDecimal c p rest) := by
  unfold readDecimal
  cases hbody : decimalBody .whole p rest with
  | error q => trivial
  | ok result =>
      obtain ⟨body, isFloat, q, left⟩ := result
      obtain ⟨hrest, hoffset⟩ := decimalBody_cuts hbody
      refine ⟨body, hrest, rfl, hoffset, rfl, ?_⟩
      cases isFloat <;> simp [meaning]

/-- A character in front that was already consumed belongs to what is taken. -/
theorem Cuts.cons {c d : Char} {p : Position} {rest : List Char} {s : Step}
    (h : Cuts [c, d] p (p.step d) rest s) : Cuts [c] p p (d :: rest) s := by
  cases s with
  | token t next =>
      obtain ⟨taken, hrest, hfirst, hlast, hnext, hvalue⟩ := h
      refine ⟨d :: taken, by rw [hrest, List.cons_append], hfirst, ?_, hnext, hvalue⟩
      rw [hlast, offset_step, byteLength_cons]
      omega
  | skip next => exact h
  | stop => exact h
  | fault f => trivial

/-- Kinds whose value is the text of the token as it stands. -/
def verbatim (kind : TokenKind) : Bool :=
  match kind with
  | .comment | .commentBlock | .text => false
  | _ => true

theorem meaning_of_verbatim {kind : TokenKind} (h : verbatim kind = true) (piece : List Char) :
    meaning kind piece = some piece := by
  cases kind <;> first | rfl | cases h

theorem cuts_single {kind : TokenKind} (hkind : verbatim kind = true) (c : Char) (p : Position)
    (rest : List Char) : Cuts [c] p p rest (single kind c p rest) :=
  cuts_finish rfl (meaning_of_verbatim hkind _)

theorem cuts_lineBreak (before : List Char) (p here : Position) (rest : List Char) :
    Cuts before p here rest (lineBreak before p here rest) := by
  refine ⟨[], rfl, rfl, by simp, rfl, ?_⟩
  rw [List.append_nil, String.toList_ofList]
  exact meaning_of_verbatim rfl before

theorem cuts_readReturn (p : Position) (rest : List Char) :
    Cuts ['\r'] p p rest (readReturn p rest) := by
  unfold readReturn
  split
  · exact (cuts_lineBreak ['\r', '\n'] p (p.step '\n') _).cons
  · exact cuts_lineBreak ['\r'] p p rest

theorem cuts_readZero (p : Position) (rest : List Char) :
    Cuts ['0'] p p rest (readZero p rest) := by
  cases rest with
  | nil => exact cuts_readDecimal '0' p []
  | cons m more =>
      simp only [readZero]
      by_cases hm : m = 'x' ∨ m = 'X'
      · rw [if_pos hm]
        exact (cuts_readHex more).cons
      · rw [if_neg hm]
        exact cuts_readDecimal '0' p (m :: more)

theorem cuts_readSlash (p : Position) (rest : List Char) :
    Cuts ['/'] p p rest (readSlash p rest) := by
  unfold readSlash
  split
  · exact (cuts_readLineComment _ (Or.inl rfl)).cons
  · exact (cuts_readBlockComment _).cons
  · exact cuts_single rfl '/' p rest

/-- Punctuation is read as it stands. -/
theorem verbatim_of_punctuation {c : Char} {kind : TokenKind}
    (h : TokenKind.ofPunctuation? c = some kind) : verbatim kind = true := by
  unfold TokenKind.ofPunctuation? at h
  split at h <;> first | cases h; rfl | cases h

/-- The token that starts with a character is cut off from that character on. -/
theorem cuts_readToken (o : Options) (c : Char) (p : Position) (rest : List Char) :
    Cuts [c] p p rest (readToken o c p rest) := by
  unfold readToken
  by_cases hbreak : c = '\n'
  · rw [if_pos hbreak, hbreak]
    exact cuts_lineBreak ['\n'] p p rest
  rw [if_neg hbreak]
  by_cases hreturn : c = '\r'
  · rw [if_pos hreturn, hreturn]
    exact cuts_readReturn p rest
  rw [if_neg hreturn]
  by_cases hzero : c = '0'
  · rw [if_pos hzero, hzero]
    exact cuts_readZero p rest
  rw [if_neg hzero]
  by_cases hdigit : c.isDigit = true
  · rw [if_pos hdigit]
    exact cuts_readDecimal c p rest
  rw [if_neg hdigit]
  by_cases hquote : c = '"' ∨ c = '\''
  · rw [if_pos hquote]
    exact cuts_readText hquote p rest
  rw [if_neg hquote]
  by_cases hhash : c = '#' ∧ o.hashComments = true
  · rw [if_pos hhash, hhash.1]
    exact cuts_readLineComment rest (Or.inr rfl)
  rw [if_neg hhash]
  by_cases hslash : c = '/'
  · rw [if_pos hslash, hslash]
    exact cuts_readSlash p rest
  rw [if_neg hslash]
  split
  · rename_i kind hkind
    exact cuts_single (verbatim_of_punctuation hkind) c p rest
  · by_cases hstart : isIdentifierStart c = true
    · rw [if_pos hstart]
      exact cuts_readIdentifier c p rest
    · rw [if_neg hstart]
      exact cuts_single rfl c p rest

end Cuts

/-! ## Tilings -/

/-- The tokens `ts` and blanks lie side by side over all of some characters. The
first one stands after the offset `k`. -/
inductive Tiles : Int → List Char → List Token → Prop where
  | nil (k : Int) : Tiles k [] []
  | blank {k : Int} {c : Char} {cs : List Char} {ts : List Token} (hblank : isBlank c = true)
      (hrest : Tiles (k + c.utf8Size) cs ts) : Tiles k (c :: cs) ts
  | token {k : Int} {c : Char} {taken cs : List Char} {t : Token} {ts : List Token}
      (hfirst : t.span.first.offset = k + c.utf8Size)
      (hlast : t.span.last.offset = k + byteLength (c :: taken))
      (hvalue : meaning t.kind (c :: taken) = some t.value.toList)
      (hrest : Tiles (k + byteLength (c :: taken)) cs ts) : Tiles k (c :: taken ++ cs) (t :: ts)

theorem covers_of_bounds {t : Token} {offset : Int} (hfirst : t.span.first.offset ≤ offset)
    (hlast : offset ≤ t.span.last.offset) : t.covers offset = true := by
  simp [Token.covers, hfirst, hlast]

theorem covers_eq_false {t : Token} {offset : Int}
    (h : offset < t.span.first.offset ∨ t.span.last.offset < offset) :
    t.covers offset = false := by
  simp only [Token.covers, Bool.and_eq_false_iff, decide_eq_false_iff_not]
  omega

/-- Every span of a tiling lies within it. -/
theorem Tiles.bounds {k : Int} {cs : List Char} {ts : List Token} (h : Tiles k cs ts) :
    ∀ t ∈ ts, k < t.span.first.offset ∧ t.span.first.offset ≤ t.span.last.offset ∧
      t.span.last.offset ≤ k + byteLength cs := by
  induction h with
  | nil k => simp
  | blank hblank hrest ih =>
      rename_i k c cs ts
      intro t ht
      have hsize := c.utf8Size_pos
      obtain ⟨hlo, hspan, hhi⟩ := ih t ht
      rw [byteLength_cons]
      omega
  | token hfirst hlast hvalue hrest ih =>
      rename_i k c taken cs t ts
      intro u hu
      have hsize := c.utf8Size_pos
      have htaken := byteLength_nonneg taken
      have hcs := byteLength_nonneg cs
      simp only [byteLength_append, byteLength_cons] at hlast ih ⊢
      rcases List.mem_cons.mp hu with rfl | hu
      · omega
      · obtain ⟨hlo, hspan, hhi⟩ := ih u hu
        omega

/-- The spans of a tiling follow one another. -/
theorem Tiles.pairwise {k : Int} {cs : List Char} {ts : List Token} (h : Tiles k cs ts) :
    ts.Pairwise fun a b => a.span.last.offset < b.span.first.offset := by
  induction h with
  | nil k => exact List.Pairwise.nil
  | blank hblank hrest ih => exact ih
  | token hfirst hlast hvalue hrest ih =>
      refine List.pairwise_cons.mpr ⟨?_, ih⟩
      intro u hu
      rw [hlast]
      exact (hrest.bounds u hu).1

/-- What a tiling leaves uncovered is blank. -/
theorem Tiles.blank_of_uncovered {k : Int} {cs : List Char} {ts : List Token}
    (h : Tiles k cs ts) {x : Int × Char} (hx : x ∈ placed k cs)
    (hout : ∀ t ∈ ts, t.covers x.1 = false) : isBlank x.2 = true := by
  induction h with
  | nil k => simp [placed] at hx
  | blank hblank hrest ih =>
      rcases List.mem_cons.mp hx with rfl | hx
      · exact hblank
      · exact ih hx hout
  | token hfirst hlast hvalue hrest ih =>
      rename_i k c taken cs t ts
      rw [placed_append] at hx
      rcases List.mem_append.mp hx with hx | hx
      · -- A character of the token itself is covered by it.
        have hlo := first_le_of_mem_placed hx
        have hhi := (bounds_of_mem_placed hx).2
        have hin : t.covers x.1 = true :=
          covers_of_bounds (by rw [hfirst]; exact hlo) (by rw [hlast]; exact hhi)
        rw [hout t List.mem_cons_self] at hin
        cases hin
      · exact ih hx fun u hu => hout u (List.mem_cons_of_mem t hu)

theorem covered_append (t : Token) (xs ys : List (Int × Char)) :
    covered t (xs ++ ys) = covered t xs ++ covered t ys := by
  simp [covered]

theorem covered_eq_nil {t : Token} {xs : List (Int × Char)}
    (h : ∀ x ∈ xs, t.covers x.1 = false) : covered t xs = [] := by
  have hnone : xs.filter (fun x => t.covers x.1) = [] := by
    rw [List.filter_eq_nil_iff]
    intro x hx
    rw [h x hx]
    exact Bool.false_ne_true
  rw [covered, hnone]
  rfl

/-- A token covers nothing of the characters before its span. -/
theorem covered_placed_of_lt {t : Token} {k : Int} {cs : List Char}
    (h : k + byteLength cs < t.span.first.offset) : covered t (placed k cs) = [] := by
  apply covered_eq_nil
  intro x hx
  have hhi := (bounds_of_mem_placed hx).2
  exact covers_eq_false (Or.inl (by omega))

/-- A token covers nothing of the characters after its span. -/
theorem covered_placed_of_le {t : Token} {k : Int} {cs : List Char}
    (h : t.span.last.offset ≤ k) : covered t (placed k cs) = [] := by
  apply covered_eq_nil
  intro x hx
  have hlo := (bounds_of_mem_placed hx).1
  exact covers_eq_false (Or.inr (by omega))

/-- A token covers all of the characters it was cut from. -/
theorem covered_placed_self {t : Token} {k : Int} {c : Char} {taken : List Char}
    (hfirst : t.span.first.offset = k + c.utf8Size)
    (hlast : t.span.last.offset = k + byteLength (c :: taken)) :
    covered t (placed k (c :: taken)) = c :: taken := by
  have hall : ∀ x ∈ placed k (c :: taken), t.covers x.1 = true := by
    intro x hx
    have hlo := first_le_of_mem_placed hx
    have hhi := (bounds_of_mem_placed hx).2
    exact covers_of_bounds (by omega) (by omega)
  rw [covered, List.filter_eq_self.mpr hall, map_snd_placed]

/-- The value of each token of a tiling is the meaning of what it covers, whatever
follows the tiling. -/
theorem Tiles.meaning_covered {k : Int} {cs : List Char} {ts : List Token} (h : Tiles k cs ts)
    (more : List Char) {t : Token} (ht : t ∈ ts) :
    meaning t.kind (covered t (placed k (cs ++ more))) = some t.value.toList := by
  induction h with
  | nil k => simp at ht
  | blank hblank hrest ih =>
      rename_i k c cs ts
      have hbefore : covered t (placed k [c]) = [] :=
        covered_placed_of_lt (by simpa using (hrest.bounds t ht).1)
      have hsplit : placed k (c :: cs ++ more) = placed k [c] ++ placed (k + c.utf8Size) (cs ++ more) :=
        rfl
      rw [hsplit, covered_append, hbefore]
      exact ih ht
  | token hfirst hlast hvalue hrest ih =>
      rename_i k c taken cs u ts
      rw [List.append_assoc, placed_append, covered_append]
      rcases List.mem_cons.mp ht with rfl | ht
      · rw [covered_placed_self hfirst hlast, covered_placed_of_le (by omega), List.append_nil]
        exact hvalue
      · rw [covered_placed_of_lt (hrest.bounds t ht).1]
        exact ih ht

/-! ## Texts -/

/-- Tokens that account for the characters of a text. `front` is what stands before
the place where the tokens stop, and `back` is what is left there. -/
structure AccountsFor (ts : List Token) (cs front back : List Char) : Prop where
  split : cs = front ++ back
  /-- Each span is where it says, and each one ends before the next one starts. -/
  ordered : ts.Pairwise fun a b => a.span.last.offset < b.span.first.offset
  spans : ∀ t ∈ ts, t.span.first.offset ≤ t.span.last.offset
  /-- Only blanks stand between the spans. -/
  blanks : ∀ x ∈ placed (-1) front, (∀ t ∈ ts, t.covers x.1 = false) →
    x.2 ∈ ['\t', ' ', '\x0c', '\x0b']
  /-- The tokens stop at the end of the text or at a NUL that no span holds. -/
  stop : back = [] ∨ back.head? = some '\x00'
  after : ∀ x ∈ placed (-1 + byteLength front) back, ∀ t ∈ ts, t.covers x.1 = false
  /-- Each value is what the characters of the span stand for. -/
  values : ∀ t ∈ ts, meaning t.kind (covered t (placed (-1) cs)) = some t.value.toList

/-- A tiling of the front of a text accounts for it. -/
theorem Tiles.accountsFor {ts : List Token} {front back : List Char} (h : Tiles (-1) front ts)
    (hback : back = [] ∨ back.head? = some '\x00') :
    AccountsFor ts (front ++ back) front back where
  split := rfl
  ordered := h.pairwise
  spans := fun t ht => (h.bounds t ht).2.1
  blanks := by
    intro x hx hout
    have hblank := isBlank_iff.mp (h.blank_of_uncovered hx hout)
    simp only [List.mem_cons, List.not_mem_nil, or_false]
    rcases hblank with hspace | htab | hform | hvertical
    · exact Or.inr (Or.inl hspace)
    · exact Or.inl htab
    · exact Or.inr (Or.inr (Or.inl hform))
    · exact Or.inr (Or.inr (Or.inr hvertical))
  stop := hback
  after := by
    intro x hx t ht
    have hlo := (bounds_of_mem_placed hx).1
    have hhi := (h.bounds t ht).2.2
    exact covers_eq_false (Or.inr (by omega))
  values := fun t ht => h.meaning_covered back ht

end Source
end ClientGen
