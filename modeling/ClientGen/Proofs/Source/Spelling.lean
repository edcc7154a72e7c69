import ClientGen.Proofs.Source.Reading

/-! # Spelling tokens

How each token is written, and which values a token of each kind may have. A
token that is written and followed by a blank, by a line break after a line
comment, or by the end of the text is lexed back: every reader stops exactly
there. So a whole list of tokens with one space between them is lexed back.
-/

namespace ClientGen
namespace Source

open Lexer

/-! ## Characters -/

def punctuationMarks : List Char :=
  ['\x7b', '\x7d', '[', ']', '(', ')', '<', '>', ',', ';', ':', '=', '.', '+', '-', '*', '/']

/-- Characters without a token of their own: blanks, the NUL character and the
byte order mark. -/
def passedOver : List Char :=
  [' ', '\t', Char.ofNat 11, Char.ofNat 12, Char.ofNat 0, Text.byteOrderMark]

def asciiDigits : List Char := ['0', '1', '2', '3', '4', '5', '6', '7', '8', '9']

/-- Characters that start a token but no identifier, the number sign apart. -/
def tokenStarts : List Char := '\n' :: '\r' :: '"' :: '\'' :: (asciiDigits ++ punctuationMarks)

/-! ## Lexemes -/

/-- The quotes around a text. -/
inductive Quote where
  | single | double
deriving DecidableEq, Repr, Inhabited

def Quote.char : Quote → Char
  | single => '\''
  | double => '"'

/-- A token to be written: its kind and value, the quotes if it is a text, and
whether a line comment starts with a number sign. -/
structure Lexeme where
  face : Face
  quote : Quote := .double
  hash : Bool := false
deriving DecidableEq, Repr, Inhabited

/-- The value of a text with a backslash before each backslash and each quote. -/
def escape (quote : Char) (cs : List Char) : List Char :=
  cs.flatMap fun c => if c = quote ∨ c = '\\' then ['\\', c] else [c]

/-- A letter or an underscore, then letters, digits and underscores. -/
def legalIdentifier : List Char → Bool
  | c :: cs =>
    (Text.isLetter c || c == '_') && cs.all fun d => Text.isLetter d || Text.isDigit d || d == '_'
  | [] => false

/-- ASCII digits, at least one. -/
def legalDigits (cs : List Char) : Bool := !cs.isEmpty && cs.all Char.isDigit

/-- A zero, a marker and hexadecimal digits, at least one. -/
def legalHex : List Char → Bool
  | '0' :: marker :: ds =>
    (marker == 'x' || marker == 'X') && !ds.isEmpty && ds.all fun c => (Text.hexDigit? c).isSome
  | _ => false

/-- An exponent mark, a sign or none, and digits. -/
def legalExponent : List Char → Bool
  | mark :: '+' :: ds => (mark == 'e' || mark == 'E') && legalDigits ds
  | mark :: '-' :: ds => (mark == 'e' || mark == 'E') && legalDigits ds
  | mark :: ds => (mark == 'e' || mark == 'E') && legalDigits ds
  | [] => false

/-- Digits with a point and perhaps more digits, an exponent, or both. -/
def legalFloat (cs : List Char) : Bool :=
  !(cs.takeWhile Char.isDigit).isEmpty &&
    match cs.dropWhile Char.isDigit with
    | '.' :: more =>
      let exponent := more.dropWhile Char.isDigit
      exponent.isEmpty || legalExponent exponent
    | exponent => legalExponent exponent

/-- Whether a comment does not hold the delimiter that closes it. -/
def neverCloses : List Char → Bool
  | [] => true
  | '*' :: '/' :: _ => false
  | _ :: cs => neverCloses cs

/-- Whether a character starts no other token and is not passed over. -/
def startsNothing (o : Options) (c : Char) : Bool :=
  !(isIdentifierStart c || tokenStarts.contains c || passedOver.contains c) &&
    !(c == '#' && o.hashComments)

namespace Lexeme

def spelled (x : Lexeme) : List Char :=
  match x.face.kind with
  | .text => x.quote.char :: (escape x.quote.char x.face.value.toList ++ [x.quote.char])
  | .comment => (if x.hash then ['#'] else ['/', '/']) ++ x.face.value.toList
  | .commentBlock => '/' :: '*' :: (x.face.value.toList ++ ['*', '/'])
  | _ => x.face.value.toList

/-- Whether a token has a value that is legal for its kind. -/
def legal (o : Options) (x : Lexeme) : Bool :=
  let cs := x.face.value.toList
  match x.face.kind with
  | .identifier => legalIdentifier cs
  | .integerDecimal => legalDigits cs
  | .integerHex => legalHex cs
  | .floatDecimal => legalFloat cs
  | .text => true
  | .comment => cs.all (fun c => c != '\n' && c != '\r') && (!x.hash || o.hashComments)
  | .commentBlock => neverCloses cs
  | .newline => cs == ['\n'] || cs == ['\r', '\n'] || cs == ['\r']
  | .unknown =>
    match cs with
    | [c] => startsNothing o c
    | _ => false
  | kind => x.face.value == kind.symbol

end Lexeme

/-- Tokens in a row: one space between them, and none after a line comment. -/
def spellRow : List Lexeme → List Char
  | [] => []
  | [x] => x.spelled
  | x :: y :: xs =>
    x.spelled ++ ((if x.face.kind = .comment then [] else [' ']) ++ spellRow (y :: xs))

/-- Whether every line comment is followed directly by a line break or the end. -/
def commentsEnd : List Lexeme → Bool
  | x :: y :: xs =>
    (x.face.kind != .comment || y.face.kind == .newline) && commentsEnd (y :: xs)
  | _ => true

/-! ## What a character starts -/

theorem mem_asciiDigits {c : Char} (h : c.isDigit = true) : c ∈ asciiDigits := by
  simp only [Char.isDigit, Bool.and_eq_true, decide_eq_true_eq] at h
  have hlo : 48 ≤ c.toNat := h.1
  have hhi : c.toNat ≤ 57 := h.2
  have hall : ∀ n, 48 ≤ n → n ≤ 57 → Char.ofNat n ∈ asciiDigits := by
    intro n hn hn'
    have hcases : n = 48 ∨ n = 49 ∨ n = 50 ∨ n = 51 ∨ n = 52 ∨ n = 53 ∨ n = 54 ∨ n = 55 ∨
        n = 56 ∨ n = 57 := by omega
    rcases hcases with rfl | rfl | rfl | rfl | rfl | rfl | rfl | rfl | rfl | rfl <;> decide
  rw [← Char.ofNat_toNat c]
  exact hall c.toNat hlo hhi

/-- What is decided of each character of a list holds of all of them. -/
theorem forall_of_all {P : Char → Prop} [DecidablePred P] {cs : List Char}
    (h : cs.all (fun c => decide (P c)) = true) : ∀ c ∈ cs, P c := by
  intro c hc
  exact of_decide_eq_true (List.all_eq_true.mp h c hc)

/-- A character that is not passed over is read as the start of a token. -/
theorem dispatch_eq_readToken {c : Char} (h : c ∉ passedOver) (o : Options) (p : Position)
    (rest : List Char) : dispatch o c p rest = readToken o c p rest := by
  simp only [passedOver, List.mem_cons, List.not_mem_nil, not_or] at h
  obtain ⟨hspace, htab, hvertical, hform, hnul, hmark, -⟩ := h
  have hzero : c.toNat ≠ 0 := by
    intro hn
    exact hnul ((toNat_eq_iff 0 rfl).mp hn)
  have hblank : ¬ isBlank c = true := by
    rw [isBlank_iff]
    simp [hspace, htab, hvertical, hform]
  unfold dispatch
  rw [if_neg hmark, if_neg hzero, if_neg hblank]

/-- An identifier starts with none of the characters that start something else. -/
theorem not_mem_of_isIdentifierStart {c : Char} (h : isIdentifierStart c = true) :
    c ∉ '#' :: (tokenStarts ++ passedOver) := by
  have hall : ∀ d ∈ '#' :: (tokenStarts ++ passedOver), isIdentifierStart d = false :=
    forall_of_all (by decide +kernel)
  intro hmem
  rw [hall c hmem] at h
  exact absurd h (by decide)

/-- What is no start of another token is an identifier or stands alone. -/
theorem readToken_eq_of_not_start {c : Char} {o : Options} (h : c ∉ tokenStarts)
    (hhash : ¬ (c = '#' ∧ o.hashComments = true)) (p : Position) (rest : List Char) :
    readToken o c p rest =
      if isIdentifierStart c = true then readIdentifier c p rest else single .unknown c p rest := by
  have hdigit : ¬ c.isDigit = true := by
    intro hd
    have hmem := mem_asciiDigits hd
    exact h (by simp [tokenStarts, hmem])
  simp only [tokenStarts, asciiDigits, punctuationMarks, List.cons_append, List.nil_append,
    List.mem_cons, List.not_mem_nil, not_or] at h
  have hmark : TokenKind.ofPunctuation? c = none := by
    unfold TokenKind.ofPunctuation?
    split <;> simp_all
  unfold readToken
  rw [hmark]
  simp [h, hdigit, hhash]

theorem readToken_eq_readDecimal {c : Char} {rest : List Char} (hc : c.isDigit = true)
    (hrest : ∀ m ∈ rest.head?, m ≠ 'x' ∧ m ≠ 'X') (o : Options) (p : Position) :
    readToken o c p rest = readDecimal c p rest := by
  have hall : ∀ d ∈ asciiDigits, d ≠ '\n' ∧ d ≠ '\r' := forall_of_all (by decide)
  obtain ⟨hfeed, hreturn⟩ := hall c (mem_asciiDigits hc)
  unfold readToken
  rw [if_neg hfeed, if_neg hreturn]
  by_cases hzero : c = '0'
  · subst hzero
    rw [if_pos rfl]
    unfold readZero
    cases rest with
    | nil => rfl
    | cons m more =>
        obtain ⟨hx, hX⟩ := hrest m rfl
        simp [hx, hX]
  · rw [if_neg hzero, if_pos hc]

theorem readToken_eq_single {c : Char} (hmem : c ∈ punctuationMarks) (hslash : c ≠ '/')
    {kind : TokenKind} (hkind : TokenKind.ofPunctuation? c = some kind) (o : Options)
    (p : Position) (rest : List Char) : readToken o c p rest = single kind c p rest := by
  have hall : ∀ d ∈ punctuationMarks, d ≠ '\n' ∧ d ≠ '\r' ∧ d ≠ '0' ∧ d.isDigit = false ∧
      d ≠ '"' ∧ d ≠ '\'' ∧ d ≠ '#' := forall_of_all (by decide)
  obtain ⟨hfeed, hreturn, hzero, hdigit, hdouble, hsingle, hhash⟩ := hall c hmem
  unfold readToken
  rw [hkind]
  simp [hfeed, hreturn, hzero, hdigit, hdouble, hsingle, hhash, hslash]

theorem not_passedOver_of_mem {c : Char} (h : c ∈ '#' :: tokenStarts) : c ∉ passedOver := by
  have hall : ∀ d ∈ '#' :: tokenStarts, d ∉ passedOver := forall_of_all (by decide)
  exact hall c h

/-! ## Readers -/

/-- What stands after a written token: nothing, a blank, or a line break if the
token is a line comment. -/
def boundary (kind : TokenKind) (rest : List Char) : Prop :=
  ∀ c ∈ rest.head?, if kind = .comment then isBreak c = true else c = ' '

/-- A longest run of characters of a class ends where the class ends. -/
theorem span_append {p : Char → Bool} {cs rest : List Char} (hin : ∀ c ∈ cs, p c = true)
    (hout : ∀ c ∈ rest.head?, p c = false) :
    (cs ++ rest).takeWhile p = cs ∧ (cs ++ rest).dropWhile p = rest := by
  rw [List.takeWhile_append_of_pos hin, List.dropWhile_append_of_pos hin]
  cases rest with
  | nil => simp
  | cons c rest =>
      have hc := hout c rfl
      simp [hc]

/-- A reader gives a token with a face and leaves what stands after it. -/
def Gives (s : Step) (f : Face) (rest : List Char) : Prop :=
  ∃ t q, s = .token t { position := q, rest } ∧ t.face = f

theorem gives_finish (kind : TokenKind) (value : List Char) (first here : Position)
    (taken rest : List Char) :
    Gives (finish kind value first here taken rest) ⟨kind, String.ofList value⟩ rest :=
  ⟨_, _, rfl, rfl⟩

theorem gives_readIdentifier {c : Char} {cs rest : List Char}
    (hcs : ∀ d ∈ cs, isIdentifierPart d = true) (hrest : boundary .identifier rest)
    (p : Position) :
    Gives (readIdentifier c p (cs ++ rest)) ⟨.identifier, String.ofList (c :: cs)⟩ rest := by
  have hout : ∀ d ∈ rest.head?, isIdentifierPart d = false := by
    intro d hd
    have hspace : d = ' ' := hrest d hd
    subst hspace
    decide
  obtain ⟨htake, hdrop⟩ := span_append hcs hout
  unfold readIdentifier
  rw [htake, hdrop]
  exact gives_finish _ _ _ _ _ _

theorem gives_readLineComment {cs rest : List Char} (hcs : ∀ c ∈ cs, isBreak c = false)
    (hrest : boundary .comment rest) (first p : Position) :
    Gives (readLineComment first p (cs ++ rest)) ⟨.comment, String.ofList cs⟩ rest := by
  have hin : ∀ c ∈ cs, (!isBreak c) = true := by
    intro c hc
    rw [hcs c hc]
    rfl
  have hout : ∀ c ∈ rest.head?, (!isBreak c) = false := by
    intro c hc
    have hbreak : isBreak c = true := hrest c hc
    rw [hbreak]
    rfl
  obtain ⟨htake, hdrop⟩ := span_append hin hout
  unfold readLineComment
  rw [htake, hdrop]
  exact gives_finish _ _ _ _ _ _

theorem gives_readHex {marker : Char} {ds rest : List Char} (hne : ds ≠ [])
    (hds : ∀ d ∈ ds, isHexDigit d = true) (hrest : boundary .integerHex rest)
    (first p : Position) :
    Gives (readHex first p marker (ds ++ rest))
      ⟨.integerHex, String.ofList ('0' :: marker :: ds)⟩ rest := by
  have hout : ∀ d ∈ rest.head?, isHexDigit d = false := by
    intro d hd
    have hspace : d = ' ' := hrest d hd
    subst hspace
    decide
  obtain ⟨htake, hdrop⟩ := span_append hds hout
  have hempty : ¬ ds.isEmpty = true := by simpa using hne
  unfold readHex
  simp only [htake, hdrop, if_neg hempty]
  exact gives_finish _ _ _ _ _ _

theorem neverCloses_cons {c : Char} {cs : List Char} (h : neverCloses (c :: cs) = true) :
    neverCloses cs = true ∧ (c = '*' → cs.head? ≠ some '/') := by
  cases cs with
  | nil => exact ⟨rfl, by simp⟩
  | cons d ds =>
      by_cases hclose : c = '*' ∧ d = '/'
      · obtain ⟨rfl, rfl⟩ := hclose
        simp [neverCloses] at h
      · constructor
        · rw [neverCloses] at h
          · exact h
          · intro rest hc hd
            exact hclose ⟨hc, (List.cons.inj hd).1⟩
        · intro hc hd
          exact hclose ⟨hc, by simpa using hd⟩

/-- A block comment ends with the first delimiter that closes it. -/
theorem blockBody_append (cs : List Char) (p : Position) (rest : List Char)
    (h : neverCloses cs = true) :
    ∃ q, blockBody p (cs ++ '*' :: '/' :: rest) = .ok (cs, q, rest) := by
  match cs with
  | [] => exact ⟨_, rfl⟩
  | c :: cs =>
      obtain ⟨hcs, hstar⟩ := neverCloses_cons h
      by_cases hbreak : c = '\r' ∧ cs.head? = some '\n'
      · obtain ⟨rfl, hhead⟩ := hbreak
        cases cs with
        | nil => simp at hhead
        | cons d ds =>
            have hd : d = '\n' := by simpa using hhead
            subst hd
            have hds := (neverCloses_cons hcs).1
            obtain ⟨q, hq⟩ := blockBody_append ds ((p.step '\r').step '\n').newLine rest hds
            refine ⟨q, ?_⟩
            simp [blockBody, hq, bind, Except.bind, pure, Except.pure]
      · have hfirst : ∀ more, c = '*' → cs ++ '*' :: '/' :: rest = '/' :: more → False := by
          intro more hc heq
          cases cs with
          | nil => simp at heq
          | cons d ds =>
              have hd : d = '/' := (List.cons.inj heq).1
              exact hstar hc (by simp [hd])
        have hreturn : ∀ more, c = '\r' → cs ++ '*' :: '/' :: rest = '\n' :: more → False := by
          intro more hc heq
          cases cs with
          | nil => simp at heq
          | cons d ds =>
              have hd : d = '\n' := (List.cons.inj heq).1
              exact hbreak ⟨hc, by simp [hd]⟩
        obtain ⟨q, hq⟩ := blockBody_append cs
          (if isBreak c then (p.step c).newLine else p.step c) rest hcs
        refine ⟨q, ?_⟩
        rw [List.cons_append, blockBody.eq_4 p c _ hfirst hreturn]
        simp [hq, bind, Except.bind, pure, Except.pure]

theorem gives_readBlockComment {cs : List Char} (h : neverCloses cs = true) (first p : Position)
    (rest : List Char) :
    Gives (readBlockComment first p (cs ++ '*' :: '/' :: rest))
      ⟨.commentBlock, String.ofList cs⟩ rest := by
  obtain ⟨q, hq⟩ := blockBody_append cs p rest h
  unfold readBlockComment
  rw [hq]
  exact ⟨_, _, rfl, rfl⟩

/-- An escaped quote or backslash stands for itself. -/
theorem unescape_of_escaped {quote : Quote} {c : Char} (h : c = quote.char ∨ c = '\\') :
    unescape c = [c] := by
  rcases h with rfl | rfl
  · cases quote <;> rfl
  · rfl

/-- A text ends with the first quote that is not escaped. -/
theorem textBody_escape (quote : Quote) (cs : List Char) (p : Position) (rest : List Char) :
    ∃ q, textBody quote.char p (escape quote.char cs ++ quote.char :: rest) = .ok (cs, q, rest) := by
  have hquote : quote.char ≠ '\\' := by cases quote <;> decide
  induction cs generalizing p with
  | nil =>
      refine ⟨p.step quote.char, ?_⟩
      simp [escape, textBody, hquote]
  | cons c cs ih =>
      have hcons : escape quote.char (c :: cs) =
          (if c = quote.char ∨ c = '\\' then ['\\', c] else [c]) ++ escape quote.char cs := rfl
      rw [hcons]
      by_cases hescaped : c = quote.char ∨ c = '\\'
      · obtain ⟨q, hq⟩ := ih ((p.step '\\').step c)
        refine ⟨q, ?_⟩
        rw [if_pos hescaped]
        simp [textBody, hq, unescape_of_escaped hescaped, bind, Except.bind, pure, Except.pure]
      · obtain ⟨q, hq⟩ := ih (if c = '\n' then (p.step c).newLine else p.step c)
        refine ⟨q, ?_⟩
        simp only [not_or] at hescaped
        simp [textBody, hq, hescaped, bind, Except.bind, pure, Except.pure]

theorem gives_readText (quote : Quote) (cs : List Char) (p : Position) (rest : List Char) :
    Gives (readText quote.char p (escape quote.char cs ++ quote.char :: rest))
      ⟨.text, String.ofList cs⟩ rest := by
  obtain ⟨q, hq⟩ := textBody_escape quote cs p rest
  unfold readText
  rw [hq]
  exact ⟨_, _, rfl, rfl⟩

/-! ## Decimal numbers -/

/-- From a mode on, the characters `cs` are taken as the end of a number in front of
what satisfies `m`. -/
def TakesBefore (m : List Char → Prop) (mode : DecimalMode) (cs : List Char) (float : Bool) :
    Prop :=
  ∀ (p : Position) (rest : List Char), m rest →
    ∃ q, decimalBody mode p (cs ++ rest) = .ok (cs, float, q, rest)

/-- From a mode on, the characters `cs` are taken as the end of a number. -/
def Takes (mode : DecimalMode) (cs : List Char) (float : Bool) : Prop :=
  TakesBefore (boundary .floatDecimal) mode cs float

section Takes

variable {m : List Char → Prop}

/-- One more character in front of a number. -/
theorem takes_cons {mode next : DecimalMode} {c : Char} {cs : List Char} {float : Bool}
    (h : TakesBefore m next cs float)
    (hc : ∀ p rest body isFloat q left, m rest →
      decimalBody next (p.step c) (cs ++ rest) = .ok (body, isFloat, q, left) →
      decimalBody mode p (c :: (cs ++ rest)) = .ok (c :: body, isFloat, q, left)) :
    TakesBefore m mode (c :: cs) float := by
  intro p rest hrest
  obtain ⟨q, hq⟩ := h (p.step c) rest hrest
  exact ⟨q, hc p rest cs float q rest hrest hq⟩

/-- A number ends in front of what does not go on with it. -/
theorem takes_stop {mode : DecimalMode} (hmode : mode ≠ .sign)
    (hstop : ∀ rest, m rest → ∀ c ∈ rest.head?,
      c.isDigit = false ∧ ¬(c = '.' ∧ mode = .whole) ∧ c ≠ 'e' ∧ c ≠ 'E') :
    TakesBefore m mode [] (mode != .whole) := by
  intro p rest hrest
  cases rest with
  | nil => exact ⟨p, rfl⟩
  | cons c rest =>
      obtain ⟨hdigit, hpoint, hmark, hMark⟩ := hstop _ hrest c rfl
      refine ⟨p, ?_⟩
      simp [decimalBody, hmode, hdigit, hpoint, hmark, hMark]

theorem takes_nil {mode : DecimalMode} (hmode : mode ≠ .sign) :
    Takes mode [] (mode != .whole) := by
  refine takes_stop hmode fun rest hrest c hc => ?_
  have hspace : c = ' ' := hrest c hc
  subst hspace
  simp

theorem takes_digits {mode : DecimalMode} {ds cs : List Char} {float : Bool}
    (hds : ∀ d ∈ ds, d.isDigit = true) (h : TakesBefore m mode cs float) :
    TakesBefore m mode (ds ++ cs) float := by
  induction ds with
  | nil => exact h
  | cons d ds ih =>
      have hd := hds d (by simp)
      have hrest := ih fun e he => hds e (by simp [he])
      refine takes_cons hrest fun p rest body isFloat q left _ hq => ?_
      rw [decimalBody, if_pos hd, hq]
      rfl

theorem takes_point {cs : List Char} (h : TakesBefore m .float cs true) :
    TakesBefore m .whole ('.' :: cs) true := by
  refine takes_cons h fun p rest body isFloat q left _ hq => ?_
  have hdot : ¬ ('.' : Char).isDigit = true := by decide
  rw [decimalBody, if_neg hdot, if_pos (Or.inr ⟨rfl, rfl⟩), hq]
  rfl

theorem takes_sign {sign : Char} {cs : List Char} (hsign : sign = '+' ∨ sign = '-')
    (h : TakesBefore m .float cs true) : TakesBefore m .sign (sign :: cs) true := by
  have hdigit : ¬ sign.isDigit = true := by
    rcases hsign with rfl | rfl <;> decide
  refine takes_cons h fun p rest body isFloat q left _ hq => ?_
  rw [decimalBody, if_neg hdigit, if_pos (Or.inl rfl), hq]
  rfl

/-- An exponent mark is taken when what follows it lets it be one. -/
theorem takes_mark {mode next : DecimalMode} {mark : Char} {cs : List Char}
    (hmode : mode ≠ .sign) (hmark : mark = 'e' ∨ mark = 'E')
    (hnext : ∀ rest, m rest → exponentMode (cs ++ rest) = .ok next)
    (h : TakesBefore m next cs true) : TakesBefore m mode (mark :: cs) true := by
  have hdigit : ¬ mark.isDigit = true := by
    rcases hmark with rfl | rfl <;> decide
  have hpoint : ¬ (mode = .sign ∨ (mark = '.' ∧ mode = .whole)) := by
    intro hor
    rcases hor with hor | ⟨hdot, -⟩
    · exact hmode hor
    · rcases hmark with rfl | rfl <;> exact absurd hdot (by decide)
  refine takes_cons h fun p rest body isFloat q left hrest hq => ?_
  rw [decimalBody, if_neg hdigit, if_neg hpoint, if_pos hmark, hnext rest hrest]
  simp only [hq]
  rfl

end Takes

theorem isDigit_of_ascii {c : Char} (h : c.isDigit = true) :
    Text.isDigit c = true ∧ c ≠ '+' ∧ c ≠ '-' := by
  have hall : ∀ d ∈ asciiDigits, Text.isDigit d = true ∧ d ≠ '+' ∧ d ≠ '-' :=
    forall_of_all (by decide)
  exact hall c (mem_asciiDigits h)

theorem legalDigits_iff {ds : List Char} :
    legalDigits ds = true ↔ ds ≠ [] ∧ ∀ d ∈ ds, d.isDigit = true := by
  simp [legalDigits]

theorem takes_exponent {mode : DecimalMode} {cs : List Char} (hmode : mode ≠ .sign)
    (h : legalExponent cs = true) : Takes mode cs true := by
  have hdigits : ∀ ds : List Char, legalDigits ds = true → Takes .float ds true := by
    intro ds hds
    have htake := takes_digits (legalDigits_iff.mp hds).2 (takes_nil (show DecimalMode.float ≠ .sign by decide))
    rwa [List.append_nil] at htake
  -- With a sign in front the digits follow in the mode that expects the sign.
  have hsigned : ∀ (mark sign : Char) (ds : List Char), (mark = 'e' ∨ mark = 'E') →
      (sign = '+' ∨ sign = '-') → legalDigits ds = true → Takes mode (mark :: sign :: ds) true := by
    intro mark sign ds hmark hsign hds
    obtain ⟨hne, hall⟩ := legalDigits_iff.mp hds
    refine takes_mark hmode hmark (fun rest _ => ?_) (takes_sign hsign (hdigits ds hds))
    cases ds with
    | nil => exact absurd rfl hne
    | cons d ds =>
        have hd := (isDigit_of_ascii (hall d (by simp))).1
        simp [exponentMode, hsign, hd]
  have hplain : ∀ (mark : Char) (ds : List Char), (mark = 'e' ∨ mark = 'E') →
      legalDigits ds = true → Takes mode (mark :: ds) true := by
    intro mark ds hmark hds
    obtain ⟨hne, hall⟩ := legalDigits_iff.mp hds
    refine takes_mark hmode hmark (fun rest _ => ?_) (hdigits ds hds)
    cases ds with
    | nil => exact absurd rfl hne
    | cons d ds =>
        obtain ⟨hd, hplus, hminus⟩ := isDigit_of_ascii (hall d (by simp))
        simp [exponentMode, hplus, hminus, hd]
  unfold legalExponent at h
  split at h
  · simp only [Bool.and_eq_true, Bool.or_eq_true, beq_iff_eq] at h
    exact hsigned _ _ _ h.1 (Or.inl rfl) h.2
  · simp only [Bool.and_eq_true, Bool.or_eq_true, beq_iff_eq] at h
    exact hsigned _ _ _ h.1 (Or.inr rfl) h.2
  · simp only [Bool.and_eq_true, Bool.or_eq_true, beq_iff_eq] at h
    exact hplain _ _ h.1 h.2
  · exact absurd h (by decide)

/-- A float is its digits and an ending. -/
theorem takes_float {cs : List Char} (h : legalFloat cs = true) :
    ∃ ds ending, cs = ds ++ ending ∧ ds ≠ [] ∧ (∀ d ∈ ds, d.isDigit = true) ∧
      Takes .whole ending true := by
  have hsplit := List.takeWhile_append_dropWhile (p := Char.isDigit) (l := cs)
  have hds : ∀ d ∈ cs.takeWhile Char.isDigit, d.isDigit = true := by
    have hall : (cs.takeWhile Char.isDigit).all Char.isDigit = true := List.all_takeWhile
    exact List.all_eq_true.mp hall
  simp only [legalFloat, Bool.and_eq_true, Bool.not_eq_true'] at h
  obtain ⟨hne, hending⟩ := h
  refine ⟨cs.takeWhile Char.isDigit, cs.dropWhile Char.isDigit, hsplit.symm, ?_, hds, ?_⟩
  · simpa using hne
  split at hending
  · rename_i more hmore
    rw [hmore]
    have hfraction : ∀ d ∈ more.takeWhile Char.isDigit, d.isDigit = true := by
      have hall : (more.takeWhile Char.isDigit).all Char.isDigit = true := List.all_takeWhile
      exact List.all_eq_true.mp hall
    have hexponent : Takes .float (more.dropWhile Char.isDigit) true := by
      simp only [Bool.or_eq_true] at hending
      rcases hending with hempty | hexponent
      · have hnil : more.dropWhile Char.isDigit = [] := by simpa using hempty
        rw [hnil]
        exact takes_nil (by decide)
      · exact takes_exponent (by decide) hexponent
    have htake := takes_point (takes_digits hfraction hexponent)
    rwa [List.takeWhile_append_dropWhile] at htake
  · exact takes_exponent (by decide) hending

theorem gives_readDecimal {m : List Char → Prop} {c : Char} {cs rest : List Char} {float : Bool}
    (h : TakesBefore m .whole cs float) (hrest : m rest) (p : Position) :
    Gives (readDecimal c p (cs ++ rest))
      ⟨if float then .floatDecimal else .integerDecimal, String.ofList (c :: cs)⟩ rest := by
  obtain ⟨q, hq⟩ := h p rest hrest
  unfold readDecimal
  rw [hq]
  exact ⟨_, _, rfl, rfl⟩

/-- Nothing that goes on a number makes its first digit a hexadecimal marker. -/
theorem head_ne_marker {cs rest : List Char} {float : Bool} (h : Takes .whole cs float)
    (hrest : boundary .floatDecimal rest) : ∀ m ∈ (cs ++ rest).head?, m ≠ 'x' ∧ m ≠ 'X' := by
  intro m hm
  cases cs with
  | nil =>
      have hspace : m = ' ' := hrest m (by simpa using hm)
      subst hspace
      decide
  | cons c cs =>
      have hc : c = m := by simpa using hm
      subst hc
      obtain ⟨q, hq⟩ := h {} [] (by simp [boundary])
      constructor
      · intro hx
        subst hx
        simp [decimalBody] at hq
      · intro hx
        subst hx
        simp [decimalBody] at hq

/-! ## One token -/

section Tokens

variable {o : Options} {rest : List Char} (p : Position)

theorem gives_identifier {cs : List Char} (hcs : legalIdentifier cs = true)
    (hrest : boundary .identifier rest) :
    Gives (step o ⟨p, cs ++ rest⟩) ⟨.identifier, String.ofList cs⟩ rest := by
  cases cs with
  | nil => exact absurd hcs (by decide)
  | cons c cs =>
      simp only [legalIdentifier, Bool.and_eq_true, List.all_eq_true] at hcs
      obtain ⟨hc, hcs⟩ := hcs
      have hstart : isIdentifierStart c = true := hc
      have hnot := not_mem_of_isIdentifierStart hstart
      simp only [List.mem_cons, List.mem_append, not_or] at hnot
      obtain ⟨hhash, hstarts, hpassed⟩ := hnot
      have hread : step o ⟨p, (c :: cs) ++ rest⟩ = readIdentifier c (p.step c) (cs ++ rest) := by
        rw [step, List.cons_append]
        simp only [dispatch_eq_readToken hpassed,
          readToken_eq_of_not_start hstarts (fun h => hhash h.1), if_pos hstart]
      rw [hread]
      exact gives_readIdentifier hcs hrest (p.step c)

theorem gives_unknown {c : Char} (hc : startsNothing o c = true) (rest : List Char) :
    Gives (step o ⟨p, c :: rest⟩) ⟨.unknown, String.ofList [c]⟩ rest := by
  simp only [startsNothing, Bool.and_eq_true, Bool.not_eq_true', Bool.or_eq_false_iff,
    List.contains_eq_mem, decide_eq_false_iff_not] at hc
  obtain ⟨⟨⟨hstart, hstarts⟩, hpassed⟩, hhash⟩ := hc
  have hplain : ¬ (c = '#' ∧ o.hashComments = true) := by
    rintro ⟨rfl, ho⟩
    simp [ho] at hhash
  have hread : step o ⟨p, c :: rest⟩ = single .unknown c (p.step c) rest := by
    rw [step]
    simp [dispatch_eq_readToken hpassed, readToken_eq_of_not_start hstarts hplain, hstart]
  rw [hread]
  exact gives_finish _ _ _ _ _ _

/-- A digit starts a decimal number where no hexadecimal marker stands behind it. -/
theorem step_digit {c : Char} (hc : c.isDigit = true)
    (hrest : ∀ m ∈ rest.head?, m ≠ 'x' ∧ m ≠ 'X') :
    step o ⟨p, c :: rest⟩ = readDecimal c (p.step c) rest := by
  have hmem : c ∈ '#' :: tokenStarts := by
    simp [tokenStarts, mem_asciiDigits hc]
  rw [step]
  simp only [dispatch_eq_readToken (not_passedOver_of_mem hmem), readToken_eq_readDecimal hc hrest]

theorem gives_decimal {c : Char} {cs : List Char} {float : Bool} (hc : c.isDigit = true)
    (hcs : Takes .whole cs float) (hrest : boundary .floatDecimal rest) :
    Gives (step o ⟨p, (c :: cs) ++ rest⟩)
      ⟨if float then .floatDecimal else .integerDecimal, String.ofList (c :: cs)⟩ rest := by
  rw [List.cons_append, step_digit p hc (head_ne_marker hcs hrest)]
  exact gives_readDecimal hcs hrest (p.step c)

theorem gives_digits {cs : List Char} (hcs : legalDigits cs = true)
    (hrest : boundary .integerDecimal rest) :
    Gives (step o ⟨p, cs ++ rest⟩) ⟨.integerDecimal, String.ofList cs⟩ rest := by
  obtain ⟨hne, hds⟩ := legalDigits_iff.mp hcs
  cases cs with
  | nil => exact absurd rfl hne
  | cons d ds =>
      have htake := takes_digits (fun e he => hds e (List.mem_cons_of_mem d he))
        (takes_nil (show DecimalMode.whole ≠ .sign by decide))
      rw [List.append_nil] at htake
      exact gives_decimal p (hds d (by simp)) htake hrest

theorem gives_float {cs : List Char} (hcs : legalFloat cs = true)
    (hrest : boundary .floatDecimal rest) :
    Gives (step o ⟨p, cs ++ rest⟩) ⟨.floatDecimal, String.ofList cs⟩ rest := by
  obtain ⟨ds, ending, rfl, hne, hds, hending⟩ := takes_float hcs
  cases ds with
  | nil => exact absurd rfl hne
  | cons d ds =>
      have htake := takes_digits (fun e he => hds e (List.mem_cons_of_mem d he)) hending
      exact gives_decimal p (hds d (by simp)) htake hrest

theorem gives_hex {cs : List Char} (hcs : legalHex cs = true)
    (hrest : boundary .integerHex rest) :
    Gives (step o ⟨p, cs ++ rest⟩) ⟨.integerHex, String.ofList cs⟩ rest := by
  unfold legalHex at hcs
  split at hcs
  · rename_i marker ds
    simp only [Bool.and_eq_true, Bool.or_eq_true, beq_iff_eq, Bool.not_eq_true',
      List.all_eq_true] at hcs
    obtain ⟨⟨hmarker, hne⟩, hds⟩ := hcs
    have hread : step o ⟨p, ('0' :: marker :: ds) ++ rest⟩ =
        readHex (p.step '0') ((p.step '0').step marker) marker (ds ++ rest) := by
      rw [step, List.cons_append]
      simp only [dispatch_eq_readToken (not_passedOver_of_mem (c := '0') (by decide))]
      simp [readToken, readZero, hmarker]
    rw [hread]
    exact gives_readHex (by simpa using hne) hds hrest _ _
  · exact absurd hcs (by decide)

theorem gives_text (quote : Quote) (cs rest : List Char) :
    Gives (step o ⟨p, (quote.char :: (escape quote.char cs ++ [quote.char])) ++ rest⟩)
      ⟨.text, String.ofList cs⟩ rest := by
  have hmem : quote.char ∈ '#' :: tokenStarts := by
    cases quote <;> decide
  have hread : step o ⟨p, (quote.char :: (escape quote.char cs ++ [quote.char])) ++ rest⟩ =
      readText quote.char (p.step quote.char) (escape quote.char cs ++ quote.char :: rest) := by
    rw [step]
    simp only [List.cons_append, List.append_assoc, List.nil_append,
      dispatch_eq_readToken (not_passedOver_of_mem hmem)]
    cases quote <;> simp [Quote.char, readToken]
  rw [hread]
  exact gives_readText quote cs _ rest

theorem gives_comment {cs : List Char} {hash : Bool}
    (hcs : cs.all (fun c => c != '\n' && c != '\r') = true) (hhash : hash = true → o.hashComments = true)
    (hrest : boundary .comment rest) :
    Gives (step o ⟨p, ((if hash then ['#'] else ['/', '/']) ++ cs) ++ rest⟩)
      ⟨.comment, String.ofList cs⟩ rest := by
  have hbreak : ∀ c ∈ cs, isBreak c = false := by
    intro c hc
    have hne := List.all_eq_true.mp hcs c hc
    simp only [Bool.and_eq_true, bne_iff_ne] at hne
    simp [isBreak, hne]
  cases hash with
  | true =>
      have hread : step o ⟨p, (['#'] ++ cs) ++ rest⟩ =
          readLineComment (p.step '#') (p.step '#') (cs ++ rest) := by
        rw [step]
        simp only [List.cons_append, List.nil_append,
          dispatch_eq_readToken (not_passedOver_of_mem (c := '#') (by decide))]
        simp [readToken, hhash]
      simp only [if_true]
      rw [hread]
      exact gives_readLineComment hbreak hrest _ _
  | false =>
      have hread : step o ⟨p, (['/', '/'] ++ cs) ++ rest⟩ =
          readLineComment (p.step '/') ((p.step '/').step '/') (cs ++ rest) := by
        rw [step]
        simp only [List.cons_append, List.nil_append,
          dispatch_eq_readToken (not_passedOver_of_mem (c := '/') (by decide))]
        simp [readToken, readSlash]
      simp only [Bool.false_eq_true, if_false]
      rw [hread]
      exact gives_readLineComment hbreak hrest _ _

theorem gives_commentBlock {cs : List Char} (hcs : neverCloses cs = true) (rest : List Char) :
    Gives (step o ⟨p, ('/' :: '*' :: (cs ++ ['*', '/'])) ++ rest⟩)
      ⟨.commentBlock, String.ofList cs⟩ rest := by
  have hread : step o ⟨p, ('/' :: '*' :: (cs ++ ['*', '/'])) ++ rest⟩ =
      readBlockComment (p.step '/') ((p.step '/').step '*') (cs ++ '*' :: '/' :: rest) := by
    rw [step]
    simp only [List.cons_append, List.append_assoc, List.nil_append,
      dispatch_eq_readToken (not_passedOver_of_mem (c := '/') (by decide))]
    simp [readToken, readSlash]
  rw [hread]
  exact gives_readBlockComment hcs _ _ rest

theorem gives_newline {cs : List Char}
    (hcs : cs = ['\n'] ∨ cs = ['\r', '\n'] ∨ cs = ['\r']) (hrest : boundary .newline rest) :
    Gives (step o ⟨p, cs ++ rest⟩) ⟨.newline, String.ofList cs⟩ rest := by
  have hreturn : ∀ more, step o ⟨p, '\r' :: more⟩ = readReturn (p.step '\r') more := by
    intro more
    rw [step]
    simp only [dispatch_eq_readToken (not_passedOver_of_mem (c := '\r') (by decide))]
    simp [readToken]
  rcases hcs with rfl | rfl | rfl
  · have hread : step o ⟨p, ['\n'] ++ rest⟩ = lineBreak ['\n'] (p.step '\n') (p.step '\n') rest := by
      rw [step]
      simp only [List.cons_append, List.nil_append,
        dispatch_eq_readToken (not_passedOver_of_mem (c := '\n') (by decide))]
      simp [readToken]
    rw [hread]
    exact ⟨_, _, rfl, rfl⟩
  · rw [List.cons_append, hreturn]
    exact ⟨_, _, rfl, rfl⟩
  · rw [List.cons_append, hreturn, List.nil_append]
    have hread : readReturn (p.step '\r') rest =
        lineBreak ['\r'] (p.step '\r') (p.step '\r') rest := by
      cases rest with
      | nil => rfl
      | cons c rest =>
          have hspace : c = ' ' := hrest c rfl
          subst hspace
          rfl
    rw [hread]
    exact ⟨_, _, rfl, rfl⟩

theorem gives_mark {kind : TokenKind} {c : Char} (hmem : c ∈ punctuationMarks)
    (hkind : TokenKind.ofPunctuation? c = some kind) (hrest : boundary .slash rest) :
    Gives (step o ⟨p, c :: rest⟩) ⟨kind, String.ofList [c]⟩ rest := by
  have hstart : c ∈ '#' :: tokenStarts := by
    simp [tokenStarts, hmem]
  have hread : step o ⟨p, c :: rest⟩ = single kind c (p.step c) rest := by
    rw [step]
    simp only [dispatch_eq_readToken (not_passedOver_of_mem hstart)]
    by_cases hslash : c = '/'
    · subst hslash
      have hk : kind = .slash := by simpa [TokenKind.ofPunctuation?] using hkind.symm
      subst hk
      cases rest with
      | nil => simp [readToken, readSlash]
      | cons d rest =>
          have hspace : d = ' ' := hrest d rfl
          subst hspace
          simp [readToken, readSlash]
    · exact readToken_eq_single hmem hslash hkind o (p.step c) rest
  rw [hread]
  exact gives_finish _ _ _ _ _ _

end Tokens

/-- The mark of a kind is the character that is read as that kind. -/
theorem symbol_toList {kind : TokenKind} (h : kind.symbol ≠ "") :
    ∃ c, kind.symbol.toList = [c] ∧ c ∈ punctuationMarks ∧
      TokenKind.ofPunctuation? c = some kind := by
  cases kind <;> first
    | exact absurd rfl h
    | exact ⟨_, rfl, by decide, rfl⟩

theorem gives_punctuation {o : Options} {kind : TokenKind} {value : String}
    (hkind : kind.symbol ≠ "") (hvalue : (value == kind.symbol) = true) {rest : List Char}
    (hrest : boundary .slash rest) (p : Position) :
    Gives (step o ⟨p, value.toList ++ rest⟩) ⟨kind, value⟩ rest := by
  obtain ⟨c, hc, hmem, hread⟩ := symbol_toList hkind
  have hlist : value.toList = [c] := by rw [beq_iff_eq.mp hvalue, hc]
  have hsymbol : value = String.ofList [c] := by rw [← hlist, String.ofList_toList]
  rw [hlist, hsymbol]
  exact gives_mark p hmem hread hrest

/-- A legal token before a boundary is lexed back. -/
theorem gives_step {o : Options} (x : Lexeme) (hx : x.legal o = true) {rest : List Char}
    (hrest : boundary x.face.kind rest) (p : Position) :
    Gives (step o ⟨p, x.spelled ++ rest⟩) x.face rest := by
  obtain ⟨⟨kind, value⟩, quote, hash⟩ := x
  have hvalue : String.ofList value.toList = value := String.ofList_toList
  cases kind with
  | identifier =>
      have hgives := gives_identifier (o := o) p hx hrest
      rwa [hvalue] at hgives
  | integerDecimal =>
      have hgives := gives_digits (o := o) p hx hrest
      rwa [hvalue] at hgives
  | integerHex =>
      have hgives := gives_hex (o := o) p hx hrest
      rwa [hvalue] at hgives
  | floatDecimal =>
      have hgives := gives_float (o := o) p hx hrest
      rwa [hvalue] at hgives
  | text =>
      have hgives := gives_text (o := o) p quote value.toList rest
      rwa [hvalue] at hgives
  | comment =>
      simp only [Lexeme.legal, Bool.and_eq_true, Bool.or_eq_true, Bool.not_eq_true'] at hx
      have hhash : hash = true → o.hashComments = true := by
        intro hh
        simpa [hh] using hx.2
      have hgives := gives_comment (o := o) p hx.1 hhash hrest
      rwa [hvalue] at hgives
  | commentBlock =>
      have hgives := gives_commentBlock (o := o) p hx rest
      rwa [hvalue] at hgives
  | newline =>
      simp only [Lexeme.legal, Bool.or_eq_true, beq_iff_eq, or_assoc] at hx
      have hgives := gives_newline (o := o) p hx hrest
      rwa [hvalue] at hgives
  | unknown =>
      simp only [Lexeme.legal] at hx
      split at hx
      · rename_i c hc
        have hgives := gives_unknown p hx rest
        rw [← hc, hvalue] at hgives
        simpa [Lexeme.spelled, hc] using hgives
      · exact absurd hx (by decide)
  | _ => exact gives_punctuation (by simp [TokenKind.symbol]) hx hrest p

/-! ## Many tokens -/

/-- A blank between tokens is passed over. -/
theorem step_space (o : Options) (p : Position) (rest : List Char) :
    step o ⟨p, ' ' :: rest⟩ = .skip ⟨p.step ' ', rest⟩ := by
  have hmark : ' ' ≠ Text.byteOrderMark := by decide
  have hzero : ' '.toNat ≠ 0 := by decide
  rw [step]
  simp only [dispatch, if_neg hmark, if_neg hzero]
  rfl

theorem runAux_token {o : Options} {s next : Scan} {t : Token} (h : step o s = .token t next)
    (fuel : Nat) : runAux o (fuel + 1) s = (t :: (runAux o fuel next).1, (runAux o fuel next).2) := by
  rw [runAux, h]

theorem runAux_skip {o : Options} {s next : Scan} (h : step o s = .skip next) (fuel : Nat) :
    runAux o (fuel + 1) s = runAux o fuel next := by
  rw [runAux, h]

/-- A legal token is written with at least one character: from none the lexer
makes no token. -/
theorem spelled_ne_nil {o : Options} {x : Lexeme} (hx : x.legal o = true) : x.spelled ≠ [] := by
  intro hnil
  have hend : boundary x.face.kind [] := by simp [boundary]
  obtain ⟨t, q, hstep, -⟩ := gives_step x hx hend {}
  rw [hnil] at hstep
  exact Step.noConfusion hstep

/-- A row starts as its first token does. -/
theorem spellRow_cons (x : Lexeme) (xs : List Lexeme) :
    ∃ rest, spellRow (x :: xs) = x.spelled ++ rest := by
  cases xs with
  | nil => exact ⟨[], by simp [spellRow]⟩
  | cons y ys => exact ⟨_, rfl⟩

/-- A line break is what a line comment has to be followed by. -/
theorem boundary_comment {o : Options} {y : Lexeme} (hy : y.legal o = true)
    (hkind : y.face.kind = .newline) (ys : List Lexeme) : boundary .comment (spellRow (y :: ys)) := by
  have hcs : y.face.value.toList = ['\n'] ∨ y.face.value.toList = ['\r', '\n'] ∨
      y.face.value.toList = ['\r'] := by
    simpa [Lexeme.legal, hkind, or_assoc] using hy
  have hspelled : y.spelled = y.face.value.toList := by
    simp [Lexeme.spelled, hkind]
  obtain ⟨rest, hrow⟩ := spellRow_cons y ys
  intro c hc
  rw [hrow, hspelled] at hc
  rcases hcs with h | h | h <;> rw [h] at hc
  · have hfeed : c = '\n' := by simpa using hc.symm
    simp [hfeed, isBreak]
  · have hreturn : c = '\r' := by simpa using hc.symm
    simp [hreturn, isBreak]
  · have hreturn : c = '\r' := by simpa using hc.symm
    simp [hreturn, isBreak]

/-- The run over written tokens gives them all and no fault. The fuel is used for
each token and each space, and both take a character. -/
theorem runAux_spellRow {o : Options} (xs : List Lexeme)
    (hlegal : ∀ x ∈ xs, x.legal o = true) (hcomments : commentsEnd xs = true) (p : Position)
    (fuel : Nat) (hfuel : (spellRow xs).length < fuel) :
    ∃ ts, runAux o fuel ⟨p, spellRow xs⟩ = (ts, none) ∧
      ts.map Token.face = xs.map Lexeme.face := by
  induction xs generalizing p fuel with
  | nil =>
      obtain ⟨fuel, rfl⟩ : ∃ k, fuel = k + 1 := ⟨fuel - 1, by omega⟩
      exact ⟨[], rfl, rfl⟩
  | cons x xs ih =>
      obtain ⟨fuel, rfl⟩ : ∃ k, fuel = k + 1 := ⟨fuel - 1, by omega⟩
      have hx := hlegal x (by simp)
      have hxs : ∀ y ∈ xs, y.legal o = true := fun y hy => hlegal y (by simp [hy])
      have hpos : 0 < x.spelled.length := List.length_pos_iff.mpr (spelled_ne_nil hx)
      cases xs with
      | nil =>
          have hend : boundary x.face.kind [] := by simp [boundary]
          obtain ⟨t, q, hstep, hface⟩ := gives_step x hx hend p
          rw [List.append_nil] at hstep
          rw [spellRow] at hfuel ⊢
          obtain ⟨fuel, rfl⟩ : ∃ k, fuel = k + 1 := ⟨fuel - 1, by omega⟩
          refine ⟨[t], ?_, by simp [hface]⟩
          rw [runAux_token hstep]
          rfl
      | cons y ys =>
          simp only [commentsEnd, Bool.and_eq_true, Bool.or_eq_true, bne_iff_ne, beq_iff_eq]
            at hcomments
          obtain ⟨hbreak, htail⟩ := hcomments
          rw [spellRow] at hfuel ⊢
          simp only [List.length_append] at hfuel
          by_cases hcomment : x.face.kind = .comment
          · have hnewline : y.face.kind = .newline := hbreak.resolve_left (fun h => h hcomment)
            have hnext : boundary x.face.kind (spellRow (y :: ys)) := by
              rw [hcomment]
              exact boundary_comment (hxs y (by simp)) hnewline ys
            obtain ⟨t, q, hstep, hface⟩ := gives_step x hx hnext p
            obtain ⟨ts, hrun, hfaces⟩ := ih hxs htail q fuel (by omega)
            refine ⟨t :: ts, ?_, by simp [hface, hfaces]⟩
            rw [if_pos hcomment, List.nil_append, runAux_token hstep, hrun]
          · rw [if_neg hcomment] at hfuel ⊢
            have hnext : boundary x.face.kind (' ' :: spellRow (y :: ys)) := by
              intro c hc
              have hspace : c = ' ' := by simpa using hc.symm
              simp [hcomment, hspace]
            obtain ⟨t, q, hstep, hface⟩ := gives_step x hx hnext p
            simp only [List.length_singleton] at hfuel
            obtain ⟨fuel, rfl⟩ : ∃ k, fuel = k + 1 := ⟨fuel - 1, by omega⟩
            obtain ⟨ts, hrun, hfaces⟩ := ih hxs htail (q.step ' ') fuel (by omega)
            refine ⟨t :: ts, ?_, by simp [hface, hfaces]⟩
            rw [List.singleton_append, runAux_token hstep, runAux_skip (step_space o q _), hrun]

/-- No written token starts with a byte order mark: away from the start of a text
the mark is a fault. -/
theorem spelled_head_ne_mark {o : Options} {x : Lexeme} (hx : x.legal o = true) :
    x.spelled.head? ≠ some Text.byteOrderMark := by
  intro hhead
  obtain ⟨cs, hcs⟩ := List.head?_eq_some_iff.mp hhead
  have hend : boundary x.face.kind [] := by simp [boundary]
  obtain ⟨t, q, hstep, -⟩ := gives_step x hx hend { line := 1, column := 1 }
  rw [hcs, List.append_nil, step] at hstep
  simp [dispatch, Position.step] at hstep

theorem codePoints_ofList {cs : List Char} (h : cs.head? ≠ some Text.byteOrderMark) :
    Text.codePoints (String.ofList cs) = cs := by
  unfold Text.codePoints
  rw [String.toList_ofList]
  cases cs with
  | nil => rfl
  | cons c cs =>
      have hc : c ≠ Text.byteOrderMark := by simpa using h
      exact if_neg hc

/-- So nothing is dropped in front of a row. -/
theorem codePoints_spellRow {o : Options} (xs : List Lexeme)
    (hlegal : ∀ x ∈ xs, x.legal o = true) :
    Text.codePoints (String.ofList (spellRow xs)) = spellRow xs := by
  apply codePoints_ofList
  cases xs with
  | nil => simp [spellRow]
  | cons x xs =>
      have hx := hlegal x (by simp)
      obtain ⟨rest, hrow⟩ := spellRow_cons x xs
      obtain ⟨c, cs, hspelled⟩ := List.exists_cons_of_ne_nil (spelled_ne_nil hx)
      have hmark := spelled_head_ne_mark hx
      rw [hspelled] at hmark
      rw [hrow, hspelled]
      exact hmark

/-- Lexing undoes spelling: legal tokens with one space between them, each line
comment before a line break or at the end, are lexed back with nothing reported. -/
theorem lex_spellRow (o : Options) (uri : String) (r : Reporter) (xs : List Lexeme)
    (hlegal : ∀ x ∈ xs, x.legal o = true) (hcomments : commentsEnd xs = true) :
    ∃ ts, lex o uri (String.ofList (spellRow xs)) r = (ts, r) ∧
      ts.map Token.face = xs.map Lexeme.face := by
  obtain ⟨ts, hrun, hfaces⟩ := runAux_spellRow xs hlegal hcomments Position.start
    ((spellRow xs).length + 1) (by omega)
  refine ⟨ts, ?_, hfaces⟩
  unfold lex run
  rw [codePoints_spellRow xs hlegal, hrun]

/-- Tokens whose ends are easily missed: quotes inside a text, a run of stars before
the end of a comment, an exponent with a sign, a carriage return alone. -/
def delicateRow : List Lexeme :=
  [{ face := ⟨.identifier, "_x9"⟩ }, { face := ⟨.floatDecimal, "1.e-05"⟩ },
   { face := ⟨.text, "it's \"\\n\"\n"⟩, quote := .single }, { face := ⟨.integerHex, "0XaF"⟩ },
   { face := ⟨.commentBlock, "/**\r\n*"⟩ }, { face := ⟨.slash, "/"⟩ },
   { face := ⟨.comment, "// \""⟩, hash := true }, { face := ⟨.newline, "\r"⟩ },
   { face := ⟨.newline, "\n"⟩ }, { face := ⟨.unknown, "@"⟩ }, { face := ⟨.integerDecimal, "007"⟩ },
   { face := ⟨.dot, "."⟩ }, { face := ⟨.comment, ""⟩ }]

theorem lex_delicateRow :
    ∃ ts, lex { hashComments := true } "a.thrift" (String.ofList (spellRow delicateRow)) {} =
        (ts, {}) ∧ ts.map Token.face = delicateRow.map Lexeme.face :=
  lex_spellRow { hashComments := true } "a.thrift" {} delicateRow (by decide +kernel)
    (by decide +kernel)

end Source
end ClientGen
