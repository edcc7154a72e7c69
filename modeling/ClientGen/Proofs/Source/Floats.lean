import ClientGen.Proofs.Source.Integers
import ClientGen.Proofs.Source.Positions

/-! # Float tokens

A float numeral is made of digits, of a point with digits or none behind it, and of
exponents; a point or an exponent is there. The float tokens of a text are its float
numerals that end where they stand, and no others (`lex_floats`). An exponent follows
another one, and one without digits is the last, in front of a digit of another script.
So a float token is legal exactly if it has at most one exponent and this one has digits
(`legalFloat_spelled_iff`).
-/

namespace ClientGen
namespace Source

open Lexer

/-! ## Float numerals -/

structure Exponent where
  mark : Char
  sign : Option Char
  digits : List Char
  mark_eq : mark = 'e' ∨ mark = 'E'
  sign_eq : ∀ s ∈ sign, s = '+' ∨ s = '-'
  isDigit_of_mem : ∀ d ∈ digits, d.isDigit = true

def Exponent.spelled (e : Exponent) : List Char := e.mark :: (e.sign.toList ++ e.digits)

def exponentRow (es : List Exponent) : List Char := es.flatMap Exponent.spelled

/-- A point and what stands behind it, if there is a point. -/
def pointed : Option (List Char) → List Char
  | none => []
  | some ds => '.' :: ds

/-- Digits, the digits behind a point if there is one, and exponents. -/
structure FloatNumeral where
  whole : List Char
  fraction : Option (List Char)
  exponents : List Exponent
  whole_ne_nil : whole ≠ []
  isDigit_whole : ∀ d ∈ whole, d.isDigit = true
  isDigit_fraction : ∀ ds ∈ fraction, ∀ d ∈ ds, d.isDigit = true
  isFloat : fraction ≠ none ∨ exponents ≠ []

def FloatNumeral.spelled (x : FloatNumeral) : List Char :=
  x.whole ++ (pointed x.fraction ++ exponentRow x.exponents)

@[simp] theorem exponentRow_nil : exponentRow [] = [] := rfl

theorem FloatNumeral.head_spelled_ne_mark (x : FloatNumeral) (after : List Char) :
    (x.spelled ++ after).head? ≠ some Text.byteOrderMark := by
  obtain ⟨d, ds, hcons⟩ := List.exists_cons_of_ne_nil x.whole_ne_nil
  have hdigit := x.isDigit_whole d (by simp [hcons])
  intro hhead
  obtain rfl : d = Text.byteOrderMark := by simpa [spelled, hcons] using hhead
  cases hdigit

theorem exponentRow_cons (e : Exponent) (es : List Exponent) :
    exponentRow (e :: es) = e.mark :: (e.sign.toList ++ (e.digits ++ exponentRow es)) := by
  simp [exponentRow, Exponent.spelled]

/-- An exponent mark is no digit of any script, and no point or sign. -/
theorem mark_plain {c : Char} (hmark : c = 'e' ∨ c = 'E') :
    c.isDigit = false ∧ Text.isDigit c = false ∧ c ∉ ['.', '+', '-'] := by
  rcases hmark with rfl | rfl <;> decide

theorem mark_of_head_exponentRow (es : List Exponent) :
    ∀ c ∈ (exponentRow es).head?, c = 'e' ∨ c = 'E' := by
  intro c hhead
  cases es with
  | nil => cases hhead
  | cons e es =>
      rw [exponentRow_cons] at hhead
      obtain rfl : e.mark = c := by simpa using hhead
      exact e.mark_eq

/-! ### Legal numerals -/

theorem legalDigits_exponentRow_iff {ds : List Char} (hdigits : ∀ d ∈ ds, d.isDigit = true)
    (es : List Exponent) : legalDigits (ds ++ exponentRow es) = true ↔ ds ≠ [] ∧ es = [] := by
  rw [legalDigits_iff]
  constructor
  · intro ⟨hne, hlegal⟩
    cases es with
    | nil => exact ⟨by simpa using hne, rfl⟩
    | cons e es =>
        have hdigit : e.mark.isDigit = true := hlegal e.mark (by simp [exponentRow_cons])
        rw [(mark_plain e.mark_eq).1] at hdigit
        cases hdigit
  · intro ⟨hne, hnil⟩
    subst hnil
    simpa using ⟨hne, hdigits⟩

theorem legalExponent_unsigned {mark : Char} {cs : List Char} (hmark : mark = 'e' ∨ mark = 'E')
    (hunsigned : ∀ c ∈ cs.head?, c ≠ '+' ∧ c ≠ '-') :
    legalExponent (mark :: cs) = legalDigits cs := by
  cases cs with
  | nil => rcases hmark with rfl | rfl <;> rfl
  | cons c cs =>
      obtain ⟨hplus, hminus⟩ := hunsigned c rfl
      rcases hmark with rfl | rfl <;> simp [legalExponent, hplus, hminus]

theorem legalExponent_signed {mark sign : Char} {cs : List Char} (hmark : mark = 'e' ∨ mark = 'E')
    (hsign : sign = '+' ∨ sign = '-') : legalExponent (mark :: sign :: cs) = legalDigits cs := by
  rcases hmark with rfl | rfl <;> rcases hsign with rfl | rfl <;> rfl

theorem head_digits_exponentRow {ds : List Char} (hdigits : ∀ d ∈ ds, d.isDigit = true)
    (es : List Exponent) : ∀ c ∈ (ds ++ exponentRow es).head?, c ≠ '+' ∧ c ≠ '-' := by
  intro c hhead
  cases ds with
  | nil =>
      have hplain := (mark_plain (mark_of_head_exponentRow _ c hhead)).2.2
      exact ⟨fun hplus => hplain (by simp [hplus]), fun hminus => hplain (by simp [hminus])⟩
  | cons d ds =>
      obtain rfl : d = c := by simpa using hhead
      exact (isDigit_of_ascii (hdigits d List.mem_cons_self)).2

theorem legalExponent_exponentRow_iff (es : List Exponent) :
    legalExponent (exponentRow es) = true ↔ es.length = 1 ∧ ∀ e ∈ es, e.digits ≠ [] := by
  cases es with
  | nil => simp [legalExponent]
  | cons e es =>
      have hread : legalExponent (exponentRow (e :: es)) =
          legalDigits (e.digits ++ exponentRow es) := by
        rw [exponentRow_cons]
        cases hsign : e.sign with
        | none =>
            exact legalExponent_unsigned e.mark_eq (head_digits_exponentRow e.isDigit_of_mem es)
        | some sign => exact legalExponent_signed e.mark_eq (e.sign_eq sign hsign)
      rw [hread, legalDigits_exponentRow_iff e.isDigit_of_mem]
      constructor
      · intro ⟨hne, hnil⟩
        subst hnil
        simpa using hne
      · intro ⟨hone, hne⟩
        exact ⟨hne e List.mem_cons_self, by simpa using hone⟩

theorem head_pointed_exponentRow (fraction : Option (List Char)) (es : List Exponent) :
    ∀ c ∈ (pointed fraction ++ exponentRow es).head?, c.isDigit = false := by
  intro c hhead
  cases fraction with
  | none => exact (mark_plain (mark_of_head_exponentRow _ c hhead)).1
  | some ds =>
      obtain rfl : '.' = c := by simpa [pointed] using hhead
      rfl

theorem legalFloat_spelled_iff (x : FloatNumeral) :
    legalFloat x.spelled = true ↔ x.exponents.length ≤ 1 ∧ ∀ e ∈ x.exponents, e.digits ≠ [] := by
  obtain ⟨htake, hdrop⟩ :=
    span_append x.isDigit_whole (head_pointed_exponentRow x.fraction x.exponents)
  have hne : x.whole.isEmpty = false := by simpa using x.whole_ne_nil
  unfold legalFloat FloatNumeral.spelled
  rw [htake, hdrop, hne]
  have hrow := legalExponent_exponentRow_iff x.exponents
  cases hfraction : x.fraction with
  | none =>
      -- Without a point there is an exponent, and its mark is not read as a point.
      have hfound : x.exponents ≠ [] := x.isFloat.resolve_left (· hfraction)
      obtain ⟨e, es, hcons⟩ := List.exists_cons_of_ne_nil hfound
      have hnoPoint : ∀ more, exponentRow x.exponents ≠ '.' :: more := by
        intro more hsame
        have hmark := mark_of_head_exponentRow x.exponents '.' (by rw [hsame]; rfl)
        exact absurd hmark (by decide)
      have hone : x.exponents.length ≤ 1 ↔ x.exponents.length = 1 := by
        rw [hcons]
        simp
      rw [hone, ← hrow]
      simp only [pointed, List.nil_append, Bool.not_false, Bool.true_and]
  | some ds =>
      have hdigits := x.isDigit_fraction ds hfraction
      have hrest := (span_append hdigits fun c hhead =>
        (mark_plain (mark_of_head_exponentRow x.exponents c hhead)).1).2
      simp only [pointed, List.cons_append, hrest, Bool.not_false, Bool.true_and, Bool.or_eq_true,
        List.isEmpty_iff, hrow]
      cases x.exponents with
      | nil => simp
      | cons e es => simp [exponentRow_cons]

/-! ### Numerals and what stands behind them -/

/-- A decimal digit that is not an ASCII digit. -/
def isForeignDigit (c : Char) : Bool := Text.isDigit c && !c.isDigit

/-- Exponents as they are taken in front of `after`: one without digits is the last, and a
digit of another script stands behind it. -/
def RowBefore (after : List Char) : List Exponent → Prop
  | [] => True
  | e :: es => (e.digits = [] → es = [] ∧ ∃ d ∈ after.head?, isForeignDigit d = true) ∧
      RowBefore after es

/-- No digit and no exponent mark is in front. -/
def EndsNumber (after : List Char) : Prop :=
  ∀ c ∈ after.head?, c.isDigit = false ∧ c ≠ 'e' ∧ c ≠ 'E'

/-- A float numeral ends in front of `after`. -/
structure FloatNumeral.EndsBefore (x : FloatNumeral) (after : List Char) : Prop where
  row : RowBefore after x.exponents
  stop : EndsNumber after

theorem isForeignDigit_iff {c : Char} :
    isForeignDigit c = true ↔ Text.isDigit c = true ∧ c.isDigit = false := by
  simp [isForeignDigit]

/-- In a row of exponents that is taken, a digit of some script stands behind each mark. -/
theorem rowBefore_cons_iff {after : List Char} (hstop : EndsNumber after) (e : Exponent)
    (es : List Exponent) : RowBefore after (e :: es) ↔ RowBefore after es ∧
      ∃ d ∈ (e.digits ++ (exponentRow es ++ after)).head?, Text.isDigit d = true := by
  rw [RowBefore, and_comm]
  refine and_congr_right fun _ => ?_
  -- An exponent without digits shows the mark of the next one, or what stands behind the row.
  cases hdigits : e.digits with
  | cons d ds =>
      have hdigit := (isDigit_of_ascii (e.isDigit_of_mem d (by simp [hdigits]))).1
      simpa using hdigit
  | nil =>
      simp only [forall_const, List.nil_append]
      cases es with
      | nil =>
          simp only [true_and, exponentRow_nil, List.nil_append, isForeignDigit_iff]
          constructor
          · intro ⟨d, hhead, hdigit, _⟩
            exact ⟨d, hhead, hdigit⟩
          · intro ⟨d, hhead, hdigit⟩
            exact ⟨d, hhead, hdigit, (hstop d hhead).1⟩
      | cons e' es =>
          have hnoDigit := (mark_plain e'.mark_eq).2.1
          simp [exponentRow_cons, hnoDigit]

/-! ## Reading -/

namespace Lexer

theorem not_sign_of_isDigit {c : Char} (hdigit : Text.isDigit c = true) : ¬(c = '+' ∨ c = '-') := by
  rintro (rfl | rfl) <;> cases hdigit

/-- An exponent mark is followed by a digit of some script, or by a sign and such a digit. -/
theorem exponentMode_eq_ok_iff {rest : List Char} {next : DecimalMode} :
    exponentMode rest = .ok next ↔
      (next = .float ∧ ∃ d ∈ rest.head?, Text.isDigit d = true) ∨
        next = .sign ∧ ∃ s more, rest = s :: more ∧ (s = '+' ∨ s = '-') ∧
          ∃ d ∈ more.head?, Text.isDigit d = true := by
  constructor
  · intro h
    unfold exponentMode at h
    split at h
    · cases h
    rename_i s more
    split at h
    · rename_i hsign
      split at h
      · rename_i hdigit
        cases h
        cases more with
        | nil => cases hdigit
        | cons d ds => exact .inr ⟨rfl, s, d :: ds, rfl, hsign, d, rfl, hdigit⟩
      · cases h
    · split at h
      · rename_i hdigit
        cases h
        exact .inl ⟨rfl, s, rfl, hdigit⟩
      · cases h
  · rintro (⟨rfl, d, hhead, hdigit⟩ | ⟨rfl, s, more, rfl, hsign, d, hhead, hdigit⟩)
    · obtain ⟨more, rfl⟩ := List.head?_eq_some_iff.mp hhead
      rw [exponentMode, if_neg (not_sign_of_isDigit hdigit), if_pos hdigit]
    · obtain ⟨rest, rfl⟩ := List.head?_eq_some_iff.mp hhead
      rw [exponentMode, if_pos hsign]
      exact if_pos hdigit

/-- A number ends where no digit and no exponent mark follows. -/
theorem endsNumber_of_decimalBody {mode : DecimalMode} {p q : Position} {cs body left : List Char}
    {float : Bool} (h : decimalBody mode p cs = .ok (body, float, q, left)) : EndsNumber left := by
  fun_induction decimalBody mode p cs generalizing body with
  | case1 mode p =>
      cases h
      intro c hhead
      cases hhead
  | case2 mode p c rest hdigit ih =>
      obtain ⟨rest', hread, -⟩ := exists_of_ok_cons h
      exact ih hread
  | case3 mode p c rest hdigit hpoint ih =>
      obtain ⟨rest', hread, -⟩ := exists_of_ok_cons h
      exact ih hread
  | case4 => cases h
  | case5 mode p c rest hdigit hpoint hmark next hfound ih =>
      obtain ⟨rest', hread, -⟩ := exists_of_ok_cons h
      exact ih hread
  | case6 mode p c rest hdigit hpoint hmark =>
      cases h
      intro d hhead
      obtain rfl : c = d := by simpa using hhead
      exact ⟨by simpa using hdigit, not_or.mp hmark⟩

/-- What a number goes on with from a mode on, up to `left`. A float has a point or an
exponent by then. -/
def Continues (left : List Char) (float : Bool) : DecimalMode → List Char → Prop
  | .whole, body => ∃ ds fraction es, (∀ d ∈ ds, d.isDigit = true) ∧
      (∀ fs ∈ fraction, ∀ d ∈ fs, d.isDigit = true) ∧ RowBefore left es ∧
      (float = true → fraction ≠ none ∨ es ≠ []) ∧ body = ds ++ (pointed fraction ++ exponentRow es)
  | .float, body => ∃ ds es, (∀ d ∈ ds, d.isDigit = true) ∧ RowBefore left es ∧
      body = ds ++ exponentRow es
  | .sign, body => ∃ s ds es, (s = '+' ∨ s = '-') ∧ (∀ d ∈ ds, d.isDigit = true) ∧
      RowBefore left es ∧ body = s :: (ds ++ exponentRow es)

section Continues

variable {left body : List Char} {float : Bool} {mode : DecimalMode}

theorem continues_nil (hnoSign : mode ≠ .sign) : Continues left (mode != .whole) mode [] := by
  cases mode with
  | whole => exact ⟨[], none, [], nofun, nofun, trivial, nofun, rfl⟩
  | float => exact ⟨[], [], nofun, trivial, rfl⟩
  | sign => exact absurd rfl hnoSign

theorem continues_digit {c : Char} (hdigit : c.isDigit = true) (hnoSign : mode ≠ .sign)
    (h : Continues left float mode body) : Continues left float mode (c :: body) := by
  cases mode with
  | whole =>
      obtain ⟨ds, fraction, es, hdigits, hbehind, hrow, hfloat, rfl⟩ := h
      exact ⟨c :: ds, fraction, es, List.forall_mem_cons.mpr ⟨hdigit, hdigits⟩, hbehind, hrow,
        hfloat,
        rfl⟩
  | float =>
      obtain ⟨ds, es, hdigits, hrow, rfl⟩ := h
      exact ⟨c :: ds, es, List.forall_mem_cons.mpr ⟨hdigit, hdigits⟩, hrow, rfl⟩
  | sign => exact absurd rfl hnoSign

theorem continues_point (h : Continues left float .float body) :
    Continues left float .whole ('.' :: body) := by
  obtain ⟨ds, es, hdigits, hrow, rfl⟩ := h
  exact ⟨[], some ds, es, nofun, by simpa using hdigits, hrow, fun _ => .inl nofun, rfl⟩

/-- An exponent mark starts an exponent of its own. -/
theorem continues_mark {c : Char} {rest : List Char} {next : DecimalMode}
    (hmark : c = 'e' ∨ c = 'E')
    (hfound : exponentMode rest = .ok next) (hsplit : rest = body ++ left) (hstop : EndsNumber left)
    (hnoSign : mode ≠ .sign) (h : Continues left float next body) :
    Continues left float mode (c :: body) := by
  have hexponents : ∃ e es, RowBefore left (e :: es) ∧ c :: body = exponentRow (e :: es) := by
    rcases exponentMode_eq_ok_iff.mp hfound with ⟨rfl, hdigit⟩ | ⟨rfl, s, more, hcons, hsign,
      hdigit⟩
    · obtain ⟨ds, es, hdigits, hrow, rfl⟩ := h
      refine ⟨⟨c, none, ds, hmark, nofun, hdigits⟩, es, ?_, by rw [exponentRow_cons]; rfl⟩
      rw [rowBefore_cons_iff hstop]
      exact ⟨hrow, by simpa [hsplit] using hdigit⟩
    · obtain ⟨s', ds, es, -, hdigits, hrow, rfl⟩ := h
      rw [hcons] at hsplit
      obtain ⟨rfl, rfl⟩ := List.cons.inj hsplit
      refine ⟨⟨c, some s, ds, hmark, by simpa using hsign, hdigits⟩, es, ?_,
        by rw [exponentRow_cons]; rfl⟩
      rw [rowBefore_cons_iff hstop]
      exact ⟨hrow, by simpa using hdigit⟩
  obtain ⟨e, es, hrow, hspelled⟩ := hexponents
  cases mode with
  | whole => exact ⟨[], none, e :: es, nofun, nofun, hrow, fun _ => .inr nofun, hspelled⟩
  | float => exact ⟨[], e :: es, nofun, hrow, hspelled⟩
  | sign => exact absurd rfl hnoSign

theorem continues_of_decimalBody {p q : Position} {cs : List Char}
    (h : decimalBody mode p cs = .ok (body, float, q, left))
    (hsign : mode = .sign → ∃ s ∈ cs.head?, s = '+' ∨ s = '-') :
    Continues left float mode body := by
  have hstop := endsNumber_of_decimalBody h
  fun_induction decimalBody mode p cs generalizing body with
  | case1 mode p =>
      cases h
      refine continues_nil fun hsame => ?_
      obtain ⟨s, hhead, -⟩ := hsign hsame
      cases hhead
  | case2 mode p c rest hdigit ih =>
      obtain ⟨rest', hread, rfl⟩ := exists_of_ok_cons h
      -- Where a sign is announced it comes first.
      have hnoSign : mode ≠ .sign := by
        intro hsame
        obtain ⟨s, hhead, hplus⟩ := hsign hsame
        obtain rfl : c = s := by simpa using hhead
        rcases hplus with rfl | rfl <;> cases hdigit
      exact continues_digit hdigit hnoSign (ih hread (absurd · hnoSign))
  | case3 mode p c rest hdigit hpoint ih =>
      obtain ⟨rest', hread, rfl⟩ := exists_of_ok_cons h
      have h' := ih hread (absurd · (by decide))
      rcases hpoint with rfl | ⟨rfl, rfl⟩
      · obtain ⟨s, hhead, hplus⟩ := hsign rfl
        obtain rfl : c = s := by simpa using hhead
        obtain ⟨ds, es, hdigits, hrow, rfl⟩ := h'
        exact ⟨c, ds, es, hplus, hdigits, hrow, rfl⟩
      · exact continues_point h'
  | case4 => cases h
  | case5 mode p c rest hdigit hpoint hmark next hfound ih =>
      obtain ⟨rest', hread, rfl⟩ := exists_of_ok_cons h
      have hsign' : next = .sign → ∃ s ∈ rest.head?, s = '+' ∨ s = '-' := by
        rintro rfl
        exact head_of_exponentMode hfound
      exact continues_mark hmark hfound (decimalBody_line hread hsign').1 hstop (not_or.mp hpoint).1
        (ih hread hsign')
  | case6 mode p c rest hdigit hpoint hmark =>
      cases h
      exact continues_nil (not_or.mp hpoint).1

end Continues

/-- A token is a float numeral at the front of some characters if it is a float. -/
def FloatAt (cs : List Char) (t : Token) : Prop :=
  t.kind = .floatDecimal → ∃ (x : FloatNumeral) (after : List Char), t.value.toList = x.spelled ∧
    cs = x.spelled ++ after ∧ x.EndsBefore after

theorem floatAt_readDecimal {c : Char} (hdigit : c.isDigit = true) (p : Position)
    (rest : List Char) : (readDecimal c p rest).All (FloatAt (c :: rest)) := by
  unfold readDecimal
  split
  · rename_i body float last left hread
    intro hkind
    have hfloat : float = true := by
      cases float
      · cases hkind
      · rfl
    obtain ⟨ds, fraction, es, hdigits, hbehind, hrow, hne, rfl⟩ :=
      continues_of_decimalBody hread nofun
    have hsplit := (decimalBody_line hread nofun).1
    refine ⟨⟨c :: ds, fraction, es, nofun, List.forall_mem_cons.mpr ⟨hdigit, hdigits⟩, hbehind,
      hne hfloat⟩, left, String.toList_ofList, ?_, hrow, endsNumber_of_decimalBody hread⟩
    rw [hsplit]
    rfl
  · trivial

theorem floatAt_readToken (o : Options) (c : Char) (p : Position) (rest : List Char) :
    (readToken o c p rest).All (FloatAt (c :: rest)) := by
  refine all_readToken_at (fun _ => ?_) (fun hdigit => floatAt_readDecimal hdigit p rest)
    (fun marker _ more => ?_) (fun t hother hfloat => ?_)
  · exact all_finish (fun t hkind hfloat => by cases hkind.symm.trans hfloat) _ _ _ _ _
  · exact all_readHex (fun t hkind hfloat => by cases hkind.symm.trans hfloat) _ _ _ _
  · rw [hfloat] at hother
    exact absurd hother (by decide)

/-! ## Writing -/

/-- Exponents as they are taken in front of `after` are read up to it. -/
theorem takes_exponentRow {after : List Char} {mode : DecimalMode} {es : List Exponent}
    (hstop : EndsNumber after) (hnoSign : mode ≠ .sign) (hrow : RowBefore after es)
    (hne : mode = .whole → es ≠ []) : TakesBefore (· = after) mode (exponentRow es) true := by
  induction es generalizing mode with
  | nil =>
      have hfloat : mode ≠ .whole := fun hwhole => hne hwhole rfl
      have htaken : TakesBefore (· = after) mode [] (mode != .whole) := by
        refine takes_stop hnoSign fun rest hsame c hhead => ?_
        subst hsame
        obtain ⟨hnoDigit, hnoMark⟩ := hstop c hhead
        exact ⟨hnoDigit, fun hpoint => hfloat hpoint.2, hnoMark⟩
      rwa [bne_iff_ne.mpr hfloat] at htaken
  | cons e es ih =>
      obtain ⟨hrow', d, hhead, hdigit⟩ := (rowBefore_cons_iff hstop e es).mp hrow
      have hothers : TakesBefore (· = after) .float (exponentRow es) true := ih nofun hrow' nofun
      have hdigits := takes_digits e.isDigit_of_mem hothers
      rw [exponentRow_cons]
      cases hsign : e.sign with
      | none =>
          refine takes_mark hnoSign e.mark_eq (fun rest hsame => ?_) hdigits
          subst hsame
          exact exponentMode_eq_ok_iff.mpr (.inl ⟨rfl, d, by simpa using hhead, hdigit⟩)
      | some s =>
          have hplus := e.sign_eq s hsign
          refine takes_mark hnoSign e.mark_eq (fun rest hsame => ?_) (takes_sign hplus hdigits)
          subst hsame
          exact exponentMode_eq_ok_iff.mpr
            (.inr ⟨rfl, s, _, rfl, hplus, d, by simpa using hhead, hdigit⟩)

/-- Digits of a float numeral go on as it does. -/
theorem takes_numeral {x : FloatNumeral} {after ds : List Char} (hends : x.EndsBefore after)
    (hdigits : ∀ d ∈ ds, d.isDigit = true) :
    TakesBefore (· = after) .whole (ds ++ (pointed x.fraction ++ exponentRow x.exponents))
      true := by
  refine takes_digits hdigits ?_
  cases hfraction : x.fraction with
  | none =>
      have hne : x.exponents ≠ [] := x.isFloat.resolve_left (· hfraction)
      exact takes_exponentRow hends.stop nofun hends.row fun _ => hne
  | some fs =>
      have hrow : TakesBefore (· = after) .float (exponentRow x.exponents) true :=
        takes_exponentRow hends.stop nofun hends.row nofun
      exact takes_point (takes_digits (x.isDigit_fraction fs hfraction) hrow)

/-- What goes on as a float does not make its first digit a hexadecimal marker. -/
theorem head_ne_marker_of_float {m : List Char → Prop} {cs rest : List Char}
    (h : TakesBefore m .whole cs true) (hrest : m rest) :
    ∀ c ∈ (cs ++ rest).head?, c ≠ 'x' ∧ c ≠ 'X' := by
  intro c hhead
  obtain ⟨q, hread⟩ := h {} rest hrest
  obtain ⟨more, hcons⟩ := List.head?_eq_some_iff.mp hhead
  rw [hcons] at hread
  constructor
  · rintro rfl
    simp [decimalBody] at hread
  · rintro rfl
    simp [decimalBody] at hread

theorem gives_numeral {x : FloatNumeral} {after : List Char} (hends : x.EndsBefore after)
    (o : Options) (p : Position) :
    Gives (step o ⟨p, x.spelled ++ after⟩) ⟨.floatDecimal, String.ofList x.spelled⟩ after := by
  obtain ⟨d, ds, hcons⟩ := List.exists_cons_of_ne_nil x.whole_ne_nil
  have hdigits : ∀ e ∈ d :: ds, e.isDigit = true := hcons ▸ x.isDigit_whole
  have htaken := takes_numeral hends fun e h => hdigits e (List.mem_cons_of_mem d h)
  have hspelled : x.spelled = d :: (ds ++ (pointed x.fraction ++ exponentRow x.exponents)) := by
    rw [FloatNumeral.spelled, hcons]
    rfl
  rw [hspelled, List.cons_append,
    step_digit p (hdigits d List.mem_cons_self) (head_ne_marker_of_float htaken rfl)]
  exact gives_readDecimal htaken rfl (p.step d)

/-! ## Runs -/

/-- A step that gives a token reads it from the first character. -/
theorem readToken_of_step {o : Options} {c : Char} {p : Position} {rest : List Char} {t : Token}
    {next : Scan} (h : step o ⟨p, c :: rest⟩ = .token t next) :
    readToken o c (p.step c) rest = .token t next := by
  simp only [step, dispatch] at h
  repeat' split at h
  all_goals first
    | exact h
    | cases h

/-- The token of a step stands for the characters that the step passes over. -/
theorem piece_of_step {o : Options} {c : Char} {p : Position} {rest : List Char} {t : Token}
    {next : Scan} (h : step o ⟨p, c :: rest⟩ = .token t next) :
    ∃ piece, rest = piece ++ next.rest ∧
      t.span.last.offset = p.offset + byteLength (c :: piece) ∧
      next.position.offset = t.span.last.offset ∧
      meaning t.kind (c :: piece) = some t.value.toList := by
  have hcut := cuts_readToken o c (p.step c) rest
  rw [readToken_of_step h] at hcut
  obtain ⟨piece, hsplit, -, hlast, hposition, hvalue⟩ := hcut
  refine ⟨piece, hsplit, ?_, hposition, hvalue⟩
  rw [hlast, offset_step, byteLength_cons]
  omega

/-- The place `p` is behind some characters of the text that a scan goes over, and its offset
is theirs as long as no byte order mark is passed over. -/
def Behind (s : Scan) (before : List Char) (p : Position) : Prop :=
  ∀ n, Ready n s → p.offset = s.position.offset + byteLength before

/-- Every token of a run is given by one step, at a place of the text. -/
theorem exists_step_of_mem {o : Options} {fuel : Nat} {s : Scan} {t : Token}
    (hlisted : t ∈ (runAux o fuel s).1) :
    ∃ before c rest p next, s.rest = before ++ c :: rest ∧ Behind s before p ∧
      step o ⟨p, c :: rest⟩ = .token t next := by
  induction fuel generalizing s with
  | zero => cases hlisted
  | succ fuel ih =>
      obtain ⟨p, rest⟩ := s
      cases rest with
      | nil => cases hlisted
      | cons c rest =>
          rcases step_cases o p c rest with
            ⟨-, hstop⟩ | ⟨-, hskip⟩ | ⟨⟨hmark, hfirst⟩, hskip⟩ | hcut
          · rw [runAux, hstop] at hlisted
            cases hlisted
          · rw [runAux_skip hskip] at hlisted
            obtain ⟨before, d, more, q, next, hsplit, hbehind, htaken⟩ := ih hlisted
            refine ⟨c :: before, d, more, q, next, congrArg (c :: ·) hsplit, ?_, htaken⟩
            intro n hready
            show q.offset = p.offset + byteLength (c :: before)
            rw [hbehind _ hready.afterBlank, offset_step, byteLength_cons]
            omega
          · rw [runAux_skip hskip] at hlisted
            obtain ⟨before, d, more, q, next, hsplit, -, htaken⟩ := ih hlisted
            refine ⟨c :: before, d, more, q, next, congrArg (c :: ·) hsplit, ?_, htaken⟩
            exact fun n hready => absurd hfirst (hready.not_first hmark)
          · cases htaken : step o ⟨p, c :: rest⟩ with
            | stop => exact (htaken ▸ hcut).elim
            | skip next => exact (htaken ▸ hcut).elim
            | fault f =>
                rw [runAux, htaken] at hlisted
                cases hlisted
            | token u next =>
                rw [runAux_token htaken] at hlisted
                rcases List.mem_cons.mp hlisted with rfl | hlater
                · exact ⟨[], c, rest, p, next, rfl, fun _ _ => by simp, htaken⟩
                · obtain ⟨piece, hrest, hlast, hposition, -⟩ := piece_of_step htaken
                  obtain ⟨before, d, more, q, next', hsplit, hbehind, hfound⟩ := ih hlater
                  refine ⟨c :: piece ++ before, d, more, q, next', by simp [hrest, hsplit], ?_,
                    hfound⟩
                  intro n hready
                  obtain ⟨m, hnext⟩ := hready.afterToken htaken
                  show q.offset = p.offset + byteLength (c :: piece ++ before)
                  rw [hbehind m hnext, hposition, hlast, byteLength_append]
                  omega

end Lexer

/-- A token stands in a text between what comes before it and what comes after it. Its offset
says so too, unless a byte order mark is passed over where columns have wrapped. -/
structure Token.StandsBetween (t : Token) (text before after : List Char) : Prop where
  split : text = before ++ (t.value.toList ++ after)
  last : EarlyMarks text → t.span.last.offset = byteLength (before ++ t.value.toList) - 1

/-- A float token of a text without byte order marks in front is a float numeral of it. -/
theorem float_of_mem_run {o : Options} {source : String} {t : Token}
    (hlisted : t ∈ (run o (Text.codePoints source)).1) (hkind : t.kind = .floatDecimal) :
    ∃ (x : FloatNumeral) (before after : List Char), t.value.toList = x.spelled ∧
      t.StandsBetween (source.toList.dropWhile (· == Text.byteOrderMark)) before after ∧
      x.EndsBefore after := by
  rw [run, runAux_marks, dropWhile_codePoints] at hlisted
  obtain ⟨before, c, rest, p, next, hsplit, hbehind, htaken⟩ := exists_step_of_mem hlisted
  have hfloat := floatAt_readToken o c (p.step c) rest
  rw [readToken_of_step htaken] at hfloat
  obtain ⟨x, after, hvalue, hcons, hends⟩ := hfloat hkind
  obtain ⟨piece, -, hlast, -, hmeant⟩ := piece_of_step htaken
  rw [hkind] at hmeant
  have hpiece : c :: piece = t.value.toList := by simpa [meaning] using hmeant
  refine ⟨x, before, after, hvalue, ⟨?_, fun hmarks => ?_⟩, hends⟩
  · rw [hvalue, ← hcons]
    exact hsplit
  · rw [hlast, hbehind 0 (.start hmarks), hpiece, byteLength_append]
    show -1 + byteLength before + byteLength t.value.toList = _
    omega

/-- The float tokens are the float numerals that end where they stand. Each float token of
a text is such a numeral, and it is legal exactly if it has at most one exponent and this one
has digits. And each such numeral in front of a text is the first token. -/
theorem lex_floats (o : Options) (uri : String) (r : Reporter) :
    (∀ source : String, ∀ t ∈ (lex o uri source r).1, t.kind = .floatDecimal →
      ∃ (x : FloatNumeral) (before after : List Char), t.value.toList = x.spelled ∧
        t.StandsBetween (source.toList.dropWhile (· == Text.byteOrderMark)) before after ∧
        x.EndsBefore after ∧
        (legalFloat t.value.toList = true ↔
          x.exponents.length ≤ 1 ∧ ∀ e ∈ x.exponents, e.digits ≠ [])) ∧
    ∀ (x : FloatNumeral) (after : List Char), x.EndsBefore after →
      ∃ t ts, (lex o uri (String.ofList (x.spelled ++ after)) r).1 = t :: ts ∧
        t.face = ⟨.floatDecimal, String.ofList x.spelled⟩ := by
  constructor
  · intro source t hlisted hkind
    rw [fst_lex] at hlisted
    obtain ⟨x, before, after, hvalue, hstands, hends⟩ := float_of_mem_run hlisted hkind
    rw [hvalue]
    exact ⟨x, before, after, rfl, hstands, hends, legalFloat_spelled_iff x⟩
  · intro x after hends
    obtain ⟨t, q, htaken, hface⟩ := gives_numeral hends o Position.start
    refine ⟨t, (runAux o (x.spelled ++ after).length ⟨q, after⟩).1, ?_, hface⟩
    rw [fst_lex, run, codePoints_ofList (x.head_spelled_ne_mark after), runAux_token htaken]

/-- Two exponents, the second one without digits. -/
def openNumeral : FloatNumeral where
  whole := ['2']
  fraction := none
  exponents := [⟨'e', none, ['5'], .inl rfl, nofun, List.forall_mem_singleton.mpr rfl⟩,
    ⟨'E', some '+', [], .inr rfl, fun _ h => .inl (Option.some.inj h).symm, nofun⟩]
  whole_ne_nil := nofun
  isDigit_whole := List.forall_mem_singleton.mpr rfl
  isDigit_fraction := nofun
  isFloat := .inr nofun

theorem lex_floats_openNumeral :
    (∃ t ∈ (lex ⟨false⟩ "" "1.5e-3 2e5E+\u0663" {}).1,
      t.value = "1.5e-3" ∧ t.kind = .floatDecimal ∧
      ∃ (x : FloatNumeral) (before after : List Char), t.value.toList = x.spelled ∧
        t.StandsBetween ("1.5e-3 2e5E+\u0663".toList.dropWhile (· == Text.byteOrderMark))
          before after ∧
        x.EndsBefore after ∧
        (legalFloat t.value.toList = true ↔
          x.exponents.length ≤ 1 ∧ ∀ e ∈ x.exponents, e.digits ≠ [])) ∧
    openNumeral.EndsBefore ['\u0663'] ∧
    ∃ t ts, (lex ⟨false⟩ "" (String.ofList (openNumeral.spelled ++ ['\u0663'])) {}).1 = t :: ts ∧
      t.face = ⟨.floatDecimal, String.ofList openNumeral.spelled⟩ := by
  obtain ⟨hnumerals, htokens⟩ := lex_floats ⟨false⟩ "" {}
  have hfound : ∃ t ∈ (lex ⟨false⟩ "" "1.5e-3 2e5E+\u0663" {}).1,
      t.value = "1.5e-3" ∧ t.kind = .floatDecimal := by decide +kernel
  obtain ⟨t, hlisted, hvalue, hkind⟩ := hfound
  have hends : openNumeral.EndsBefore ['\u0663'] := by
    refine ⟨⟨nofun, fun _ => ⟨rfl, '\u0663', rfl, by decide +kernel⟩, trivial⟩, ?_⟩
    intro c hhead
    obtain rfl : '\u0663' = c := by simpa using hhead
    decide
  exact ⟨⟨t, hlisted, hvalue, hkind, hnumerals _ t hlisted hkind⟩, hends,
    htokens openNumeral _ hends⟩

/-- A second exponent is taken, and an exponent without digits in front of a digit of another
script. -/
theorem floats_malformed :
    ((lex ⟨false⟩ "" "1e2e3" {}).1.map Token.face = [⟨.floatDecimal, "1e2e3"⟩] ∧
      legalFloat "1e2e3".toList = false) ∧
    (lex ⟨false⟩ "" "1e\u0663" {}).1.map Token.face =
        [⟨.floatDecimal, "1e"⟩, ⟨.unknown, "\u0663"⟩] ∧
      legalFloat "1e".toList = false := by
  decide +kernel

end Source
end ClientGen
