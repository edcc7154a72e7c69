import ClientGen.Proofs.Source.Coverage
import Mathlib.Algebra.Ring.Nat
import Mathlib.Data.List.DropRight

/-! # Walking over a text

A walk goes over characters and starts a new line at each line break. Comments and
line break tokens keep to this. A text literal does not: of the line breaks inside it
only the line feeds that no backslash escapes start a new line.
-/

namespace ClientGen
namespace Source

open Lexer

/-! ## Walking over characters -/

/-- How many line breaks some characters hold. A carriage return and a line feed
after it are one. -/
def lineBreaks : List Char → Nat
  | '\r' :: '\n' :: cs => lineBreaks cs + 1
  | c :: cs => lineBreaks cs + if isBreak c then 1 else 0
  | [] => 0

def lastLine (cs : List Char) : List Char := cs.rtakeWhile fun c => !isBreak c

/-- The position after some characters when each line break starts a new line. -/
def Position.walk (p : Position) : List Char → Position
  | '\r' :: '\n' :: cs => Position.walk ((p.step '\r').step '\n').newLine cs
  | c :: cs => Position.walk (if isBreak c then (p.step c).newLine else p.step c) cs
  | [] => p

/-! ### Places in 32 bits -/

/-- A line number moves on by one line and then by more. -/
theorem line_succ (line : Int32) (n : Nat) :
    line + .ofNat (n + 1) = line + 1 + .ofNat n := by
  rw [Nat.add_comm, Int32.ofNat_add, Int32.add_assoc]
  rfl

/-- A place that is reached after `n` characters: no more lines and columns lie behind it
than characters, and some do if there are any. -/
def Reached (n : Nat) (p : Position) : Prop :=
  ∃ line column : Nat, p.line = .ofNat (1 + line) ∧ p.column = .ofNat column ∧
    line + column ≤ n ∧ (0 < n → 0 < line + column)

theorem reached_start : Reached 0 Position.start := ⟨0, 0, rfl, rfl, Nat.le_refl 0, nofun⟩

theorem Reached.step {n : Nat} {p : Position} (h : Reached n p) (c : Char) :
    Reached (n + 1) (p.step c) := by
  obtain ⟨line, column, hline, hcolumn, hle, -⟩ := h
  refine ⟨line, column + 1, hline, ?_, by omega, by omega⟩
  rw [Int32.ofNat_add, ← hcolumn]
  rfl

/-- A line break takes one character and starts one line. -/
theorem Reached.stepLine {n : Nat} {p : Position} (h : Reached n p) (c : Char) :
    Reached (n + 1) (p.step c).newLine := by
  obtain ⟨line, column, hline, -, hle, -⟩ := h
  refine ⟨line + 1, 0, ?_, rfl, by omega, by omega⟩
  rw [← Nat.add_assoc, Int32.ofNat_add, ← hline]
  rfl

theorem Reached.cons {n : Nat} {p : Position} {cs : List Char} (h : Reached (n + 1 + cs.length) p)
    (c : Char) : Reached (n + (c :: cs).length) p := by
  rwa [Nat.add_assoc, Nat.add_comm 1] at h

theorem eq_zero_of_ofNat_succ {n : Nat} (hn : n < 2 ^ 32) (h : Int32.ofNat (1 + n) = 1) :
    n = 0 := by
  have hbits := congrArg (·.toBitVec.toNat) h
  simp at hbits
  omega

/-- Behind the first of `2 ^ 32` characters none stands at the first place again. -/
theorem Reached.not_first {n : Nat} {p : Position} (h : Reached n p) (hpos : 0 < n)
    (hn : n < 2 ^ 32) (c : Char) : ¬((p.step c).line = 1 ∧ (p.step c).column = 1) := by
  obtain ⟨line, column, hline, hcolumn, hle, hsome⟩ := h
  rintro ⟨hfirst, hleft⟩
  have hzero : line = 0 := eq_zero_of_ofNat_succ (by omega) (hline.symm.trans hfirst)
  have hnone : column = 0 := by
    refine eq_zero_of_ofNat_succ (by omega) ?_
    rw [Nat.add_comm, Int32.ofNat_add, ← hcolumn]
    exact hleft
  have := hsome hpos
  omega

/-! ### Lines and columns of a walk -/

theorem lineBreaks_pair (cs : List Char) :
    lineBreaks ('\r' :: '\n' :: cs) = lineBreaks cs + 1 := rfl

theorem lineBreaks_single {c : Char} {cs : List Char}
    (hpair : ∀ tail, c = '\r' → cs = '\n' :: tail → False) :
    lineBreaks (c :: cs) = lineBreaks cs + if isBreak c then 1 else 0 :=
  lineBreaks.eq_2 c cs hpair

theorem walk_pair (p : Position) (cs : List Char) :
    p.walk ('\r' :: '\n' :: cs) = ((p.step '\r').step '\n').newLine.walk cs := rfl

theorem walk_single (p : Position) {c : Char} {cs : List Char}
    (hpair : ∀ tail, c = '\r' → cs = '\n' :: tail → False) :
    p.walk (c :: cs) = (if isBreak c then (p.step c).newLine else p.step c).walk cs :=
  Position.walk.eq_2 p c cs hpair

theorem line_walk (p : Position) (cs : List Char) :
    (p.walk cs).line = p.line + .ofNat (lineBreaks cs) := by
  fun_induction Position.walk p cs with
  | case1 p cs ih =>
      rw [ih, lineBreaks_pair, line_succ]
      rfl
  | case2 p c cs hpair ih =>
      rw [ih, lineBreaks_single hpair]
      by_cases hc : isBreak c = true
      · rw [if_pos hc, if_pos hc, line_succ]
        rfl
      · rw [if_neg hc, if_neg hc]
        rfl
  | case3 p => exact (Int32.add_zero p.line).symm

theorem reached_walk {n : Nat} {p : Position} (h : Reached n p) (cs : List Char) :
    Reached (n + cs.length) (p.walk cs) := by
  fun_induction Position.walk p cs generalizing n with
  | case1 p cs ih =>
      exact ((ih ((h.step '\r').stepLine '\n')).cons '\n').cons '\r'
  | case2 p c cs hpair ih =>
      have hnext : Reached (n + 1) (if isBreak c then (p.step c).newLine else p.step c) := by
        split
        · exact h.stepLine c
        · exact h.step c
      exact (ih hnext).cons c
  | case3 p => exact h

theorem offset_walk (p : Position) (cs : List Char) :
    (p.walk cs).offset = p.offset + byteLength cs := by
  fun_induction Position.walk p cs with
  | case1 p cs ih =>
      rw [ih]
      simp only [offset_newLine, offset_step, byteLength_cons]
      omega
  | case2 p c cs hpair ih =>
      have hstep : (if isBreak c = true then (p.step c).newLine else p.step c).offset =
          p.offset + c.utf8Size := by
        split <;> rfl
      rw [ih, hstep, byteLength_cons]
      omega
  | case3 p => simp

/-- Characters without a line break are one line. -/
theorem lastLine_eq_self {cs : List Char} (h : cs.any isBreak = false) : lastLine cs = cs := by
  simp only [List.any_eq_false, Bool.not_eq_true] at h
  apply List.rtakeWhile_eq_self_iff.mpr
  intro c hc
  rw [h c hc]
  rfl

/-- What stands before a line break is on another line. -/
theorem lastLine_cons_of_any {cs : List Char} (h : cs.any isBreak = true) (c : Char) :
    lastLine (c :: cs) = lastLine cs := by
  have hshort : ¬ (cs.reverse.takeWhile fun c => !isBreak c).length = cs.reverse.length := by
    intro hlength
    have hwhole := (List.takeWhile_prefix fun c => !isBreak c).eq_of_length hlength
    obtain ⟨b, hb, hbreak⟩ := List.any_eq_true.mp h
    have hkept := List.takeWhile_eq_self_iff.mp hwhole b (List.mem_reverse.mpr hb)
    simp [hbreak] at hkept
  simp only [lastLine, List.rtakeWhile, List.reverse_cons, List.takeWhile_append, if_neg hshort]

/-- A line starts after its line break. -/
theorem lastLine_cons_break {c : Char} (hc : isBreak c = true) {cs : List Char}
    (h : cs.any isBreak = false) : lastLine (c :: cs) = cs := by
  simp only [List.any_eq_false, Bool.not_eq_true] at h
  have hline : ∀ d ∈ cs.reverse, (!isBreak d) = true := by
    intro d hd
    rw [h d (List.mem_reverse.mp hd)]
    rfl
  simp [lastLine, List.rtakeWhile, List.takeWhile_append_of_pos hline, hc]

theorem column_walk (p : Position) (cs : List Char) :
    (p.walk cs).column = .ofNat (lastLine cs).length + if cs.any isBreak then 0 else p.column := by
  fun_induction Position.walk p cs with
  | case1 p cs ih =>
      rw [ih]
      cases hany : cs.any isBreak with
      | true =>
          have hmore : ('\n' :: cs).any isBreak = true := by simp [hany]
          rw [lastLine_cons_of_any hmore, lastLine_cons_of_any hany]
          simp [isBreak]
      | false =>
          rw [lastLine_cons_of_any (by rfl), lastLine_cons_break rfl hany, lastLine_eq_self hany]
          simp [isBreak, Position.newLine]
  | case2 p c cs hpair ih =>
      rw [ih]
      cases hany : cs.any isBreak with
      | true =>
          rw [lastLine_cons_of_any hany]
          simp [hany]
      | false =>
          rw [lastLine_eq_self hany]
          by_cases hc : isBreak c = true
          · rw [lastLine_cons_break hc hany]
            simp [hc, Position.newLine]
          · have hline : (c :: cs).any isBreak = false := by simp [hc, hany]
            rw [lastLine_eq_self hline]
            simp only [hline, hc, Position.step, List.length_cons]
            simp only [Int32.ofNat_add, Int32.add_assoc, Int32.add_comm p.column]
            rfl
  | case3 p => simp [lastLine]

/-- Two pieces of a text that do not cut through one line break. -/
def Joins (cs ds : List Char) : Prop := cs.getLast? = some '\r' → ds.head? ≠ some '\n'

theorem Joins.of_cons {c : Char} {cs ds : List Char} (h : Joins (c :: cs) ds) : Joins cs ds := by
  intro hlast
  apply h
  rw [List.getLast?_cons, hlast]
  rfl

/-- What follows does not make a line break alone the first half of a pair. -/
theorem Joins.single {c : Char} {cs ds : List Char} (h : Joins (c :: cs) ds)
    (hpair : ∀ tail, c = '\r' → cs = '\n' :: tail → False) :
    ∀ tail, c = '\r' → cs ++ ds = '\n' :: tail → False := by
  intro tail hc htail
  cases cs with
  | nil =>
      subst hc
      exact h rfl (by rw [List.nil_append] at htail; rw [htail]; rfl)
  | cons d cs =>
      rw [List.cons_append, List.cons.injEq] at htail
      exact hpair cs hc (by rw [htail.1])

theorem walk_append (p : Position) {cs ds : List Char} (h : Joins cs ds) :
    p.walk (cs ++ ds) = (p.walk cs).walk ds := by
  fun_induction Position.walk p cs with
  | case1 p cs ih =>
      rw [List.cons_append, List.cons_append, walk_pair]
      exact ih h.of_cons.of_cons
  | case2 p c cs hpair ih =>
      rw [List.cons_append, walk_single p (h.single hpair)]
      exact ih h.of_cons
  | case3 p => rfl

theorem lineBreaks_append {cs ds : List Char} (h : Joins cs ds) :
    lineBreaks (cs ++ ds) = lineBreaks cs + lineBreaks ds := by
  fun_induction lineBreaks cs with
  | case1 cs ih =>
      rw [List.cons_append, List.cons_append, lineBreaks_pair, ih h.of_cons.of_cons]
      omega
  | case2 c cs hpair ih =>
      rw [List.cons_append, lineBreaks_single (h.single hpair), ih h.of_cons]
      omega
  | case3 => exact (Nat.zero_add _).symm

theorem lineBreaks_feed (cs : List Char) : lineBreaks ('\n' :: cs) = lineBreaks cs + 1 :=
  lineBreaks_single fun _ h => absurd h (by decide)

theorem walk_feed (p : Position) (cs : List Char) :
    p.walk ('\n' :: cs) = (p.step '\n').newLine.walk cs :=
  walk_single p fun _ h => absurd h (by decide)

theorem walk_cons {c : Char} (hc : isBreak c = false) (p : Position) (cs : List Char) :
    p.walk (c :: cs) = (p.step c).walk cs := by
  have hpair : ∀ tail, c = '\r' → cs = '\n' :: tail → False := by
    rintro tail rfl
    cases hc
  rw [walk_single p hpair, hc]
  rfl

/-- Without a line break the place moves along its line. -/
theorem walk_of_line {cs : List Char} (h : cs.any isBreak = false) (p : Position) :
    p.walk cs = p.stepAll cs := by
  induction cs generalizing p with
  | nil => rfl
  | cons c cs ih =>
      rw [List.any_cons, Bool.or_eq_false_iff] at h
      rw [walk_cons h.1, ih h.2]
      rfl

theorem lineBreaks_le_length (cs : List Char) : lineBreaks cs ≤ cs.length := by
  fun_induction lineBreaks cs with
  | case1 cs ih =>
      simp only [List.length_cons]
      omega
  | case2 c cs hpair ih =>
      rw [List.length_cons]
      split <;> omega
  | case3 => exact Nat.le_refl 0

theorem lineBreaks_le_cons (c : Char) (cs : List Char) : lineBreaks cs ≤ lineBreaks (c :: cs) := by
  by_cases hpair : c = '\r' ∧ ∃ tail, cs = '\n' :: tail
  · obtain ⟨rfl, tail, rfl⟩ := hpair
    rw [lineBreaks_pair, lineBreaks_feed]
  · rw [lineBreaks_single fun tail hc htail => hpair ⟨hc, tail, htail⟩]
    exact Nat.le_add_right _ _

/-- A character that adds no line break moves the place along its line, even a
carriage return whose line feed is still to come. -/
theorem walk_cons_of_lineBreaks {c : Char} {cs : List Char}
    (h : lineBreaks (c :: cs) = lineBreaks cs) (p : Position) :
    p.walk (c :: cs) = (p.step c).walk cs := by
  by_cases hpair : c = '\r' ∧ ∃ tail, cs = '\n' :: tail
  · obtain ⟨rfl, tail, rfl⟩ := hpair
    rw [walk_pair, walk_feed]
  · have hplain : ∀ tail, c = '\r' → cs = '\n' :: tail → False :=
      fun tail hc htail => hpair ⟨hc, tail, htail⟩
    rw [lineBreaks_single hplain] at h
    have hc : isBreak c = false := by
      cases hc : isBreak c with
      | false => rfl
      | true => simp [hc] at h
    exact walk_cons hc p cs

/-! ## Moving over one token -/

/-- How many line feeds of a text literal no backslash escapes. -/
def lineFeeds : List Char → Nat
  | '\\' :: _ :: cs => lineFeeds cs
  | c :: cs => lineFeeds cs + if c = '\n' then 1 else 0
  | [] => 0

/-- How many line breaks of a token start a new line. -/
def startedLines (kind : TokenKind) (piece : List Char) : Nat :=
  if kind = .text then lineFeeds piece else lineBreaks piece

theorem lineFeeds_plain {c : Char} (hc : c ≠ '\\') (cs : List Char) :
    lineFeeds (c :: cs) = lineFeeds cs + if c = '\n' then 1 else 0 := by
  rw [lineFeeds]
  exact fun d ds h _ => hc h

/-- Every line feed of a text literal is a line break. -/
theorem lineFeeds_le (cs : List Char) : lineFeeds cs ≤ lineBreaks cs := by
  fun_induction lineFeeds cs with
  | case1 c cs ih =>
      have hinner := lineBreaks_le_cons c cs
      have houter := lineBreaks_le_cons '\\' (c :: cs)
      omega
  | case2 c cs hescape ih =>
      by_cases hc : c = '\n'
      · rw [if_pos hc, hc, lineBreaks_feed]
        omega
      · have hcons := lineBreaks_le_cons c cs
        rw [if_neg hc]
        omega
  | case3 => exact Nat.le_refl _

/-- The lexer moves from `p` over the characters of a token to `q`: by their bytes
and by the lines that start in them, and to the place that a walk reaches if all
of their line breaks start a line. -/
structure Passes (kind : TokenKind) (piece : List Char) (p q : Position) : Prop where
  offset : q.offset = p.offset + byteLength piece
  line : q.line = p.line + .ofNat (startedLines kind piece)
  reached : ∀ {n}, Reached n p → Reached (n + piece.length) q
  place : startedLines kind piece = lineBreaks piece → q = p.walk piece

theorem passes_walk (kind : TokenKind) (hkind : kind ≠ .text) (piece : List Char) (p : Position) :
    Passes kind piece p (p.walk piece) where
  offset := offset_walk p piece
  line := by rw [line_walk, startedLines, if_neg hkind]
  reached := fun h => reached_walk h piece
  place := fun _ => rfl

theorem passes_text_nil (p : Position) : Passes .text [] p p where
  offset := by simp
  line := (Int32.add_zero p.line).symm
  reached := id
  place := fun _ => rfl

/-- An escape moves along the line, whatever it escapes. -/
theorem Passes.escape {c : Char} {cs : List Char} {p q : Position}
    (h : Passes .text cs ((p.step '\\').step c) q) : Passes .text ('\\' :: c :: cs) p q where
  offset := by
    rw [h.offset]
    simp only [offset_step, byteLength_cons]
    omega
  line := h.line
  reached := fun hp => ((h.reached ((hp.step '\\').step c)).cons c).cons '\\'
  place := by
    intro hall
    have hall : lineFeeds cs = lineBreaks ('\\' :: c :: cs) := hall
    have hfeeds := lineFeeds_le cs
    have hinner := lineBreaks_le_cons c cs
    have houter := lineBreaks_le_cons '\\' (c :: cs)
    have hplace := h.place (show lineFeeds cs = lineBreaks cs by omega)
    rw [walk_cons_of_lineBreaks (by omega), walk_cons_of_lineBreaks (by omega), hplace]

/-- Outside an escape a line feed starts a new line and nothing else does. -/
theorem Passes.plain {c : Char} (hc : c ≠ '\\') {cs : List Char} {p q : Position}
    (h : Passes .text cs (if c = '\n' then (p.step c).newLine else p.step c) q) :
    Passes .text (c :: cs) p q := by
  have hfeeds := lineFeeds_plain hc cs
  by_cases hfeed : c = '\n'
  · subst hfeed
    rw [if_pos rfl] at h hfeeds
    constructor
    · rw [h.offset, offset_newLine, offset_step, byteLength_cons]
      omega
    · have hline : q.line = p.line + 1 + .ofNat (lineFeeds cs) := h.line
      simp only [startedLines, if_true, hfeeds]
      rw [hline, line_succ]
    · exact fun hp => (h.reached (hp.stepLine '\n')).cons '\n'
    · intro hall
      have hall : lineFeeds ('\n' :: cs) = lineBreaks ('\n' :: cs) := hall
      rw [hfeeds, lineBreaks_feed] at hall
      rw [walk_feed]
      exact h.place (show lineFeeds cs = lineBreaks cs by omega)
  · rw [if_neg hfeed] at h hfeeds
    constructor
    · rw [h.offset, offset_step, byteLength_cons]
      omega
    · have hline : q.line = p.line + .ofNat (lineFeeds cs) := h.line
      simp only [startedLines, if_true, hfeeds, Nat.add_zero]
      exact hline
    · exact fun hp => (h.reached (hp.step c)).cons c
    · intro hall
      have hall : lineFeeds (c :: cs) = lineBreaks (c :: cs) := hall
      have hle := lineFeeds_le cs
      have hcons := lineBreaks_le_cons c cs
      rw [walk_cons_of_lineBreaks (by omega)]
      exact h.place (show lineFeeds cs = lineBreaks cs by omega)

/-! ## Readers -/

/-- A step moves over a token of which the characters `before` are consumed, from
the position in front of it, and stops between two line breaks. -/
def Walks (before : List Char) (p : Position) (rest : List Char) : Step → Prop
  | .token t next =>
    ∃ taken, rest = taken ++ next.rest ∧ Passes t.kind (before ++ taken) p next.position ∧
      Joins (before ++ taken) next.rest
  | _ => True

section Walks

variable {before taken rest left : List Char} {p q first : Position}

theorem joins_of_line {cs : List Char} (h : cs.any isBreak = false) (ds : List Char) :
    Joins cs ds := by
  intro hlast
  have hmem := List.mem_of_getLast? hlast
  rw [List.any_eq_false] at h
  exact absurd rfl (h _ hmem)

theorem joins_of_last {c : Char} (hc : c ≠ '\r') (cs ds : List Char) : Joins (cs ++ [c]) ds := by
  intro hlast
  rw [List.getLast?_concat, Option.some.injEq] at hlast
  exact absurd hlast hc

/-- A condition that neither line break meets holds of no line break. -/
theorem isBreak_eq_false {f : Char → Bool} (hfeed : f '\n' = false) (hreturn : f '\r' = false)
    {c : Char} (hc : f c = true) : isBreak c = false := by
  have hnotFeed : c ≠ '\n' := by
    rintro rfl
    rw [hfeed] at hc
    cases hc
  have hnotReturn : c ≠ '\r' := by
    rintro rfl
    rw [hreturn] at hc
    cases hc
  simp [isBreak, hnotFeed, hnotReturn]

theorem any_takeWhile_isBreak {f : Char → Bool} (hf : ∀ c, f c = true → isBreak c = false)
    (cs : List Char) : (cs.takeWhile f).any isBreak = false := by
  rw [List.any_eq_false]
  intro c hc
  rw [hf c (List.mem_takeWhile_imp hc)]
  exact Bool.false_ne_true

theorem stepAll_append (p : Position) (cs ds : List Char) :
    p.stepAll (cs ++ ds) = (p.stepAll cs).stepAll ds := List.foldl_append

theorem walks_finish {kind : TokenKind} {value : List Char} (hkind : kind ≠ .text)
    (hrest : rest = taken ++ left) (hbefore : before.any isBreak = false)
    (htaken : taken.any isBreak = false) :
    Walks before p rest (finish kind value first (p.stepAll before) taken left) := by
  have hline : (before ++ taken).any isBreak = false := by
    rw [List.any_append, hbefore, htaken]
    rfl
  refine ⟨taken, hrest, ?_, joins_of_line hline left⟩
  have hpass := passes_walk kind hkind (before ++ taken) p
  rwa [walk_of_line hline, stepAll_append] at hpass

theorem walks_readIdentifier {c : Char} (hc : isBreak c = false) (p : Position) (rest : List Char) :
    Walks [c] p rest (readIdentifier c (p.step c) rest) :=
  walks_finish (by decide) List.takeWhile_append_dropWhile.symm (by simp [hc])
    (any_takeWhile_isBreak (fun _ => isBreak_eq_false (by decide) (by decide)) rest)

theorem walks_readLineComment (before : List Char) (hbefore : before.any isBreak = false)
    (p : Position) (rest : List Char) :
    Walks before p rest (readLineComment first (p.stepAll before) rest) :=
  walks_finish (by decide) List.takeWhile_append_dropWhile.symm hbefore
    (any_takeWhile_isBreak (fun _ hc => by simpa using hc) rest)

theorem walks_readHex {marker : Char} (hmarker : isBreak marker = false) (p : Position)
    (rest : List Char) :
    Walks ['0', marker] p rest (readHex first (p.stepAll ['0', marker]) marker rest) := by
  unfold readHex
  by_cases hempty : (rest.takeWhile isHexDigit).isEmpty = true
  · rw [if_pos hempty]
    trivial
  · rw [if_neg hempty]
    exact walks_finish (by decide) List.takeWhile_append_dropWhile.symm
      (by rw [List.any_cons, List.any_cons, hmarker]; rfl)
      (any_takeWhile_isBreak (fun _ => isBreak_eq_false (by decide) (by decide)) rest)

theorem walks_single (kind : TokenKind) {c : Char} (hkind : kind ≠ .text)
    (hc : isBreak c = false) (p : Position) (rest : List Char) :
    Walks [c] p rest (single kind c (p.step c) rest) :=
  walks_finish hkind rfl (by simp [hc]) rfl

theorem walks_feed (p : Position) (rest : List Char) :
    Walks ['\n'] p rest (lineBreak ['\n'] (p.step '\n') (p.step '\n') rest) := by
  exact ⟨[], rfl, passes_walk .newline nofun ['\n'] p, joins_of_last (by decide) [] rest⟩

/-- A carriage return takes the line feed after it along. -/
theorem walks_readReturn (p : Position) (rest : List Char) :
    Walks ['\r'] p rest (readReturn (p.step '\r') rest) := by
  unfold readReturn
  split
  · rename_i more
    exact ⟨['\n'], rfl, passes_walk .newline nofun ['\r', '\n'] p,
      joins_of_last (by decide) ['\r'] more⟩
  · rename_i hpair
    refine ⟨[], rfl, passes_walk .newline nofun ['\r'] p, ?_⟩
    intro _ hhead
    obtain ⟨more, hmore⟩ := List.head?_eq_some_iff.mp hhead
    exact hpair more hmore

/-- A block comment is passed over to where a walk ends. -/
theorem blockBody_walk {p q : Position} {rest body left : List Char}
    (h : blockBody p rest = .ok (body, q, left)) :
    rest = body ++ '*' :: '/' :: left ∧ q = p.walk (body ++ ['*', '/']) := by
  fun_induction blockBody p rest generalizing body with
  | case1 p => exact absurd h (by simp)
  | case2 p rest =>
      simp only [Except.ok.injEq, Prod.mk.injEq] at h
      obtain ⟨rfl, rfl, rfl⟩ := h
      exact ⟨rfl, rfl⟩
  | case3 p rest ih =>
      obtain ⟨⟨body', q', left'⟩, hrest, hok⟩ := ok_of_bind h
      simp only [pure, Except.pure, Except.ok.injEq, Prod.mk.injEq] at hok
      obtain ⟨rfl, rfl, rfl⟩ := hok
      obtain ⟨hsplit, hwalk⟩ := ih hrest
      refine ⟨by simp [hsplit], ?_⟩
      rw [hwalk, List.cons_append, List.cons_append, walk_pair]
  | case4 p c rest hclose hbreak here =>
      rename_i ih
      obtain ⟨⟨body', q', left'⟩, hrest, hok⟩ := ok_of_bind h
      simp only [pure, Except.pure, Except.ok.injEq, Prod.mk.injEq] at hok
      obtain ⟨rfl, rfl, rfl⟩ := hok
      obtain ⟨hsplit, hwalk⟩ := ih hrest
      refine ⟨by simp [hsplit], ?_⟩
      have hpair : ∀ tail, c = '\r' → body' ++ ['*', '/'] = '\n' :: tail → False := by
        intro tail hc htail
        -- A line feed at this place would stand at the front of what is left.
        cases body' with
        | nil => simp at htail
        | cons d body' =>
            rw [List.cons_append, List.cons.injEq] at htail
            exact hbreak (body' ++ '*' :: '/' :: left') hc
              (by rw [hsplit, htail.1, List.cons_append])
      rw [hwalk, List.cons_append, walk_single p hpair]

theorem walks_readBlockComment (p : Position) (rest : List Char) :
    Walks ['/', '*'] p rest (readBlockComment first (p.stepAll ['/', '*']) rest) := by
  unfold readBlockComment
  cases hbody : blockBody (p.stepAll ['/', '*']) rest with
  | error q => trivial
  | ok result =>
      obtain ⟨body, q, left⟩ := result
      obtain ⟨hrest, hwalk⟩ := blockBody_walk hbody
      have hopen : p.walk (['/', '*'] ++ (body ++ ['*', '/'])) = q := by
        rw [List.cons_append, List.cons_append, List.nil_append, walk_cons rfl, walk_cons rfl,
          hwalk]
        rfl
      refine ⟨body ++ ['*', '/'], by simp [hrest], ?_, ?_⟩
      · rw [← hopen]
        exact passes_walk .commentBlock nofun _ p
      · simpa using joins_of_last (c := '/') (by decide) (['/', '*'] ++ body ++ ['*']) left

/-- A text is passed over line feed by line feed. -/
theorem textBody_passes {quote : Char} (hquote : quote ≠ '\\' ∧ quote ≠ '\n') {p q : Position}
    {rest body left : List Char} (h : textBody quote p rest = .ok (body, q, left)) :
    ∃ raw, rest = raw ++ quote :: left ∧ Passes .text (raw ++ [quote]) p q := by
  fun_induction textBody quote p rest generalizing body with
  | case1 p => exact absurd h (by simp)
  | case2 p => exact absurd h (by simp)
  | case3 p c rest ih =>
      obtain ⟨⟨body', q', left'⟩, hrest, hok⟩ := ok_of_bind h
      simp only [pure, Except.pure, Except.ok.injEq, Prod.mk.injEq] at hok
      obtain ⟨rfl, rfl, rfl⟩ := hok
      obtain ⟨raw, hsplit, hpass⟩ := ih hrest
      exact ⟨'\\' :: c :: raw, by simp [hsplit], hpass.escape⟩
  | case4 p rest hlone hpair =>
      simp only [Except.ok.injEq, Prod.mk.injEq] at h
      obtain ⟨rfl, rfl, rfl⟩ := h
      refine ⟨[], rfl, Passes.plain hquote.1 ?_⟩
      rw [if_neg hquote.2]
      exact passes_text_nil _
  | case5 p c rest hlone hpair hother here =>
      rename_i ih
      obtain ⟨⟨body', q', left'⟩, hrest, hok⟩ := ok_of_bind h
      simp only [pure, Except.pure, Except.ok.injEq, Prod.mk.injEq] at hok
      obtain ⟨rfl, rfl, rfl⟩ := hok
      have hc : c ≠ '\\' := by
        intro hc
        cases rest with
        | nil => exact hlone hc rfl
        | cons d rest => exact hpair d rest hc rfl
      obtain ⟨raw, hsplit, hpass⟩ := ih hrest
      exact ⟨c :: raw, by simp [hsplit], hpass.plain hc⟩

theorem walks_readText {quote : Char} (hquote : quote = '"' ∨ quote = '\'') (p : Position)
    (rest : List Char) : Walks [quote] p rest (readText quote (p.step quote) rest) := by
  have hplain : quote ≠ '\\' ∧ quote ≠ '\n' ∧ quote ≠ '\r' := by
    rcases hquote with rfl | rfl <;> decide
  unfold readText
  cases hbody : textBody quote (p.step quote) rest with
  | error q => trivial
  | ok result =>
      obtain ⟨body, q, left⟩ := result
      obtain ⟨raw, hrest, hpass⟩ := textBody_passes ⟨hplain.1, hplain.2.1⟩ hbody
      refine ⟨raw ++ [quote], by simp [hrest], Passes.plain hplain.1 ?_,
        joins_of_last hplain.2.2 ([quote] ++ raw) left⟩
      rw [if_neg hplain.2.1]
      exact hpass

/-- What follows an exponent mark is a sign where a sign is announced. -/
theorem head_of_exponentMode {rest : List Char} (h : exponentMode rest = .ok .sign) :
    ∃ c ∈ rest.head?, c = '+' ∨ c = '-' := by
  cases rest with
  | nil => simp [exponentMode] at h
  | cons c more =>
      refine ⟨c, rfl, ?_⟩
      by_cases hc : c = '+' ∨ c = '-'
      · exact hc
      · simp only [exponentMode, if_neg hc] at h
        split at h <;> cases h

/-- A character of a number moves along the line, and so does the rest of the number. -/
theorem decimalBody_moved {mode : DecimalMode} {p q : Position} {c : Char}
    {rest body left : List Char} {isFloat : Bool} (hc : isBreak c = false)
    (hrest : ∀ {body : List Char}, decimalBody mode (p.step c) rest = .ok (body, isFloat, q, left) →
      rest = body ++ left ∧ q = (p.step c).stepAll body ∧ body.any isBreak = false)
    (h : (decimalBody mode (p.step c) rest >>= fun r => pure (c :: r.1, r.2.1, r.2.2.1, r.2.2.2)) =
      .ok (body, isFloat, q, left)) :
    c :: rest = body ++ left ∧ q = p.stepAll body ∧ body.any isBreak = false := by
  obtain ⟨⟨body', isFloat', q', left'⟩, hbody, hok⟩ := ok_of_bind h
  simp only [pure, Except.pure, Except.ok.injEq, Prod.mk.injEq] at hok
  obtain ⟨rfl, rfl, rfl, rfl⟩ := hok
  obtain ⟨hsplit, hlast, hline⟩ := hrest hbody
  refine ⟨by rw [hsplit, List.cons_append], hlast, ?_⟩
  rw [List.any_cons, hc, hline]
  rfl

/-- The characters of a number stand on one line. -/
theorem decimalBody_line {mode : DecimalMode} {p q : Position} {rest body left : List Char}
    {isFloat : Bool} (h : decimalBody mode p rest = .ok (body, isFloat, q, left))
    (hsign : mode = .sign → ∃ c ∈ rest.head?, c = '+' ∨ c = '-') :
    rest = body ++ left ∧ q = p.stepAll body ∧ body.any isBreak = false := by
  fun_induction decimalBody mode p rest generalizing body with
  | case1 mode p =>
      simp only [Except.ok.injEq, Prod.mk.injEq] at h
      obtain ⟨rfl, rfl, rfl, rfl⟩ := h
      exact ⟨rfl, rfl, rfl⟩
  | case2 mode p c rest hdigit ih =>
      have hbreak : isBreak c = false := isBreak_eq_false (f := Char.isDigit) rfl rfl hdigit
      refine decimalBody_moved hbreak (fun hok => ih hok fun hmode => ?_) h
      obtain ⟨d, hd, hd'⟩ := hsign hmode
      obtain rfl : c = d := by simpa using hd
      rcases hd' with rfl | rfl <;> cases hdigit
  | case3 mode p c rest hdigit hpoint ih =>
      refine decimalBody_moved ?_ (fun hok => ih hok fun hmode => by cases hmode) h
      rcases hpoint with hmode | ⟨rfl, -⟩
      · obtain ⟨d, hd, hd'⟩ := hsign hmode
        obtain rfl : c = d := by simpa using hd
        rcases hd' with rfl | rfl <;> rfl
      · rfl
  | case4 mode p c rest hdigit hpoint hmark sign hbad => exact absurd h (by simp)
  | case5 mode p c rest hdigit hpoint hmark next hnext ih =>
      refine decimalBody_moved ?_ (fun hok => ih hok fun hmode => ?_) h
      · rcases hmark with rfl | rfl <;> rfl
      · rw [hmode] at hnext
        exact head_of_exponentMode hnext
  | case6 mode p c rest hdigit hpoint hmark =>
      simp only [Except.ok.injEq, Prod.mk.injEq] at h
      obtain ⟨rfl, rfl, rfl, rfl⟩ := h
      exact ⟨rfl, rfl, rfl⟩

theorem walks_readDecimal {c : Char} (hc : isBreak c = false) (p : Position) (rest : List Char) :
    Walks [c] p rest (readDecimal c (p.step c) rest) := by
  unfold readDecimal
  cases hbody : decimalBody .whole (p.step c) rest with
  | error q => trivial
  | ok result =>
      obtain ⟨body, isFloat, q, left⟩ := result
      obtain ⟨hrest, hlast, hline⟩ := decimalBody_line hbody nofun
      subst hlast
      have hkind : (if isFloat then .floatDecimal else .integerDecimal) ≠ TokenKind.text := by
        cases isFloat <;> decide
      have hfinish : Walks [c] p rest (finish _ (c :: body) (p.step c) (p.stepAll [c]) body left) :=
        walks_finish hkind hrest (by simp [hc]) hline
      exact hfinish

theorem walks_cons {c d : Char} {s : Step} (h : Walks [c, d] p rest s) :
    Walks [c] p (d :: rest) s := by
  cases s with
  | token t next =>
      obtain ⟨taken, hrest, hpass, hjoin⟩ := h
      exact ⟨d :: taken, by rw [hrest, List.cons_append], hpass, hjoin⟩
  | skip next => trivial
  | stop => trivial
  | fault f => trivial

theorem walks_readZero (p : Position) (rest : List Char) :
    Walks ['0'] p rest (readZero (p.step '0') rest) := by
  cases rest with
  | nil => exact walks_readDecimal rfl p []
  | cons m more =>
      simp only [readZero]
      by_cases hm : m = 'x' ∨ m = 'X'
      · rw [if_pos hm]
        have hmarker : isBreak m = false := by
          rcases hm with rfl | rfl <;> rfl
        exact walks_cons (walks_readHex hmarker p more)
      · rw [if_neg hm]
        exact walks_readDecimal rfl p (m :: more)

theorem walks_readSlash (p : Position) (rest : List Char) :
    Walks ['/'] p rest (readSlash (p.step '/') rest) := by
  unfold readSlash
  split
  · exact walks_cons (walks_readLineComment ['/', '/'] rfl p _)
  · exact walks_cons (walks_readBlockComment p _)
  · exact walks_single .slash nofun rfl p rest

theorem ne_text_of_punctuation {c : Char} {kind : TokenKind}
    (h : TokenKind.ofPunctuation? c = some kind) : kind ≠ .text := by
  rintro rfl
  cases verbatim_of_punctuation h

theorem walks_readToken (o : Options) (c : Char) (p : Position) (rest : List Char) :
    Walks [c] p rest (readToken o c (p.step c) rest) := by
  unfold readToken
  by_cases hfeed : c = '\n'
  · subst hfeed
    exact walks_feed p rest
  rw [if_neg hfeed]
  by_cases hreturn : c = '\r'
  · subst hreturn
    exact walks_readReturn p rest
  rw [if_neg hreturn]
  have hc : isBreak c = false := by simp [isBreak, hfeed, hreturn]
  by_cases hzero : c = '0'
  · subst hzero
    exact walks_readZero p rest
  rw [if_neg hzero]
  by_cases hdigit : c.isDigit = true
  · rw [if_pos hdigit]
    exact walks_readDecimal hc p rest
  rw [if_neg hdigit]
  by_cases hquote : c = '"' ∨ c = '\''
  · rw [if_pos hquote]
    exact walks_readText hquote p rest
  rw [if_neg hquote]
  by_cases hhash : c = '#' ∧ o.hashComments = true
  · rw [if_pos hhash, hhash.1]
    exact walks_readLineComment ['#'] rfl p rest
  rw [if_neg hhash]
  by_cases hslash : c = '/'
  · subst hslash
    exact walks_readSlash p rest
  rw [if_neg hslash]
  split
  · rename_i kind hkind
    exact walks_single kind (ne_text_of_punctuation hkind) hc p rest
  · by_cases hstart : isIdentifierStart c = true
    · rw [if_pos hstart]
      exact walks_readIdentifier hc p rest
    · rw [if_neg hstart]
      exact walks_single .unknown nofun hc p rest

/-- A step that gives a token moves over it. -/
theorem walks_step (o : Options) (c : Char) (p : Position) (rest : List Char) :
    Walks [c] p rest (step o ⟨p, c :: rest⟩) := by
  simp only [step, dispatch]
  split
  · split <;> trivial
  · split
    · trivial
    · split
      · trivial
      · exact walks_readToken o c p rest

end Walks

end Source
end ClientGen
