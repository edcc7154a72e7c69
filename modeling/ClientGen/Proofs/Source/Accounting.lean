import ClientGen.Proofs.Source.Walking

/-! # Lexing loses and duplicates nothing

The tokens of a text and the blanks between them are laid side by side over it, up to
the place where the run stops. A byte order mark between tokens is a fault, except at the
first place. Lines and columns are counted in 32 bits, so behind `2 ^ 32` characters a
place may read as the first one once more; no mark may stand there (`EarlyMarks`).
-/

namespace ClientGen
namespace Source

open Lexer

/-! ## Byte order marks -/

/-- Every byte order mark stands among the first `2 ^ 32` characters. A later one may meet
a column that has wrapped, and is then passed over like one in front of the text. -/
def EarlyMarks (cs : List Char) : Prop :=
  ∀ i, cs[i]? = some Text.byteOrderMark → i < 2 ^ 32

theorem earlyMarks_of_length {cs : List Char} (h : cs.length ≤ 2 ^ 32) : EarlyMarks cs := by
  intro i hi
  obtain ⟨hlt, -⟩ := List.getElem?_eq_some_iff.mp hi
  omega

theorem earlyMarks_of_not_mem {cs : List Char} (h : Text.byteOrderMark ∉ cs) : EarlyMarks cs :=
  fun _ hi => absurd (List.mem_of_getElem? hi) h

/-- A scan after `n` characters from which no byte order mark is passed over. -/
structure Ready (n : Nat) (s : Scan) : Prop where
  reached : Reached n s.position
  early : ∀ i, s.rest[i]? = some Text.byteOrderMark → n + i < 2 ^ 32
  first : n = 0 → s.rest.head? ≠ some Text.byteOrderMark

namespace Ready

variable {n : Nat} {p q : Position} {c : Char} {taken rest : List Char}

/-- Without byte order marks in front a text is lexed from its first character. -/
theorem start {cs : List Char} (h : EarlyMarks (cs.dropWhile (· == Text.byteOrderMark))) :
    Ready 0 ⟨Position.start, cs.dropWhile (· == Text.byteOrderMark)⟩ where
  reached := reached_start
  early := fun i hi => by simpa using h i hi
  first := by
    intro _ hhead
    have hkept := List.head?_dropWhile_not (· == Text.byteOrderMark) cs
    simp [hhead] at hkept

/-- Behind what is taken nothing else is passed over. -/
theorem next (h : Ready n ⟨p, taken ++ rest⟩) (htaken : taken ≠ [])
    (hq : Reached (n + taken.length) q) : Ready (n + taken.length) ⟨q, rest⟩ where
  reached := hq
  early := by
    intro i hi
    have hbehind : (taken ++ rest)[taken.length + i]? = some Text.byteOrderMark := by
      rw [List.getElem?_append_right (Nat.le_add_right _ _), Nat.add_sub_cancel_left]
      exact hi
    rw [Nat.add_assoc]
    exact h.early _ hbehind
  first := by
    intro hnone
    exact absurd (List.eq_nil_of_length_eq_zero (Nat.eq_zero_of_add_eq_zero_left hnone)) htaken

theorem afterBlank (h : Ready n ⟨p, c :: rest⟩) : Ready (n + 1) ⟨p.step c, rest⟩ :=
  have hcons : Ready n ⟨p, [c] ++ rest⟩ := h
  hcons.next nofun (h.reached.step c)

theorem afterToken {o : Options} {t : Token} {next : Scan} (h : Ready n ⟨p, c :: rest⟩)
    (htaken : step o ⟨p, c :: rest⟩ = .token t next) : ∃ m, Ready m next := by
  have hwalk := walks_step o c p rest
  rw [htaken] at hwalk
  obtain ⟨taken, hrest, hpass, -⟩ := hwalk
  have hcons : Ready n ⟨p, c :: taken ++ next.rest⟩ := by rwa [hrest] at h
  exact ⟨_, hcons.next nofun (hpass.reached h.reached)⟩

theorem not_first (h : Ready n ⟨p, c :: rest⟩) (hmark : c = Text.byteOrderMark) :
    ¬((p.step c).line = 1 ∧ (p.step c).column = 1) := by
  have hpos : 0 < n := Nat.pos_of_ne_zero fun hzero => h.first hzero (congrArg some hmark)
  exact h.reached.not_first hpos (h.early 0 (congrArg some hmark)) c

end Ready

/-- Byte order marks in front of a text leave no trace. -/
theorem runAux_marks (o : Options) (cs : List Char) :
    runAux o (cs.length + 1) ⟨Position.start, cs⟩ =
      runAux o ((cs.dropWhile (· == Text.byteOrderMark)).length + 1)
        ⟨Position.start, cs.dropWhile (· == Text.byteOrderMark)⟩ := by
  induction cs with
  | nil => rfl
  | cons c cs ih =>
      by_cases hc : c = Text.byteOrderMark
      · subst hc
        rw [List.dropWhile_cons_of_pos (by rfl), ← ih]
        rfl
      · rw [List.dropWhile_cons_of_neg (by simpa using hc)]

/-! ## Steps -/

/-- What one step does with the character in front. A NUL stops the run, a blank is passed
over, a byte order mark at the first place starts the count anew, and everything else starts
a token. -/
theorem step_cases (o : Options) (p : Position) (c : Char) (rest : List Char) :
    (c = '\x00' ∧ step o ⟨p, c :: rest⟩ = .stop) ∨
      (isBlank c = true ∧ step o ⟨p, c :: rest⟩ = .skip ⟨p.step c, rest⟩) ∨
      ((c = Text.byteOrderMark ∧ (p.step c).line = 1 ∧ (p.step c).column = 1) ∧
        step o ⟨p, c :: rest⟩ = .skip ⟨Position.start, rest⟩) ∨
      Cuts [c] (p.step c) (p.step c) rest (step o ⟨p, c :: rest⟩) := by
  simp only [step, dispatch]
  by_cases hmark : c = Text.byteOrderMark
  · rw [if_pos hmark]
    by_cases hfirst : (p.step c).line = 1 ∧ (p.step c).column = 1
    · rw [if_pos hfirst, hfirst.1]
      exact .inr (.inr (.inl ⟨⟨hmark, rfl, hfirst.2⟩, rfl⟩))
    · rw [if_neg hfirst]
      exact .inr (.inr (.inr trivial))
  rw [if_neg hmark]
  by_cases hzero : c.toNat = 0
  · rw [if_pos hzero]
    exact .inl ⟨(toNat_eq_iff 0 rfl).mp hzero, rfl⟩
  rw [if_neg hzero]
  by_cases hblank : isBlank c = true
  · rw [if_pos hblank]
    exact .inr (.inl ⟨hblank, rfl⟩)
  rw [if_neg hblank]
  exact .inr (.inr (.inr (cuts_readToken o c (p.step c) rest)))

/-! ## Runs -/

/-- The tokens `ts` and blanks lie side by side over all of some characters. The
first one stands after the position `p`, and each token moves the position over
its own characters. -/
inductive Lines : Position → List Char → List Token → Prop where
  | nil (p : Position) : Lines p [] []
  | blank {p : Position} {c : Char} {cs : List Char} {ts : List Token} (hblank : isBlank c = true)
      (hrest : Lines (p.step c) cs ts) : Lines p (c :: cs) ts
  | token {p q : Position} {c : Char} {taken cs : List Char} {t : Token} {ts : List Token}
      (hfirst : t.span.first = p.step c) (hlast : t.span.last.offset = q.offset)
      (hvalue : meaning t.kind (c :: taken) = some t.value.toList)
      (hpass : Passes t.kind (c :: taken) p q) (hjoin : Joins (c :: taken) cs)
      (hrest : Lines q cs ts) : Lines p (c :: taken ++ cs) (t :: ts)

theorem Lines.tiles {p : Position} {cs : List Char} {ts : List Token} (h : Lines p cs ts) :
    Tiles p.offset cs ts := by
  induction h with
  | nil p => exact .nil _
  | blank hblank hrest ih => exact .blank hblank ih
  | token hfirst hlast hvalue hpass hjoin hrest ih =>
      rw [hpass.offset] at hlast ih
      exact .token (by rw [hfirst]; rfl) hlast hvalue ih

theorem Joins.front {cs ds more : List Char} (h : Joins cs (ds ++ more)) : Joins cs ds := by
  intro hlast hhead
  apply h hlast
  rw [List.head?_append, hhead]
  rfl

/-- A run without a fault lays its tokens over the text up to its end or to a NUL. -/
theorem lines_of_runAux {o : Options} {fuel n : Nat} {s : Scan} {ts : List Token}
    (h : runAux o fuel s = (ts, none)) (hfuel : s.rest.length < fuel) (hs : Ready n s) :
    ∃ front back, s.rest = front ++ back ∧ Lines s.position front ts ∧
      (back = [] ∨ back.head? = some '\x00') := by
  induction fuel generalizing n s ts with
  | zero => exact absurd hfuel (Nat.not_lt_zero _)
  | succ fuel ih =>
      obtain ⟨p, rest⟩ := s
      cases rest with
      | nil =>
          simp only [runAux, step, Prod.mk.injEq, and_true] at h
          subst h
          exact ⟨[], [], rfl, .nil _, .inl rfl⟩
      | cons c rest =>
          have hlength : rest.length < fuel := by
            simp only [List.length_cons] at hfuel
            omega
          have hwalk := walks_step o c p rest
          rcases step_cases o p c rest with
            ⟨rfl, hstep⟩ | ⟨hblank, hstep⟩ | ⟨⟨hmark, hfirst⟩, -⟩ | hcut
          · simp only [runAux, hstep, Prod.mk.injEq, and_true] at h
            subst h
            exact ⟨[], _, rfl, .nil _, .inr rfl⟩
          · simp only [runAux, hstep] at h
            obtain ⟨front, back, hsplit, hlines, hback⟩ := ih h hlength hs.afterBlank
            exact ⟨c :: front, back, congrArg (c :: ·) hsplit, .blank hblank hlines, hback⟩
          · exact absurd hfirst (hs.not_first hmark)
          · cases hstep : step o ⟨p, c :: rest⟩ with
            | stop => exact (hstep ▸ hcut).elim
            | skip next => exact (hstep ▸ hcut).elim
            | fault f => simp [runAux, hstep] at h
            | token t next =>
                obtain ⟨m, hready⟩ := hs.afterToken hstep
                rw [hstep] at hcut hwalk
                obtain ⟨taken, hrest, hfirst, -, hnext, hvalue⟩ := hcut
                obtain ⟨taken', hrest', hpass, hjoin⟩ := hwalk
                obtain rfl : taken = taken' := List.append_cancel_right (hrest.symm.trans hrest')
                simp only [runAux, hstep, Prod.mk.injEq] at h
                obtain ⟨hts, hnone⟩ := h
                have hshorter : next.rest.length < fuel := by
                  rw [hrest, List.length_append] at hlength
                  omega
                obtain ⟨front, back, hsplit, hlines, hback⟩ :=
                  ih (Prod.ext rfl hnone) hshorter hready
                rw [hsplit] at hjoin
                refine ⟨c :: taken ++ front, back, by simp [hrest, hsplit], ?_, hback⟩
                rw [← hts]
                exact .token hfirst hnext.symm hvalue hpass hjoin.front hlines

/-- Lexing that reports nothing met no fault. -/
theorem run_of_silent {o : Options} {uri source : String} {r : Reporter}
    (h : (lex o uri source r).2.reported = r.reported) :
    run o (Text.codePoints source) = ((lex o uri source r).1, none) := by
  rcases hrun : run o (Text.codePoints source) with ⟨ts, fault⟩
  cases fault with
  | none => simp only [lex, hrun]
  | some f =>
      have hlength := congrArg List.length h
      simp [lex, hrun] at hlength

theorem dropWhile_codePoints (source : String) :
    (Text.codePoints source).dropWhile (· == Text.byteOrderMark) =
      source.toList.dropWhile (· == Text.byteOrderMark) := by
  unfold Text.codePoints
  cases source.toList with
  | nil => rfl
  | cons c cs =>
      by_cases hc : c = Text.byteOrderMark
      · simp [hc]
      · simp [hc]

/-- A text of which nothing is reported is covered by lines of tokens. -/
theorem lines_of_silent {o : Options} {uri source : String} {r : Reporter}
    (h : (lex o uri source r).2.reported = r.reported)
    (hmarks : EarlyMarks (source.toList.dropWhile (· == Text.byteOrderMark))) :
    ∃ front back, source.toList.dropWhile (· == Text.byteOrderMark) = front ++ back ∧
      Lines Position.start front (lex o uri source r).1 ∧
      (back = [] ∨ back.head? = some '\x00') := by
  have hrun := run_of_silent h
  rw [run, runAux_marks, dropWhile_codePoints] at hrun
  exact lines_of_runAux hrun (Nat.lt_succ_self _) (.start hmarks)

/-- Lexing loses and duplicates nothing of any bytes, whatever they are: tokens of
which nothing is reported account for the text, byte order marks in front left
aside. No other mark stands behind `2 ^ 32` characters, where columns wrap. -/
theorem lex_accountsFor (o : Options) (uri : String) (bytes : List UInt8) (r : Reporter)
    (h : (lex o uri (Text.decode bytes) r).2.reported = r.reported)
    (hmarks : EarlyMarks ((Text.decode bytes).toList.dropWhile (· == Text.byteOrderMark))) :
    ∃ front back, AccountsFor (lex o uri (Text.decode bytes) r).1
      ((Text.decode bytes).toList.dropWhile (· == Text.byteOrderMark)) front back := by
  obtain ⟨front, back, hsplit, hlines, hback⟩ := lines_of_silent h hmarks
  rw [hsplit]
  exact ⟨front, back, hlines.tiles.accountsFor hback⟩

/-- Two byte order marks, a text with escapes, a stray byte, both forms of comment,
a number, and a NUL with more after it. -/
def sampleBytes : List UInt8 :=
  [0xEF, 0xBB, 0xBF, 0xEF, 0xBB, 0xBF, 0x22, 0x5C, 0x6E, 0x5C, 0x71, 0x22, 0x20, 0xFF, 0x2F, 0x2A,
    0x0D, 0x0A, 0x2A, 0x2F, 0x0B, 0x30, 0x78, 0x46, 0x23, 0xC3, 0xA9, 0x0D, 0x0A, 0x0C, 0x00, 0x22]

theorem lex_accountsFor_sampleBytes :
    (lex ⟨true⟩ "" (Text.decode sampleBytes) {}).2.reported = [] ∧
      EarlyMarks ((Text.decode sampleBytes).toList.dropWhile (· == Text.byteOrderMark)) ∧
      ∃ front back, AccountsFor (lex ⟨true⟩ "" (Text.decode sampleBytes) {}).1
        ((Text.decode sampleBytes).toList.dropWhile (· == Text.byteOrderMark)) front back :=
  have h : (lex ⟨true⟩ "" (Text.decode sampleBytes) {}).2.reported = [] := by decide +kernel
  have hmarks : EarlyMarks
      ((Text.decode sampleBytes).toList.dropWhile (· == Text.byteOrderMark)) :=
    earlyMarks_of_length (by decide +kernel)
  ⟨h, hmarks, lex_accountsFor ⟨true⟩ "" sampleBytes {} h hmarks⟩

end Source
end ClientGen
