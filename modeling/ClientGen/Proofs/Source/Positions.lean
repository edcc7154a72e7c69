import ClientGen.Proofs.Source.Accounting

/-! # Positions

The place of a token is the place reached by walking over everything before it, but for
the line breaks inside text literals that start no line. So the line of a token falls
behind the line breaks before it by those that earlier text literals miss
(`lex_positions`).
-/

namespace ClientGen
namespace Source

open Lexer

def ahead (t : Token) (xs : List (Int × Char)) : List Char :=
  (xs.filter fun x => decide (x.1 < t.span.first.offset)).map Prod.snd

/-- Something counted in the text literals among some tokens. -/
def inTexts (count : List Char → Nat) (xs : List (Int × Char)) (us : List Token) : Nat :=
  ((us.filter fun u => u.kind == .text).map fun u => count (covered u xs)).sum

/-- Text literals in which every line break starts a new line. -/
def PlainTexts (xs : List (Int × Char)) (us : List Token) : Prop :=
  ∀ u ∈ us, u.kind = .text → lineFeeds (covered u xs) = lineBreaks (covered u xs)

instance (xs : List (Int × Char)) (us : List Token) : Decidable (PlainTexts xs us) :=
  inferInstanceAs (Decidable (∀ u ∈ us, u.kind = .text → _))

theorem inTexts_cons (count : List Char → Nat) (xs : List (Int × Char)) (u : Token)
    (us : List Token) :
    inTexts count xs (u :: us) =
      (if u.kind = .text then count (covered u xs) else 0) + inTexts count xs us := by
  by_cases hu : u.kind = .text <;> simp [inTexts, hu]

/-- Only what the tokens cover matters. -/
theorem inTexts_congr (count : List Char → Nat) {xs ys : List (Int × Char)} {us : List Token}
    (h : ∀ u ∈ us, covered u xs = covered u ys) : inTexts count xs us = inTexts count ys us := by
  unfold inTexts
  congr 1
  apply List.map_congr_left
  intro u hu
  rw [h u (List.mem_of_mem_filter hu)]

theorem inTexts_lineFeeds_le (xs : List (Int × Char)) (us : List Token) :
    inTexts lineFeeds xs us ≤ inTexts lineBreaks xs us := by
  induction us with
  | nil => exact Nat.le_refl 0
  | cons u us ih =>
      have hfeeds := lineFeeds_le (covered u xs)
      rw [inTexts_cons, inTexts_cons]
      split <;> omega

/-- In plain texts nothing is missed. -/
theorem inTexts_of_plain {xs : List (Int × Char)} {us : List Token} (h : PlainTexts xs us) :
    inTexts lineFeeds xs us = inTexts lineBreaks xs us := by
  unfold inTexts
  congr 1
  apply List.map_congr_left
  intro u hu
  obtain ⟨hmem, htext⟩ := List.mem_filter.mp hu
  exact h u hmem (by simpa using htext)

theorem plainTexts_congr {xs ys : List (Int × Char)} {us : List Token}
    (h : ∀ u ∈ us, covered u xs = covered u ys) (hxs : PlainTexts xs us) : PlainTexts ys us := by
  intro u hu htext
  rw [← h u hu]
  exact hxs u hu htext

/-- The tokens of a tiling cover nothing of what stands before it. -/
theorem Tiles.covered_after {k : Int} {piece cs : List Char} {ts : List Token}
    (h : Tiles (k + byteLength piece) cs ts) (more : List Char) {t : Token} (ht : t ∈ ts) :
    covered t (placed k (piece ++ cs ++ more)) =
      covered t (placed (k + byteLength piece) (cs ++ more)) := by
  rw [List.append_assoc, placed_append, covered_append,
    covered_placed_of_lt (h.bounds t ht).1, List.nil_append]

/-- Where a token stands in some characters after the position `p`, when `earlier`
are the tokens before it. -/
structure StandsAt (p : Position) (cs : List Char) (xs : List (Int × Char)) (earlier : List Token)
    (t : Token) (front : List Char) (c : Char) : Prop where
  split : front ++ [c] <+: cs
  offset : t.span.first.offset = p.offset + byteLength (front ++ [c])
  line : ∃ started : Nat, t.span.first.line = p.line + .ofNat started ∧
    started + inTexts lineBreaks xs earlier = lineBreaks front + inTexts lineFeeds xs earlier
  place : PlainTexts xs earlier → t.span.first = (p.walk front).step c

/-- A blank in front moves a token along the line. -/
theorem StandsAt.afterBlank {p : Position} {b c : Char} {cs more front : List Char}
    {earlier : List Token} {t : Token} (hblank : isBlank b = true)
    (hcovered : ∀ u ∈ earlier, covered u (placed p.offset (b :: cs ++ more)) =
      covered u (placed (p.step b).offset (cs ++ more)))
    (h : StandsAt (p.step b) cs (placed (p.step b).offset (cs ++ more)) earlier t front c) :
    StandsAt p (b :: cs) (placed p.offset (b :: cs ++ more)) earlier t (b :: front) c := by
  have hb : isBreak b = false := isBreak_eq_false (f := isBlank) rfl rfl hblank
  have hbreaks : lineBreaks (b :: front) = lineBreaks front := by
    rw [lineBreaks_single (by rintro tail rfl; cases hb), hb]
    rfl
  refine ⟨List.cons_prefix_cons.mpr ⟨rfl, h.split⟩, ?_, ?_, ?_⟩
  · rw [h.offset, List.cons_append, byteLength_cons, offset_step]
    omega
  · rw [inTexts_congr lineBreaks hcovered, inTexts_congr lineFeeds hcovered, hbreaks]
    exact h.line
  · intro hplain
    rw [walk_cons hb]
    exact h.place (plainTexts_congr hcovered hplain)

/-- A token in front moves the next one by the lines that start in it. -/
theorem StandsAt.afterToken {p q : Position} {piece cs more front : List Char} {c : Char}
    {u t : Token} {earlier : List Token} {xs : List (Int × Char)}
    (hpass : Passes u.kind piece p q) (hjoin : Joins piece front) (hown : covered u xs = piece)
    (hcovered : ∀ v ∈ earlier, covered v xs = covered v (placed q.offset (cs ++ more)))
    (h : StandsAt q cs (placed q.offset (cs ++ more)) earlier t front c) :
    StandsAt p (piece ++ cs) xs (u :: earlier) t (piece ++ front) c := by
  have hwalk := walk_append p hjoin
  refine ⟨?_, ?_, ?_, ?_⟩
  · rw [List.append_assoc]
    exact (List.prefix_append_right_inj piece).mpr h.split
  · rw [h.offset, hpass.offset, List.append_assoc, byteLength_append piece]
    omega
  · obtain ⟨started, hline, hsum⟩ := h.line
    refine ⟨startedLines u.kind piece + started, ?_, ?_⟩
    · rw [hline, hpass.line, Int32.ofNat_add, Int32.add_assoc]
    rw [inTexts_cons, inTexts_cons, hown, inTexts_congr lineBreaks hcovered,
      inTexts_congr lineFeeds hcovered, lineBreaks_append hjoin, startedLines]
    by_cases htext : u.kind = .text
    · simp only [if_pos htext]
      omega
    · simp only [if_neg htext]
      omega
  · intro hplain
    have hq : q = p.walk piece := by
      apply hpass.place
      by_cases htext : u.kind = .text
      · have hu := hplain u List.mem_cons_self htext
        rw [hown] at hu
        rw [startedLines, if_pos htext, hu]
      · rw [startedLines, if_neg htext]
    have hrest : PlainTexts xs earlier := fun v hv => hplain v (List.mem_cons_of_mem u hv)
    rw [hwalk, ← hq]
    exact h.place (plainTexts_congr hcovered hrest)

/-- Every token stands where the line breaks before it put it, whatever follows. -/
theorem Lines.standsAt {p : Position} {cs : List Char} {ts : List Token} (h : Lines p cs ts)
    (more : List Char) {earlier later : List Token} {t : Token}
    (hts : ts = earlier ++ t :: later) :
    ∃ front c, StandsAt p cs (placed p.offset (cs ++ more)) earlier t front c := by
  induction h generalizing earlier with
  | nil p => simp at hts
  | blank hblank hrest ih =>
      rename_i p b cs ts
      obtain ⟨front, c, hstands⟩ := ih hts
      refine ⟨b :: front, c, hstands.afterBlank hblank ?_⟩
      intro u hu
      have htiles : Tiles (p.offset + byteLength [b]) cs ts := by simpa using hrest.tiles
      have hmem : u ∈ ts := by
        rw [hts]
        exact List.mem_append_left _ hu
      simpa using htiles.covered_after more hmem
  | token hfirst hlast hvalue hpass hjoin hrest ih =>
      rename_i p q b taken cs u ts
      cases earlier with
      | nil =>
          obtain ⟨rfl, -⟩ := List.cons.inj hts
          refine ⟨[], b, ?_, ?_, ?_, ?_⟩
          · exact List.cons_prefix_cons.mpr ⟨rfl, List.nil_prefix⟩
          · rw [hfirst]
            simp
          · refine ⟨0, ?_, rfl⟩
            rw [hfirst]
            exact (Int32.add_zero p.line).symm
          · intro _
            exact hfirst
      | cons v earlier =>
          obtain ⟨rfl, htail⟩ := List.cons.inj hts
          obtain ⟨front, c, hstands⟩ := ih htail
          have htiles := hrest.tiles
          rw [hpass.offset] at hlast htiles
          have hown : covered u (placed p.offset (b :: taken ++ cs ++ more)) = b :: taken := by
            rw [List.append_assoc, placed_append, covered_append,
              covered_placed_self (by rw [hfirst]; rfl) hlast,
              covered_placed_of_le (Int.le_of_eq hlast), List.append_nil]
          obtain ⟨behind, hsplit⟩ := hstands.split
          rw [← hsplit, List.append_assoc] at hjoin
          refine ⟨b :: taken ++ front, c, hstands.afterToken hpass hjoin.front hown ?_⟩
          intro v hv
          rw [hpass.offset]
          have hmem : v ∈ ts := by
            rw [htail]
            exact List.mem_append_left _ hv
          exact htiles.covered_after more hmem

/-- The characters before a token are those in front of where it stands. -/
theorem StandsAt.ahead_eq {p : Position} {cs : List Char} {xs : List (Int × Char)}
    {earlier : List Token} {t : Token} {front : List Char} {c : Char}
    (h : StandsAt p cs xs earlier t front c) (more : List Char) :
    ahead t (placed p.offset (cs ++ more)) = front := by
  obtain ⟨behind, hsplit⟩ := h.split
  have hoffset := h.offset
  have hsize := c.utf8Size_pos
  simp only [byteLength_append, byteLength_cons, byteLength_nil] at hoffset
  have hbefore : ∀ x ∈ placed p.offset front, decide (x.1 < t.span.first.offset) = true := by
    intro x hx
    have hhi := (bounds_of_mem_placed hx).2
    exact decide_eq_true (by omega)
  have hafter : ∀ x ∈ placed (p.offset + byteLength front) (c :: (behind ++ more)),
      ¬ decide (x.1 < t.span.first.offset) = true := by
    intro x hx
    have hlo := first_le_of_mem_placed hx
    rw [decide_eq_true_eq]
    omega
  rw [← hsplit, List.append_assoc, List.append_assoc, List.singleton_append, placed_append, ahead,
    List.filter_append, List.filter_eq_self.mpr hbefore, List.filter_eq_nil_iff.mpr hafter,
    List.append_nil, map_snd_placed]

/-- A token stands among the characters of the text. -/
theorem StandsAt.length_lt {p : Position} {cs : List Char} {xs : List (Int × Char)}
    {earlier : List Token} {t : Token} {front : List Char} {c : Char}
    (h : StandsAt p cs xs earlier t front c) : front.length < cs.length := by
  have hlength := h.split.length_le
  rw [List.length_append] at hlength
  exact hlength

theorem length_lastLine_le (cs : List Char) : (lastLine cs).length ≤ cs.length :=
  (List.rtakeWhile_suffix _ cs).length_le

theorem toInt_ofNat_succ {n : Nat} (h : n + 1 < 2 ^ 31) : (Int32.ofNat (1 + n)).toInt = 1 + n := by
  rw [Int32.toInt_ofNat_of_lt (by omega)]
  omega

/-- The start of a token of which nothing is reported, byte order marks in front of
the text left aside. Its line falls behind the line breaks before it by as many as
earlier text literals hold beyond their unescaped line feeds. Where they hold no
others, line and column are those of the text. The numbers have 32 bits: they are
these in a text of fewer than `2 ^ 31` characters, and these up to wrapping in
every other one, unless a byte order mark stands where columns have wrapped. -/
theorem lex_positions (o : Options) (uri source : String) (r : Reporter)
    (h : (lex o uri source r).2.reported = r.reported)
    (hmarks : EarlyMarks (source.toList.dropWhile (· == Text.byteOrderMark)))
    (earlier later : List Token) (t : Token)
    (hts : (lex o uri source r).1 = earlier ++ t :: later) :
    let text := source.toList.dropWhile (· == Text.byteOrderMark)
    let xs := placed (-1) text
    ∃ started : Nat,
      started + inTexts lineBreaks xs earlier =
          lineBreaks (ahead t xs) + inTexts lineFeeds xs earlier ∧
        (PlainTexts xs earlier → started = lineBreaks (ahead t xs)) ∧
        t.span.first.line = .ofNat (1 + started) ∧
        (PlainTexts xs earlier →
          t.span.first.column = .ofNat (1 + (lastLine (ahead t xs)).length)) ∧
        (text.length < 2 ^ 31 → t.span.first.line.toInt = 1 + started ∧
          (PlainTexts xs earlier →
            t.span.first.column.toInt = 1 + (lastLine (ahead t xs)).length)) := by
  intro text xs
  obtain ⟨front, back, hsplit, hlines, -⟩ := lines_of_silent h hmarks
  obtain ⟨before, c, hstands⟩ := hlines.standsAt back hts
  have hahead := hstands.ahead_eq back
  rw [← hsplit] at hstands hahead
  change StandsAt Position.start front xs earlier t before c at hstands
  change ahead t xs = before at hahead
  have hlength : before.length < text.length := by
    have hfront := hstands.length_lt
    rw [show text = front ++ back from hsplit, List.length_append]
    omega
  rw [hahead]
  obtain ⟨started, hline, hsum⟩ := hstands.line
  have hline : t.span.first.line = .ofNat (1 + started) := by
    rw [hline, Int32.ofNat_add]
    rfl
  have hfeeds := inTexts_lineFeeds_le xs earlier
  have hbreaks := lineBreaks_le_length before
  have hlast := length_lastLine_le before
  have hcolumn : PlainTexts xs earlier →
      t.span.first.column = .ofNat (1 + (lastLine before).length) := by
    intro hplain
    have hwalk := column_walk Position.start before
    have hzero : (if before.any isBreak then 0 else Position.start.column) = 0 := ite_self 0
    rw [hzero, Int32.add_zero] at hwalk
    rw [hstands.place hplain, Nat.add_comm, Int32.ofNat_add, ← hwalk]
    rfl
  refine ⟨started, hsum, ?_, hline, hcolumn, fun hsmall => ⟨?_, fun hplain => ?_⟩⟩
  · intro hplain
    have hequal := inTexts_of_plain hplain
    omega
  · rw [hline]
    exact toInt_ofNat_succ (by omega)
  · rw [hcolumn hplain]
    exact toInt_ofNat_succ (by omega)

/-- A byte order mark, line breaks of all three forms in a comment, in a text and
between tokens, and an escape in a text. -/
def brokenLines : String :=
  "\uFEFFa\r\n/* \r\r\n\n*/ \"\r\n\\n\n\" // b\r 'c' d"

theorem lex_positions_brokenLines :
    (lex ⟨false⟩ "" brokenLines {}).2.reported = [] ∧
      EarlyMarks (brokenLines.toList.dropWhile (· == Text.byteOrderMark)) ∧
      ∃ earlier t, (lex ⟨false⟩ "" brokenLines {}).1 = earlier ++ [t] ∧
        PlainTexts (placed (-1) brokenLines.toList.tail) earlier ∧
        t.span.first.line.toInt =
          1 + lineBreaks (ahead t (placed (-1) brokenLines.toList.tail)) ∧
        t.span.first.column.toInt =
          1 + (lastLine (ahead t (placed (-1) brokenLines.toList.tail))).length := by
  have hsilent : (lex ⟨false⟩ "" brokenLines {}).2.reported = [] := by decide +kernel
  have htokens : (lex ⟨false⟩ "" brokenLines {}).1 =
      (lex ⟨false⟩ "" brokenLines {}).1.dropLast ++
        [(lex ⟨false⟩ "" brokenLines {}).1.getLast (by decide +kernel)] :=
    (List.dropLast_concat_getLast _).symm
  have hmark :
    brokenLines.toList.dropWhile (· == Text.byteOrderMark) = brokenLines.toList.tail := by
    decide +kernel
  have hlength : brokenLines.toList.tail.length < 2 ^ 31 := by decide +kernel
  have hmarks : EarlyMarks (brokenLines.toList.dropWhile (· == Text.byteOrderMark)) :=
    earlyMarks_of_not_mem (by decide +kernel)
  have hplain : PlainTexts (placed (-1) brokenLines.toList.tail)
      (lex ⟨false⟩ "" brokenLines {}).1.dropLast := by decide +kernel
  have hplaces := lex_positions ⟨false⟩ "" brokenLines {} hsilent hmarks _ [] _ htokens
  rw [hmark] at hplaces
  obtain ⟨started, -, hall, -, -, hnumbers⟩ := hplaces
  obtain ⟨hline, hcolumn⟩ := hnumbers hlength
  rw [hall hplain] at hline
  exact ⟨hsilent, hmarks, _, _, htokens, hplain, hline, hcolumn hplain⟩

/-- A carriage return alone in a text starts no line, though it is a line break. -/
theorem line_after_return_in_text :
    (lex ⟨false⟩ "" "\"\r\" x" {}).2.reported = [] ∧
      ∃ t ∈ (lex ⟨false⟩ "" "\"\r\" x" {}).1,
        t.span.first.line.toInt ≠ 1 + lineBreaks (ahead t (placed (-1) "\"\r\" x".toList)) := by
  decide +kernel

end Source
end ClientGen
