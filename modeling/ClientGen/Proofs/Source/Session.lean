import ClientGen.Proofs.Source.Lockstep

/-! # Sessions

A session is the parse of one source from its first character to the cursor where
the parse stops. What the lexer and a grammar owe to the reporter adds up here:
with the default codes, a session without a report has a value and has consumed
every significant token, and the first report of any other session is its error.
Two silent lexings with the same significant faces give sessions that agree up to
places.
-/

namespace ClientGen
namespace Source

/-! ## Faults of the lexer -/

namespace Lexer

def Step.Serious : Step → Prop
  | .fault f => f.code ∉ Code.harmless
  | _ => True

theorem serious_readText (quote : Char) (p : Position) (rest : List Char) :
    (readText quote p rest).Serious := by
  unfold readText
  split
  · trivial
  · exact (by decide : Code.unexpectedEnd ∉ Code.harmless)

theorem serious_readBlockComment (first p : Position) (rest : List Char) :
    (readBlockComment first p rest).Serious := by
  unfold readBlockComment
  split
  · trivial
  · exact (by decide : Code.unexpectedEnd ∉ Code.harmless)

theorem serious_readSlash (p : Position) (rest : List Char) : (readSlash p rest).Serious := by
  unfold readSlash
  split
  · trivial
  · exact serious_readBlockComment _ _ _
  · trivial

theorem serious_readDecimal (c : Char) (p : Position) (rest : List Char) :
    (readDecimal c p rest).Serious := by
  unfold readDecimal
  split
  · trivial
  · exact (by decide : Code.invalidNumber ∉ Code.harmless)

theorem serious_readHex (first p : Position) (marker : Char) (rest : List Char) :
    (readHex first p marker rest).Serious := by
  unfold readHex
  dsimp only
  split
  · exact (by decide : Code.invalidNumber ∉ Code.harmless)
  · trivial

theorem serious_readZero (p : Position) (rest : List Char) : (readZero p rest).Serious := by
  unfold readZero
  split
  · split
    · exact serious_readHex _ _ _ _
    · exact serious_readDecimal _ _ _
  · exact serious_readDecimal _ _ _

theorem serious_readToken (o : Options) (c : Char) (p : Position) (rest : List Char) :
    (readToken o c p rest).Serious := by
  unfold readToken
  repeat' split
  · trivial
  · unfold readReturn
    split <;> trivial
  · exact serious_readZero _ _
  · exact serious_readDecimal _ _ _
  · exact serious_readText _ _ _
  · trivial
  · exact serious_readSlash _ _
  · trivial
  · trivial
  · trivial

theorem serious_step (o : Options) (s : Scan) : (step o s).Serious := by
  unfold step
  split
  · trivial
  · unfold dispatch
    repeat' split
    · trivial
    · exact (by decide : Code.unsupportedFormat ∉ Code.harmless)
    · trivial
    · trivial
    · exact serious_readToken _ _ _ _

theorem serious_runAux {o : Options} {fuel : Nat} {s : Scan} {f : Fault}
    (h : (runAux o fuel s).2 = some f) : f.code ∉ Code.harmless := by
  induction fuel generalizing s with
  | zero => cases h
  | succ fuel ih =>
      unfold runAux at h
      cases hstep : step o s with
      | stop => simp [hstep] at h
      | fault g =>
          have hg : g = f := by simpa [hstep] using h
          have hserious := serious_step o s
          rw [hstep, hg] at hserious
          exact hserious
      | skip next =>
          rw [hstep] at h
          exact ih h
      | token t next =>
          rw [hstep] at h
          exact ih h

/-- Lexing reports one serious diagnostic, or none. -/
theorem lex_cases (o : Options) (uri source : String) (r : Reporter) :
    (lex o uri source r).2 = r ∨
      ∃ d : Diagnostic, d.code ∉ Code.harmless ∧ (lex o uri source r).2 = r.report d := by
  unfold lex
  cases hrun : run o (Text.codePoints source) with
  | mk ts fault =>
      cases fault with
      | none => exact .inl rfl
      | some f =>
          have hfault : (run o (Text.codePoints source)).2 = some f := by rw [hrun]
          exact .inr ⟨f.diagnostic uri, serious_runAux hfault, rfl⟩

end Lexer

/-! ## The first cursor -/

/-- What a grammar sees of some tokens: neither comments nor line breaks. -/
def significant (ts : List Token) : List Face :=
  (ts.filter fun t => t.kind.isSignificant).map Token.face

namespace Cursor

theorem fst_separate (before : Nat) (line? : Option Int32) (ts : List Token) :
    (separate before line? ts).1 = ts.filter fun t => t.kind.isSignificant := by
  induction ts generalizing before line? with
  | nil => rfl
  | cons t ts ih =>
      cases hkind : t.kind <;> simp [separate, hkind, TokenKind.isSignificant, ih]

section OfSource

variable (o : Lexer.Options) (uri source : String) (r : Reporter)

theorem faces_ofSource :
    (ofSource o uri source r).faces = significant (Lexer.lex o uri source r).1 := by
  simp only [ofSource, ofTokens, faces, significant, fst_separate]

theorem reporter_ofSource : (ofSource o uri source r).reporter = (Lexer.lex o uri source r).2 := rfl

theorem fatalBefore_ofSource : (ofSource o uri source r).fatalBefore = r.fatal.length := rfl

theorem failed_ofSource :
    (ofSource o uri source r).failed =
      decide (r.fatal.length < (Lexer.lex o uri source r).2.fatal.length) := rfl

end OfSource

/-- A silent lexing leaves the reporter as it was and is no failure. -/
theorem ofSource_of_silent {o : Lexer.Options} {uri source : String} {r : Reporter}
    (h : (Lexer.lex o uri source r).2.reported = r.reported) :
    (ofSource o uri source r).reporter = r ∧ (ofSource o uri source r).failed = false := by
  have hlex : (Lexer.lex o uri source r).2 = r := by
    rcases Lexer.lex_cases o uri source r with hlex | ⟨d, -, hlex⟩
    · exact hlex
    · rw [hlex] at h
      simp at h
  rw [reporter_ofSource, failed_ofSource, hlex]
  simp

end Cursor

theorem Reporter.isFatal_of_serious {r : Reporter} {d : Diagnostic}
    (hr : r.nonfatal = Code.harmless) (hd : d.code ∉ Code.harmless) : r.isFatal d = true := by
  simpa [Reporter.isFatal, hr] using hd

/-- The fatal diagnostics after a stretch of a parse. -/
theorem Follows.fatal {c c' : Cursor} {n : Nat} {ds : List Diagnostic} (h : Follows n ds c c') :
    c'.reporter.fatal = c.reporter.fatal ++ ds.filter c.reporter.isFatal := by
  rw [h.reporter]
  exact List.filter_append _ _

/-- The error of a parse that started without failure is its first fatal report. -/
theorem Follows.error?_eq {c c' : Cursor} {n : Nat} {ds : List Diagnostic} (h : Follows n ds c c')
    (hfailed : c.failed = false) (hbefore : c.fatalBefore = c.reporter.fatal.length) :
    c'.error? = (ds.filter c.reporter.isFatal).head? := by
  unfold Cursor.error?
  rw [h.failed, hfailed, Bool.false_or, h.fatalBefore, hbefore, h.fatal]
  cases hany : ds.any c.reporter.isFatal with
  | false =>
      have hnil : ds.filter c.reporter.isFatal = [] := by
        simpa [List.filter_eq_nil_iff] using hany
      simp [hnil]
  | true =>
      rw [if_pos rfl, List.getElem?_append_right (Nat.le_refl _), Nat.sub_self,
        List.head?_eq_getElem?]

/-! ## Whole files -/

namespace Parser

/-- The values and cursors of a sequence that gives a value. -/
theorem run_bind_eq_some {α β : Type} {p : Parser α} {f : α → Parser β} {c c'' : Cursor} {b : β}
    (h : (p >>= f).run c = (some b, c'')) :
    ∃ a c', p.run c = (some a, c') ∧ (f a).run c' = (some b, c'') := by
  rw [run_bind] at h
  cases hp : p.run c with
  | mk value c' =>
      rw [hp] at h
      cases value with
      | none => simp at h
      | some a => exact ⟨a, c', rfl, h⟩

/-- A loop that gives a value ends where its condition does not hold. -/
theorem again_of_whileAux {α : Type} {again : Cursor → Bool} {item : Parser α} {fuel : Nat}
    {c c' : Cursor} {xs : List α} (h : (whileAux again item fuel).run c = (some xs, c')) :
    again c' = false := by
  induction fuel generalizing c xs with
  | zero => simp [whileAux, illegal, run] at h
  | succ fuel ih =>
      unfold whileAux at h
      obtain ⟨b, c₀, hlook, hrest⟩ := run_bind_eq_some h
      obtain ⟨hb, rfl⟩ : again c = b ∧ c = c₀ := by simpa [look, run] using hlook
      cases b with
      | true =>
          obtain ⟨x, c₁, -, hloop⟩ := run_bind_eq_some hrest
          obtain ⟨ys, c₂, hys, hpure⟩ := run_bind_eq_some hloop
          obtain ⟨-, rfl⟩ : x :: ys = xs ∧ c₂ = c' := by simpa [run, Pure.pure] using hpure
          exact ih hys
      | false =>
          obtain ⟨-, rfl⟩ : [] = xs ∧ c = c' := by simpa [run, Pure.pure] using hrest
          exact hb

/-- A loop over items up to the end of the source leaves nothing. -/
theorem rest_of_whileDo {α β : Type} {item : Parser α} {f : List α → β} {c c' : Cursor} {b : β}
    (h : (do
      let items ← whileDo (fun c => !c.atEnd) item
      return f items : Parser β).run c = (some b, c')) : c'.rest = [] := by
  obtain ⟨items, c₀, hitems, hpure⟩ := run_bind_eq_some h
  obtain ⟨-, rfl⟩ : f items = b ∧ c₀ = c' := by simpa [run, Pure.pure] using hpure
  have hend := again_of_whileAux hitems
  simpa [Cursor.atEnd] using hend

end Parser

/-- The parser of whole files of a language: it gives up on a source that failed
before, and otherwise reads items in lockstep until none is left. -/
structure Grammar (T : Type) where
  file : Parser T
  items : Parser T
  /-- Trees without places. -/
  erase : T → T
  /-- Where no failure is dropped. -/
  ok : List Face → Bool
  run_of_failed : ∀ {c : Cursor}, c.failed = true → file.run c = (none, c)
  run_of_unfailed : ∀ {c : Cursor}, c.failed = false → file.run c = items.run c
  steps : Lockstep ok erase items items
  rest_of_value : ∀ {c c' : Cursor} {t : T}, items.run c = (some t, c') → c'.rest = []

namespace Grammar

variable {T : Type} (g : Grammar T) (o : Lexer.Options) (uri source : String) (r : Reporter)

/-- The parse of a source: its tree and the cursor where it stops. -/
def session : Option T × Cursor := g.file.run (Cursor.ofSource o uri source r)

/-- How a session ends with the default codes: it reports nothing, has a tree and
has consumed every significant token; or it has failed, and its error is what it
reported first. Where no failure is dropped it reports once at most. -/
theorem session_cases (hr : r.nonfatal = Code.harmless) :
    ∃ new, (g.session o uri source r).2.reporter.reported = r.reported ++ new ∧
      (Steady g.ok (significant (Lexer.lex o uri source r).1) → new.length ≤ 1) ∧
      ((new = [] ∧ (∃ t, (g.session o uri source r).1 = some t) ∧
          (g.session o uri source r).2.failed = false ∧
          (g.session o uri source r).2.rest = []) ∨
        ∃ d ds, new = d :: ds ∧ (g.session o uri source r).2.failed = true ∧
          (g.session o uri source r).2.error? = some d) := by
  have hreporter := Cursor.reporter_ofSource o uri source r
  have hbefore := Cursor.fatalBefore_ofSource o uri source r
  have hfailed := Cursor.failed_ofSource o uri source r
  have hfaces := Cursor.faces_ofSource o uri source r
  unfold session
  generalize Cursor.ofSource o uri source r = c at *
  rcases Lexer.lex_cases o uri source r with hlex | ⟨d, hd, hlex⟩
  · -- The source lexes silently, so the items are read.
    rw [hlex] at hreporter hfailed
    have hunfailed : c.failed = false := by simpa using hfailed
    rw [g.run_of_unfailed hunfailed]
    obtain ⟨n, ds, es, h⟩ := g.steps c c rfl
    have hfatal : ∀ d ∈ ds, c.reporter.isFatal d = true := fun d hd =>
      Reporter.isFatal_of_serious (hreporter ▸ hr) (h.left.serious d hd)
    have herror := h.left.error?_eq hunfailed (by rw [hbefore, hreporter])
    have hfailed' := h.left.failed
    rw [hunfailed, Bool.false_or] at hfailed'
    rw [List.filter_eq_self.mpr hfatal] at herror
    refine ⟨ds, by rw [h.left.reporter, hreporter], fun hsteady => ?_, ?_⟩
    · rw [h.once (hfaces ▸ hsteady)]
      split <;> omega
    · cases ds with
      | nil =>
          left
          cases hrun : g.items.run c with
          | mk value c' =>
              rw [hrun] at h hfailed'
              cases value with
              | none => exact absurd rfl (h.reported rfl)
              | some t => exact ⟨rfl, ⟨t, rfl⟩, hfailed', g.rest_of_value hrun⟩
      | cons d ds =>
          right
          refine ⟨d, ds, rfl, ?_, herror⟩
          rw [hfailed', List.any_cons, hfatal d List.mem_cons_self, Bool.true_or]
  · -- The lexer reported a fault, so nothing is read.
    rw [hlex] at hreporter hfailed
    have hfatal : r.isFatal d = true := Reporter.isFatal_of_serious hr hd
    have hfailed' : c.failed = true := by
      rw [hfailed, Reporter.fatal_report, hfatal]
      simp
    rw [g.run_of_failed hfailed']
    refine ⟨[d], by rw [hreporter, Reporter.reported_report], fun _ => Nat.le_refl 1, .inr ?_⟩
    refine ⟨d, [], rfl, hfailed', ?_⟩
    rw [Cursor.error?, if_pos hfailed', hbefore, hreporter, Reporter.fatal_report, hfatal]
    simp

/-- Two sources with the same significant faces: the trees agree without places,
and so do failure and what the error says. -/
theorem session_eq {o : Lexer.Options} {uri source source' : String} {r r' : Reporter}
    (hcodes : r.nonfatal = r'.nonfatal)
    (h : (Lexer.lex o uri source r).2.reported = r.reported)
    (h' : (Lexer.lex o uri source' r').2.reported = r'.reported)
    (hfaces : significant (Lexer.lex o uri source r).1 =
      significant (Lexer.lex o uri source' r').1) :
    (g.session o uri source r).1.map g.erase = (g.session o uri source' r').1.map g.erase ∧
      (g.session o uri source r).2.failed = (g.session o uri source' r').2.failed ∧
      (g.session o uri source r).2.error?.map Diagnostic.notice =
        (g.session o uri source' r').2.error?.map Diagnostic.notice := by
  obtain ⟨hreporter, hfailed⟩ := Cursor.ofSource_of_silent h
  obtain ⟨hreporter', hfailed'⟩ := Cursor.ofSource_of_silent h'
  have hbefore := Cursor.fatalBefore_ofSource o uri source r
  have hbefore' := Cursor.fatalBefore_ofSource o uri source' r'
  rw [← Cursor.faces_ofSource, ← Cursor.faces_ofSource] at hfaces
  unfold session
  generalize Cursor.ofSource o uri source r = c at *
  generalize Cursor.ofSource o uri source' r' = d at *
  rw [g.run_of_unfailed hfailed, g.run_of_unfailed hfailed']
  obtain ⟨n, ds, es, hagree⟩ := g.steps c d hfaces
  -- Whether a diagnostic is fatal is decided by what it says.
  have hfatal : ∀ x : Diagnostic, c.reporter.isFatal x = !r.nonfatal.contains x.notice.1 := by
    intro x
    rw [hreporter]
    rfl
  have hfatal' : ∀ x : Diagnostic, d.reporter.isFatal x = !r.nonfatal.contains x.notice.1 := by
    intro x
    rw [hreporter', hcodes]
    rfl
  refine ⟨hagree.values, ?_, ?_⟩
  · have hany : ∀ xs : List Diagnostic, (xs.any fun x => !r.nonfatal.contains x.notice.1) =
        (xs.map Diagnostic.notice).any fun x => !r.nonfatal.contains x.1 := by
      intro xs
      rw [List.any_map]
      rfl
    rw [hagree.left.failed, hagree.right.failed, hfailed, hfailed', funext hfatal, funext hfatal',
      hany, hany, hagree.notices]
  · have hfirst : ∀ xs : List Diagnostic,
        (xs.filter fun x => !r.nonfatal.contains x.notice.1).head?.map Diagnostic.notice =
          ((xs.map Diagnostic.notice).filter fun x => !r.nonfatal.contains x.1).head? := by
      intro xs
      rw [List.filter_map, List.head?_map]
      rfl
    rw [hagree.left.error?_eq hfailed (by rw [hbefore, hreporter]),
      hagree.right.error?_eq hfailed' (by rw [hbefore', hreporter']), funext hfatal,
      funext hfatal', hfirst, hfirst, hagree.notices]

end Grammar

end Source
end ClientGen
