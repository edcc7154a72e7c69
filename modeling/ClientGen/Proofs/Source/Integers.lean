import ClientGen.Proofs.Number.Spelling
import ClientGen.Proofs.Source.Reading
import ClientGen.Proofs.Source.Values
import Mathlib.Data.List.TakeWhile

/-! # Integer tokens

What an integer token of a text is made of (`integral_of_mem_lex`): decimal digits, with
leading zeros or without, or hexadecimal digits behind a zero and a marker. The number that
is written is the one in base ten or sixteen. Reading its text back gives this number, except
for decimal digits behind a leading zero (`magnitude?_written_iff`).
-/

namespace ClientGen
namespace Source

structure Face.Integral (f : Face) : Prop where
  decimal : f.kind = .integerDecimal →
    f.value.toList ≠ [] ∧ ∀ c ∈ f.value.toList, c.isDigit = true
  hex : f.kind = .integerHex → ∃ marker ∈ ['x', 'X'], ∃ digits ≠ [],
    (∀ c ∈ digits, Lexer.isHexDigit c = true) ∧ f.value.toList = '0' :: marker :: digits

def Face.written (f : Face) : Nat :=
  if f.kind = .integerHex then Number.positional 16 (f.value.toList.drop 2)
  else Number.positional 10 f.value.toList

namespace Lexer

theorem exponentMode_ne_whole {rest : List Char} {next : DecimalMode}
    (h : exponentMode rest = .ok next) : next ≠ .whole := by
  unfold exponentMode at h
  repeat' split at h
  all_goals cases h <;> decide

theorem exists_of_ok_cons {c : Char} {body left : List Char} {float : Bool} {q : Position}
    {read : Except Position (List Char × Bool × Position × List Char)}
    (h : (do
      let (body, float, q, left) ← read
      return (c :: body, float, q, left)) = (.ok (body, float, q, left) : Except Position _)) :
    ∃ rest, read = .ok (rest, float, q, left) ∧ body = c :: rest := by
  cases read with
  | error e => cases h
  | ok found =>
    obtain ⟨rest, float', q', left'⟩ := found
    cases h
    exact ⟨rest, rfl, rfl⟩

theorem whole_of_ok_nil {mode : DecimalMode} {p q : Position} {cs body left : List Char}
    (h : (Except.ok ([], mode != .whole, p, cs) : Except Position _) =
      .ok (body, false, q, left)) : mode = .whole ∧ ∀ c ∈ body, c.isDigit = true := by
  injection h with hsame
  obtain ⟨rfl, hwhole, -⟩ := (Prod.mk.inj hsame).imp_right Prod.mk.inj
  exact ⟨by simpa using hwhole, by simp⟩

/-- A number without point and exponent is made of digits. -/
theorem isDigit_of_decimalBody {mode : DecimalMode} {p q : Position} {cs body left : List Char}
    (h : decimalBody mode p cs = .ok (body, false, q, left)) :
    mode = .whole ∧ ∀ c ∈ body, c.isDigit = true := by
  induction cs generalizing mode p body with
  | nil => exact whole_of_ok_nil h
  | cons c rest ih =>
    rw [decimalBody] at h
    split at h
    · rename_i hdigit
      obtain ⟨rest', hread, rfl⟩ := exists_of_ok_cons h
      obtain ⟨hwhole, hdigits⟩ := ih hread
      exact ⟨hwhole, List.forall_mem_cons.mpr ⟨hdigit, hdigits⟩⟩
    split at h
    · obtain ⟨rest', hread, -⟩ := exists_of_ok_cons h
      cases (ih hread).1
    split at h
    · split at h
      · cases h
      · rename_i next hmark
        obtain ⟨rest', hread, -⟩ := exists_of_ok_cons h
        exact absurd (ih hread).1 (exponentMode_ne_whole hmark)
    · exact whole_of_ok_nil h

theorem integral_readDecimal {c : Char} (hdigit : c.isDigit = true) (p : Position)
    (rest : List Char) : (readDecimal c p rest).All fun t => t.face.Integral := by
  unfold readDecimal
  split
  · rename_i body float last left hread
    refine ⟨fun hkind => ?_, fun hkind => ?_⟩
    · have hwhole : float = false := by
        cases float
        · rfl
        · cases hkind
      subst hwhole
      simpa [Token.face, hdigit] using (isDigit_of_decimalBody hread).2
    · cases float <;> cases hkind
  · trivial

theorem integral_readHex (first p : Position) {marker : Char} (hmark : marker ∈ ['x', 'X'])
    (rest : List Char) : (readHex first p marker rest).All fun t => t.face.Integral := by
  unfold readHex
  dsimp only
  split
  · trivial
  · rename_i hfound
    have hne : rest.takeWhile isHexDigit ≠ [] := fun hnone => hfound (by rw [hnone]; rfl)
    refine ⟨nofun, fun _ => ⟨marker, hmark, _, hne, fun c h => ?_, String.toList_ofList⟩⟩
    exact List.mem_takeWhile_imp h

theorem integral_readToken (o : Options) (c : Char) (p : Position) (rest : List Char) :
    (readToken o c p rest).All fun t => t.face.Integral := by
  refine all_readToken_hex ?_ ?_ ?_ ?_ o c p rest
  · exact fun c p rest _ => ⟨nofun, nofun⟩
  · exact fun c p rest hdigit => integral_readDecimal hdigit p rest
  · exact fun first p marker hmark rest => integral_readHex first p hmark rest
  · refine fun t hother => ⟨fun hkind => absurd hkind ?_, fun hkind => absurd hkind ?_⟩ <;>
      simp_all [Token.face]

end Lexer

theorem integral_of_mem_lex {o : Lexer.Options} {uri source : String} {r : Reporter} {t : Token}
    (hlisted : t ∈ (Lexer.lex o uri source r).1) : t.face.Integral := by
  rw [Lexer.fst_lex] at hlisted
  exact Lexer.forall_runAux (Lexer.integral_readToken o) _ _ t hlisted

theorem Face.Integral.exists_cons {f : Face} (hintegral : f.Integral)
    (hkind : f.kind ∈ [TokenKind.integerDecimal, .integerHex]) :
    ∃ c cs, f.value.toList = c :: cs ∧ Lexer.isHexDigit c = true := by
  rcases List.mem_cons.mp hkind with hdecimal | hhex
  · obtain ⟨hne, hlegal⟩ := hintegral.decimal hdecimal
    obtain ⟨c, cs, hcons⟩ := List.exists_cons_of_ne_nil hne
    exact ⟨c, cs, hcons, (Number.isHexDigit_of_isDigit (hlegal c (by simp [hcons]))).1⟩
  · obtain ⟨marker, -, digits, -, -, hvalue⟩ := hintegral.hex (List.mem_singleton.mp hhex)
    exact ⟨'0', _, hvalue, by decide⟩

/-- The digits of an integer token are read as the number that is written, except for decimal
ones behind a leading zero: these are read in base eight. -/
theorem Face.Integral.magnitude?_written_iff {f : Face} (hintegral : f.Integral)
    (hkind : f.kind ∈ [TokenKind.integerDecimal, .integerHex]) :
    Number.magnitude? f.value.toList = some f.written ↔
      f.kind = .integerHex ∨ f.value.toList.head? ≠ some '0' ∨ f.written < 8 := by
  rcases List.mem_cons.mp hkind with hdecimal | hhex
  · obtain ⟨hne, hlegal⟩ := hintegral.decimal hdecimal
    have hnotHex : f.kind ≠ .integerHex := by simp [hdecimal]
    rw [Face.written, if_neg hnotHex]
    generalize f.value.toList = cs at hne hlegal
    obtain ⟨c, cs, rfl⟩ := List.exists_cons_of_ne_nil hne
    by_cases hzero : c = '0'
    · subst hzero
      have hlegal' : ∀ c ∈ cs, c.isDigit = true := fun c h => hlegal c (List.mem_cons_of_mem _ h)
      rw [Number.magnitude?_zero_iff hlegal']
      simp [hnotHex]
    · have hnoZero : (c :: cs).head? ≠ some '0' := by simpa using hzero
      exact iff_of_true (Number.magnitude?_decimal hne hnoZero hlegal) (.inr (.inl hnoZero))
  · have hhex := List.mem_singleton.mp hhex
    obtain ⟨marker, hmark, digits, hne, hlegal, hvalue⟩ := hintegral.hex hhex
    rw [Face.written, if_pos hhex, hvalue]
    exact iff_of_true (Number.magnitude?_hex hmark hne hlegal) (.inl hhex)

end Source
end ClientGen
