import ClientGen.Number.Decimal

/-! # Finite numbers

Only the infinities and not-a-number have no text. A spelling that is not one of their
names never reads as one of them (`finite_of_float?`): decimal arithmetic on finite
numbers overflows at worst, which reading refuses, and a sign does not change the
exponent.
-/

namespace ClientGen
namespace Number

open Float.Model (UnpackedFloat)
open Float.Model.UnpackedFloat (unpackExponent unpackMantissa packComponents)

/-- A number that is neither an infinity nor not-a-number. -/
def IsFinite (x : Float) : Prop := parts x ≠ .nan ∧ ∀ negative, parts x ≠ .infinite negative

theorem isSome_text?_iff (l : Layout) (x : Float) : (l.text? x).isSome ↔ IsFinite x := by
  unfold Layout.text? IsFinite
  cases parts x <;> simp

/-! ## Words

A word of 64 bits has a sign, eleven bits of exponent and 52 bits of mantissa. -/

def exponentField (x : Float) : BitVec 11 := @unpackExponent .binary64 x.toBits.toBitVec

/-- The mantissa of a word, without the bit in front of it. -/
def mantissaField (x : Float) : BitVec 52 := @unpackMantissa .binary64 x.toBits.toBitVec

theorem toNat_exponentField (x : Float) :
    (exponentField x).toNat = (x.toBits.toNat >>> 52) % 2048 := by
  unfold exponentField unpackExponent
  rw [BitVec.toNat_cast, BitVec.extractLsb_toNat]
  rfl

theorem toNat_mantissaField (x : Float) :
    (mantissaField x).toNat = x.toBits.toNat % (1 <<< 52) := by
  unfold mantissaField unpackMantissa
  rw [BitVec.toNat_cast, BitVec.extractLsb_toNat]
  rfl

theorem isFinite_iff (x : Float) : IsFinite x ↔ exponentField x ≠ -1 := by
  have hfield : exponentField x = -1 ↔ (x.toBits.toNat >>> 52) % 2048 = 2047 := by
    rw [← toNat_exponentField, ← BitVec.toNat_inj]
    rfl
  rw [Ne, hfield]
  constructor
  · rintro ⟨hnan, hinfinite⟩ hfull
    have hparts : parts x = if x.toBits.toNat % (1 <<< 52) = 0 then .infinite _ else .nan :=
      if_pos hfull
    by_cases hzero : x.toBits.toNat % (1 <<< 52) = 0
    · exact hinfinite _ (hparts.trans (if_pos hzero))
    · exact hnan (hparts.trans (if_neg hzero))
  · intro hfull
    have hparts : parts x = if (x.toBits.toNat >>> 52) % 2048 = 0 then
        if x.toBits.toNat % (1 <<< 52) = 0 then .zero _ else .finite _ _
      else .finite _ _ := if_neg hfull
    unfold IsFinite
    rw [hparts]
    split
    · split <;> simp
    · simp

/-- A word that is a number, perhaps an infinite one: with the greatest exponent comes
no mantissa. -/
def IsNumber (x : Float) : Prop := exponentField x = -1 → mantissaField x = 0

theorem IsNumber.isFinite {x : Float} (h : IsNumber x)
    (hinfinite : ∀ negative, parts x ≠ .infinite negative) : IsFinite x := by
  rw [isFinite_iff]
  intro hexponent
  have hfull : (x.toBits.toNat >>> 52) % 2048 = 2047 := by
    rw [← toNat_exponentField, hexponent]
    rfl
  have hzero : x.toBits.toNat % (1 <<< 52) = 0 := by
    rw [← toNat_mantissaField, h hexponent]
    rfl
  refine hinfinite (decide (x.toBits.toNat ≥ 1 <<< 63)) ?_
  unfold parts
  simp only [hfull, hzero, if_true]

/-! ## Packing -/

/-- Zero, or a number whose exponent has room in a word. -/
def Fits : UnpackedFloat → Prop
  | .zero _ => True
  | .finite _ _ e _ => (e + 1023 + 52).toNat + 1 < 2048
  | .infinity _ => False
  | .notANumber => False

theorem fits_unpack {x : Float} (h : IsFinite x) : Fits x.toModel.unpack := by
  have hexponent : ¬ @unpackExponent .binary64 x.toBits.toBitVec = -1#11 := (isFinite_iff x).mp h
  have hbound : (@unpackExponent .binary64 x.toBits.toBitVec).toNat < 2048 :=
    (exponentField x).isLt
  have hfull : (@unpackExponent .binary64 x.toBits.toBitVec).toNat ≠ 2047 :=
    fun heq => hexponent (BitVec.eq_of_toNat_eq heq)
  change Fits (UnpackedFloat.unpack .binary64 x.toBits.toBitVec)
  unfold UnpackedFloat.unpack
  extract_lets m e k
  have hk : k = (e.toNat : Int) - (1023 + 52) := rfl
  change e.toNat < 2048 at hbound
  change e.toNat ≠ 2047 at hfull
  rw [if_neg hexponent]
  by_cases hzero : e = 0#_
  · have he : e.toNat = 0 := congrArg BitVec.toNat hzero
    rw [if_pos hzero]
    by_cases hmantissa : m = 0#_
    · rw [dif_pos hmantissa]
      trivial
    · rw [dif_neg hmantissa]
      change (k + 1 + 1023 + 52).toNat + 1 < 2048
      omega
  · rw [if_neg hzero]
    change (k + 1023 + 52).toNat + 1 < 2048
    omega

theorem Fits.neg {u : UnpackedFloat} (h : Fits u) : Fits u.neg := by
  cases u <;> exact h

theorem isFinite_pack {u : UnpackedFloat} (h : Fits u) : IsFinite ⟨.pack u⟩ := by
  rw [isFinite_iff]
  change @unpackExponent .binary64 (UnpackedFloat.pack .binary64 u) ≠ -1
  cases u with
  | infinity s => exact h.elim
  | notANumber => exact h.elim
  | zero s =>
      have hzero : @unpackExponent .binary64 (UnpackedFloat.pack .binary64 (.zero s)) = 0 :=
        UnpackedFloat.unpackExponent_packComponents
      rw [hzero]
      decide
  | finite s m e hm =>
      have he : (e + 1023 + 52).toNat + 1 < 2048 := h
      unfold UnpackedFloat.pack
      change @unpackExponent .binary64 (if 2 ^ 11 ≤ (e + 1023 + 52).toNat + 1 then _ else _) ≠ _
      rw [if_neg (by omega)]
      split
      · rw [UnpackedFloat.unpackExponent_packComponents]
        intro hfull
        have hfield := congrArg BitVec.toNat hfull
        change (BitVec.ofNat 11 (e + 1023 + 52).toNat).toNat = 2047 at hfield
        rw [BitVec.toNat_ofNat, Nat.mod_eq_of_lt (by omega)] at hfield
        omega
      · rw [UnpackedFloat.unpackExponent_packComponents]
        decide

theorem isNumber_pack {u : UnpackedFloat} (h : u ≠ .notANumber) : IsNumber ⟨.pack u⟩ := by
  have hfits : Fits u → IsNumber ⟨.pack u⟩ := fun hu hexponent =>
    absurd hexponent ((isFinite_iff _).mp (isFinite_pack hu))
  cases u with
  | notANumber => exact absurd rfl h
  | zero s => exact hfits trivial
  | infinity s => exact fun _ => UnpackedFloat.unpackMantissa_packComponents
  | finite s m e hm =>
      by_cases he : (e + 1023 + 52).toNat + 1 < 2048
      · exact hfits he
      · intro _
        have hover : UnpackedFloat.pack .binary64 (.finite s m e hm) =
            UnpackedFloat.packedInfinity .binary64 s := by
          refine if_pos ?_
          change 2 ^ 11 ≤ (e + 1023 + 52).toNat + 1
          omega
        change @unpackMantissa .binary64 (UnpackedFloat.pack .binary64 (.finite s m e hm)) = 0
        rw [hover]
        exact UnpackedFloat.unpackMantissa_packComponents

theorem Fits.ne_nan {u : UnpackedFloat} (h : Fits u) : u ≠ .notANumber := by
  rintro rfl
  exact h

theorem IsNumber.unpack_ne_nan {x : Float} (h : IsNumber x) :
    x.toModel.unpack ≠ .notANumber := by
  by_cases hexponent : @unpackExponent .binary64 x.toBits.toBitVec = -1#11
  · have hmantissa : @unpackMantissa .binary64 x.toBits.toBitVec = 0#52 := h hexponent
    change UnpackedFloat.unpack .binary64 x.toBits.toBitVec ≠ _
    unfold UnpackedFloat.unpack
    extract_lets
    rw [if_pos hexponent, if_pos hmantissa]
    intro hnan
    cases hnan
  · exact (fits_unpack ((isFinite_iff x).mpr hexponent)).ne_nan

theorem IsFinite.neg {x : Float} (h : IsFinite x) : IsFinite (-x) :=
  isFinite_pack (fits_unpack h).neg

/-! ## Arithmetic -/

/-- A finite number other than zero. -/
def IsProper : UnpackedFloat → Bool
  | .finite _ _ _ _ => true
  | _ => false

section Operations

variable {spec : Float.Model.Format} {u v : UnpackedFloat}

theorem dite_ne_nan {p : Prop} [Decidable p] {a : p → UnpackedFloat} {b : ¬p → UnpackedFloat}
    (ha : ∀ h, a h ≠ .notANumber) (hb : ∀ h, b h ≠ .notANumber) : dite p a b ≠ .notANumber := by
  by_cases h : p
  · rw [dif_pos h]
    exact ha h
  · rw [dif_neg h]
    exact hb h

theorem ite_ne_nan {p : Prop} [Decidable p] {a b : UnpackedFloat} (ha : a ≠ .notANumber)
    (hb : b ≠ .notANumber) : ite p a b ≠ .notANumber :=
  dite_ne_nan (fun _ => ha) fun _ => hb

theorem round_ne_nan (s : UnpackedFloat.Sign) (m : Nat) (e : Int) (a : UnpackedFloat.Accuracy) :
    UnpackedFloat.roundWithAccuracy spec s m e a ≠ .notANumber :=
  dite_ne_nan (fun _ => UnpackedFloat.noConfusion) fun _ => UnpackedFloat.noConfusion

theorem mul_ne_nan (hu : u ≠ .notANumber) (hv : IsProper v = true) :
    UnpackedFloat.mul spec u v ≠ .notANumber := by
  cases v with
  | notANumber => cases hv
  | infinity _ => cases hv
  | zero _ => cases hv
  | finite _ _ _ _ =>
      cases u with
      | notANumber => exact absurd rfl hu
      | infinity _ => exact UnpackedFloat.noConfusion
      | zero _ => exact UnpackedFloat.noConfusion
      | finite _ _ _ _ => exact round_ne_nan _ _ _ _

theorem div_ne_nan (hu : u ≠ .notANumber) (hv : IsProper v = true) :
    UnpackedFloat.div spec u v ≠ .notANumber := by
  cases v with
  | notANumber => cases hv
  | infinity _ => cases hv
  | zero _ => cases hv
  | finite _ _ _ _ =>
      cases u with
      | notANumber => exact absurd rfl hu
      | infinity _ => exact UnpackedFloat.noConfusion
      | zero _ => exact UnpackedFloat.noConfusion
      | finite _ _ _ _ => exact round_ne_nan _ _ _ _

theorem ofNat_ne_nan (n : Nat) : UnpackedFloat.ofNat spec n ≠ .notANumber := by
  unfold UnpackedFloat.ofNat UnpackedFloat.ofInt UnpackedFloat.normalize UnpackedFloat.round
  dsimp only
  split
  · exact round_ne_nan _ _ _ _
  · simp
  · exact round_ne_nan _ _ _ _

theorem ofScientific_ne_nan (m : Nat) (e : Int) :
    UnpackedFloat.ofScientific spec m e ≠ .notANumber := by
  unfold UnpackedFloat.ofScientific
  refine dite_ne_nan (fun _ => UnpackedFloat.noConfusion) fun hm => ?_
  refine ite_ne_nan UnpackedFloat.noConfusion (ite_ne_nan UnpackedFloat.noConfusion ?_)
  refine ite_ne_nan ?_ ?_
  · exact mul_ne_nan UnpackedFloat.noConfusion rfl
  · exact div_ne_nan UnpackedFloat.noConfusion rfl

end Operations

theorem isProper_powerOfTen : ∀ n : Fin 23,
    IsProper (Float.exactlyRepresentablePowersOfTen[n]).toModel.unpack = true := by
  decide

theorem isNumber_ofScientific (m : Nat) (small : Bool) (e : Nat) :
    IsNumber (Float.ofScientific m small e) := by
  unfold Float.ofScientific
  split
  · rename_i h
    have hpower := isProper_powerOfTen ⟨e, by omega⟩
    have hnumber : IsNumber m.toUInt64.toFloat := isNumber_pack (ofNat_ne_nan _)
    dsimp only
    split
    · exact isNumber_pack (div_ne_nan hnumber.unpack_ne_nan hpower)
    · exact isNumber_pack (mul_ne_nan hnumber.unpack_ne_nan hpower)
  · exact isNumber_pack (ofScientific_ne_nan _ _)

/-! ## Spellings -/

theorem isNumber_ofDecimal (m : Nat) (e : Int) : IsNumber (ofDecimal m e) := by
  unfold ofDecimal
  split
  · exact isNumber_ofScientific _ _ _
  · exact isNumber_ofScientific _ _ _

theorem isNumber_of_unsigned? {cs : List Char} {x : Float} (h : unsigned? cs = some x) :
    IsNumber x := by
  unfold unsigned? at h
  split at h
  rename_i hex body _
  split at h
  rename_i m rest _
  obtain ⟨-, h⟩ := Option.ite_none_left_eq_some.mp h
  obtain ⟨⟨e, left⟩, -, h⟩ := Option.bind_eq_some_iff.mp h
  obtain ⟨-, h⟩ := Option.ite_none_left_eq_some.mp h
  obtain ⟨-, h⟩ := Option.ite_none_left_eq_some.mp h
  cases hex with
  | false =>
      obtain rfl := Option.some.inj h
      exact isNumber_ofDecimal _ _
  | true =>
      obtain ⟨e, -, h⟩ := Option.bind_eq_some_iff.mp h
      split at h
      · obtain rfl := Option.some.inj h
        exact fun hexponent => absurd hexponent (by decide)
      · dsimp only at h
        split at h <;> obtain rfl := Option.some.inj h <;> exact isNumber_ofDecimal _ _

/-- A spelling that is no name of an infinity or of not-a-number reads as a finite
number, if it reads as a number. -/
theorem finite_of_float? {s : String} {x : Float} (hs : special? s = none)
    (h : float? s = some x) : IsFinite x := by
  unfold float? at h
  rw [hs] at h
  dsimp only at h
  obtain ⟨y, hy, h⟩ := Option.bind_eq_some_iff.mp h
  have hnumber := isNumber_of_unsigned? hy
  split at h
  · cases h
  · rename_i hinfinite
    have hfinite : IsFinite y := hnumber.isFinite hinfinite
    obtain rfl := Option.some.inj h
    split
    · exact hfinite.neg
    · exact hfinite

end Number
end ClientGen
