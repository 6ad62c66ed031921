import Mathlib

/-!
# The parts of floating-point numbers

A floating-point number is stored in 64 bits, and its arithmetic is that of its parts: a
NaN, an infinity, a zero or a mantissa with an exponent, each but the first with a sign.
Of the mantissas and exponents with one value only the canonical ones are stored: the
mantissa has all of its 53 digits, or the exponent is the least one.

Numbers with the same parts are the same (`ext_parts`). What is stored has the parts it was
made of, up to the largest exponent (`parts_ofParts`).
-/

set_option autoImplicit false

namespace Waveform.Binary64

open Float.Model Float.Model.UnpackedFloat

/-- The parts of a number. -/
def parts (x : Float) : UnpackedFloat :=
  x.toModel.unpack

/-- The number that is stored for parts. -/
def ofParts (u : UnpackedFloat) : Float :=
  ⟨Float.Model.pack u⟩

/-! ## Canonical parts -/

/-- Whether a mantissa and an exponent are those that are stored for their value, leaving
aside that the exponent may be too large. -/
structure IsCanonical (mantissa : Nat) (exponent : Int) : Prop where
  positive : 0 < mantissa
  fits : mantissa < 2 ^ 53
  lowest : -1074 ≤ exponent
  full : 2 ^ 52 ≤ mantissa ∨ exponent = -1074

/-- Whether parts are canonical, where they have a mantissa. -/
def Canonical : UnpackedFloat → Prop
  | .finite _ mantissa exponent _ => IsCanonical mantissa exponent
  | _ => True

/-- Parts whose exponent is at most the largest one, or an infinity instead of them. -/
def bounded : UnpackedFloat → UnpackedFloat
  | .finite sign mantissa exponent positive =>
    if 971 < exponent then .infinity sign else .finite sign mantissa exponent positive
  | u => u

/-! ## Storing parts -/

@[simp]
theorem ofBitVec_toBitVec (sign : Sign) : Sign.ofBitVec sign.toBitVec = sign := by
  cases sign <;> rfl

theorem toBitVec_ofBitVec (bit : BitVec 1) : (Sign.ofBitVec bit).toBitVec = bit := by
  revert bit
  decide

@[simp]
theorem unpackSign_packComponents {spec : Format} (sign : Sign)
    (exponent : BitVec spec.exponentBits) (mantissa : BitVec spec.mantissaBitsWithoutImplicit) :
    unpackSign (packComponents spec sign exponent mantissa) = sign.toBitVec := by
  apply BitVec.eq_of_getLsbD_eq
  intro i small
  have first : i = 0 := by omega
  subst first
  simp [unpackSign, packComponents, BitVec.getLsbD_append, BitVec.getElem_append]

/-- The bits of a number are those of its three fields. -/
theorem packComponents_unpack (bits : BitVec Format.binary64.numBits) :
    packComponents Format.binary64 (Sign.ofBitVec (unpackSign bits)) (unpackExponent bits)
      (unpackMantissa bits) = bits := by
  simp only [packComponents, toBitVec_ofBitVec, unpackSign, unpackExponent, unpackMantissa,
    BitVec.extractLsb]
  ext i small
  grind

/-- The first digit of a full mantissa is not stored. -/
theorem toNat_implicit (mantissa : BitVec 52) :
    (1#1 ++ mantissa).toNat = 2 ^ 52 + mantissa.toNat := by
  rw [BitVec.toNat_append, ← Nat.shiftLeft_add_eq_or_of_lt mantissa.isLt]
  rfl

theorem log2_of_normal {mantissa : Nat} (full : 2 ^ 52 ≤ mantissa) (fits : mantissa < 2 ^ 53) :
    mantissa.log2 = 52 :=
  (Nat.log2_eq_iff (by omega)).mpr ⟨full, fits⟩

theorem log2_of_subnormal {mantissa : Nat} (positive : 0 < mantissa) (small : mantissa < 2 ^ 52) :
    mantissa.log2 < 52 :=
  (Nat.log2_lt (by omega)).mpr small

theorem bias_eq : ((Format.binary64.exponentBias : Nat) : Int) = 1023 := rfl

section Pack

variable {sign : Sign} {mantissa : Nat} {exponent : Int} {positive : 0 < mantissa}

/-- The exponent as it is stored. -/
theorem biased_eq (exponent : Int) :
    (exponent + Format.binary64.exponentBias + (52 : Nat)).toNat = (exponent + 1075).toNat := by
  change (exponent + 1023 + 52).toNat = _
  omega

theorem pack_large (large : 971 < exponent) :
    UnpackedFloat.pack .binary64 (.finite sign mantissa exponent positive) =
      packedInfinity .binary64 sign := by
  have beyond : 2 ^ 11 ≤ (exponent + 1075).toNat + 1 := by omega
  simp only [UnpackedFloat.pack, biased_eq]
  exact if_pos beyond

theorem pack_normal (canonical : IsCanonical mantissa exponent) (small : exponent ≤ 971)
    (full : 2 ^ 52 ≤ mantissa) :
    UnpackedFloat.pack .binary64 (.finite sign mantissa exponent positive) =
      packComponents .binary64 sign (BitVec.ofNat 11 (exponent + 1075).toNat)
        (BitVec.ofNat 52 mantissa) := by
  have within : ¬ 2 ^ 11 ≤ (exponent + 1075).toNat + 1 := by
    have lowest := canonical.lowest
    omega
  have digits : mantissa.log2 + 1 = Format.binary64.mantissaBits := by
    rw [log2_of_normal full canonical.fits]
    rfl
  simp only [UnpackedFloat.pack, biased_eq]
  rw [if_neg within, if_pos digits]

theorem pack_subnormal (small : mantissa < 2 ^ 52) (least : exponent = -1074) :
    UnpackedFloat.pack .binary64 (.finite sign mantissa exponent positive) =
      packComponents .binary64 sign 0#11 (BitVec.ofNat 52 mantissa) := by
  subst least
  have digits : ¬ mantissa.log2 + 1 = Format.binary64.mantissaBits := by
    have few := log2_of_subnormal positive small
    change ¬ mantissa.log2 + 1 = 53
    omega
  simp only [UnpackedFloat.pack, biased_eq]
  rw [if_neg (by decide), if_neg digits]

theorem unpack_normal {field : BitVec 11} {stored : BitVec 52} (notLargest : field ≠ -1#11)
    (notLeast : field ≠ 0#11) (same : 2 ^ 52 + stored.toNat = mantissa)
    (biased : (field.toNat : Int) - 1075 = exponent) :
    UnpackedFloat.unpack .binary64 (packComponents .binary64 sign field stored) =
      .finite sign mantissa exponent positive := by
  have digits := (toNat_implicit stored).trans same
  subst biased
  simp only [UnpackedFloat.unpack, unpackMantissa_packComponents, unpackExponent_packComponents,
    unpackSign_packComponents, ofBitVec_toBitVec, if_neg notLargest, if_neg notLeast, bias_eq]
  congr 1

theorem unpack_subnormal {stored : BitVec 52} (notZero : stored ≠ 0#52)
    (same : stored.toNat = mantissa) (least : exponent = -1074) :
    UnpackedFloat.unpack .binary64 (packComponents .binary64 sign 0#11 stored) =
      .finite sign mantissa exponent positive := by
  subst same least
  simp only [UnpackedFloat.unpack, unpackMantissa_packComponents, unpackExponent_packComponents,
    unpackSign_packComponents, ofBitVec_toBitVec, dif_neg notZero, bias_eq]
  rfl

end Pack

/-- **What is stored has the parts it was made of**, with an infinity instead of a mantissa
whose exponent is too large. -/
theorem parts_ofParts {u : UnpackedFloat} (canonical : Canonical u) :
    parts (ofParts u) = bounded u := by
  cases u with
  | notANumber => rfl
  | infinity sign => cases sign <;> rfl
  | zero sign => cases sign <;> rfl
  | finite sign mantissa exponent positive =>
    have canonical : IsCanonical mantissa exponent := canonical
    obtain ⟨_, fits, lowest, full⟩ := canonical
    change UnpackedFloat.unpack .binary64 (UnpackedFloat.pack .binary64
      (.finite sign mantissa exponent positive)) = _
    by_cases large : 971 < exponent
    · rw [pack_large large, bounded, if_pos large]
      cases sign <;> rfl
    · rw [bounded, if_neg large]
      by_cases normal : 2 ^ 52 ≤ mantissa
      · have field : (BitVec.ofNat 11 (exponent + 1075).toNat).toNat = (exponent + 1075).toNat := by
          rw [BitVec.toNat_ofNat, Nat.mod_eq_of_lt (by omega)]
        rw [pack_normal ⟨positive, fits, lowest, full⟩ (by omega) normal]
        refine unpack_normal ?_ ?_ ?_ ?_
        · intro largest
          have value := congrArg BitVec.toNat largest
          rw [field] at value
          have value : (exponent + 1075).toNat = 2047 := value
          omega
        · intro least
          have value := congrArg BitVec.toNat least
          rw [field] at value
          have value : (exponent + 1075).toNat = 0 := value
          omega
        · rw [BitVec.toNat_ofNat]
          omega
        · rw [field]
          omega
      · have least : exponent = -1074 := by omega
        have stored : (BitVec.ofNat 52 mantissa).toNat = mantissa := by
          rw [BitVec.toNat_ofNat, Nat.mod_eq_of_lt (by omega)]
        rw [pack_subnormal (by omega) least]
        refine unpack_subnormal ?_ stored least
        intro zero
        have value := congrArg BitVec.toNat zero
        rw [stored] at value
        have value : mantissa = 0 := value
        omega

/-- A mantissa is stored with its exponent, if that is not too large. -/
theorem parts_ofParts_finite {sign : Sign} {mantissa : Nat} {exponent : Int}
    (canonical : IsCanonical mantissa exponent) (small : exponent ≤ 971) :
    parts (ofParts (.finite sign mantissa exponent canonical.positive)) =
      .finite sign mantissa exponent canonical.positive := by
  have stored : Canonical (.finite sign mantissa exponent canonical.positive) := canonical
  rw [parts_ofParts stored, bounded, if_neg (by omega)]

/-! ## Reading parts off -/

/-- A pattern of bits is that of an infinity or a NaN, of a zero, of a number with a small
mantissa, or of one with a full mantissa. -/
theorem unpack_cases (bits : BitVec Format.binary64.numBits) :
    (unpackExponent bits = -1#11 ∧
      UnpackedFloat.unpack .binary64 bits =
        if unpackMantissa bits = 0#52 then .infinity (Sign.ofBitVec (unpackSign bits))
        else .notANumber) ∨
    (unpackExponent bits = 0#11 ∧ unpackMantissa bits = 0#52 ∧
      UnpackedFloat.unpack .binary64 bits = .zero (Sign.ofBitVec (unpackSign bits))) ∨
    (unpackExponent bits = 0#11 ∧ ∃ positive : 0 < (unpackMantissa bits).toNat,
      UnpackedFloat.unpack .binary64 bits =
        .finite (Sign.ofBitVec (unpackSign bits)) (unpackMantissa bits).toNat (-1074) positive) ∨
    ((unpackExponent bits).toNat ≠ 0 ∧ (unpackExponent bits).toNat < 2047 ∧
      ∃ positive : 0 < 2 ^ 52 + (unpackMantissa bits).toNat,
        UnpackedFloat.unpack .binary64 bits =
          .finite (Sign.ofBitVec (unpackSign bits)) (2 ^ 52 + (unpackMantissa bits).toNat)
            ((unpackExponent bits).toNat - 1075) positive) := by
  by_cases largest : unpackExponent bits = -1#11
  · exact .inl ⟨largest, if_pos largest⟩
  by_cases least : unpackExponent bits = 0#11
  · by_cases zero : unpackMantissa bits = 0#52
    · refine .inr (.inl ⟨least, zero, ?_⟩)
      exact (if_neg largest).trans ((if_pos least).trans (dif_pos zero))
    · have positive : 0 < (unpackMantissa bits).toNat :=
        Nat.pos_of_ne_zero fun value => zero (BitVec.eq_of_toNat_eq value)
      refine .inr (.inr (.inl ⟨least, positive, ?_⟩))
      have read : UnpackedFloat.unpack .binary64 (packComponents .binary64
          (Sign.ofBitVec (unpackSign bits)) 0#11 (unpackMantissa bits)) =
          .finite (Sign.ofBitVec (unpackSign bits)) (unpackMantissa bits).toNat (-1074) positive :=
        unpack_subnormal zero rfl rfl
      rwa [← least, packComponents_unpack] at read
  · have notLargest : (unpackExponent bits).toNat ≠ 2047 :=
      fun value => largest (BitVec.eq_of_toNat_eq value)
    have notLeast : (unpackExponent bits).toNat ≠ 0 :=
      fun value => least (BitVec.eq_of_toNat_eq value)
    have range : (unpackExponent bits).toNat < 2048 := (unpackExponent bits).isLt
    refine .inr (.inr (.inr ⟨notLeast, by omega, by omega, ?_⟩))
    have read : UnpackedFloat.unpack .binary64 (packComponents .binary64
        (Sign.ofBitVec (unpackSign bits)) (unpackExponent bits) (unpackMantissa bits)) =
        .finite (Sign.ofBitVec (unpackSign bits)) (2 ^ 52 + (unpackMantissa bits).toNat)
          ((unpackExponent bits).toNat - 1075) (by omega) :=
      unpack_normal largest least rfl rfl
    rwa [packComponents_unpack] at read

theorem canonical_unpack (bits : BitVec Format.binary64.numBits) :
    Canonical (UnpackedFloat.unpack .binary64 bits) ∧
      bounded (UnpackedFloat.unpack .binary64 bits) = UnpackedFloat.unpack .binary64 bits := by
  have stored : (unpackMantissa bits).toNat < 2 ^ 52 := (unpackMantissa bits).isLt
  rcases unpack_cases bits with
    ⟨_, same⟩ | ⟨_, _, same⟩ | ⟨_, positive, same⟩ | ⟨notLeast, notLargest, positive, same⟩
  · rw [same]
    split <;> exact ⟨trivial, rfl⟩
  · rw [same]
    exact ⟨trivial, rfl⟩
  · rw [same]
    exact ⟨⟨positive, by omega, by omega, .inr rfl⟩, rfl⟩
  · rw [same]
    exact ⟨⟨positive, by omega, by omega, .inl (by omega)⟩, if_neg (by omega)⟩

/-- A pattern of bits is stored for its parts, since there is but one for a NaN. -/
theorem pack_unpack {bits : BitVec Format.binary64.numBits} (valid : Format.binary64.Valid bits) :
    UnpackedFloat.pack .binary64 (UnpackedFloat.unpack .binary64 bits) = bits := by
  have whole := packComponents_unpack bits
  have stored : (unpackMantissa bits).toNat < 2 ^ 52 := (unpackMantissa bits).isLt
  rcases unpack_cases bits with
    ⟨largest, same⟩ | ⟨least, zero, same⟩ | ⟨least, positive, same⟩ |
      ⟨notLeast, notLargest, positive, same⟩
  · rw [same]
    split
    · next zero =>
      rw [largest, zero] at whole
      exact whole
    · next notZero => exact (valid.eq_packedNaN largest notZero).symm
  · rw [same]
    rw [least, zero] at whole
    exact whole
  · rw [same, pack_subnormal stored rfl, BitVec.ofNat_toNat, BitVec.setWidth_eq, ← least]
    exact whole
  · have canonical : IsCanonical (2 ^ 52 + (unpackMantissa bits).toNat)
        ((unpackExponent bits).toNat - 1075) :=
      ⟨positive, by omega, by omega, .inl (by omega)⟩
    have field : BitVec.ofNat 11 (((unpackExponent bits).toNat : Int) - 1075 + 1075).toNat =
        unpackExponent bits := by
      rw [Int.sub_add_cancel, Int.toNat_natCast, BitVec.ofNat_toNat, BitVec.setWidth_eq]
    have rest : BitVec.ofNat 52 (2 ^ 52 + (unpackMantissa bits).toNat) = unpackMantissa bits := by
      refine BitVec.eq_of_toNat_eq ?_
      rw [BitVec.toNat_ofNat]
      omega
    rw [same, pack_normal canonical (by omega) (by omega), field, rest]
    exact whole

/-- The parts of a number are canonical, and their exponent is not too large. -/
theorem canonical_parts (x : Float) : Canonical (parts x) ∧ bounded (parts x) = parts x :=
  canonical_unpack _

/-- **A number is stored for its parts.** -/
theorem ofParts_parts (x : Float) : ofParts (parts x) = x := by
  obtain ⟨⟨bits, valid⟩⟩ := x
  have same : UnpackedFloat.pack .binary64 (UnpackedFloat.unpack .binary64 bits.toBitVec) =
      bits.toBitVec := pack_unpack valid
  simp only [ofParts, parts, Float.Model.pack, Float.Model.unpack, same]

/-- Numbers with the same parts are the same. -/
theorem ext_parts {x y : Float} (same : parts x = parts y) : x = y := by
  rw [← ofParts_parts x, same, ofParts_parts y]

end Waveform.Binary64
