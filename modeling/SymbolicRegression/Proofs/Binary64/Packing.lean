import Mathlib

/-!
# Packed and unpacked binary64 numbers

A finite number is a sign, a significand below `2 ^ 53` and an exponent from `-1074` to `971`; the
significand has its top bit set unless the exponent is the least one. That form is unique, so
packing it into bits and unpacking the bits again lose nothing.
-/
namespace SymbolicRegression.Binary64

open Float.Model Float.Model.UnpackedFloat

@[simp] theorem exponentBias_eq : Format.binary64.exponentBias = 1023 := rfl

@[simp] theorem mantissaBits_eq : Format.binary64.mantissaBits = 53 := rfl

theorem targetExponent_eq (t : ℤ) : Format.binary64.targetExponent t = max (t - 53) (-1074) := rfl

/-- A significand and an exponent in the one form that binary64 numbers have, but for the greatest
exponent. -/
structure IsCanonical (m : ℕ) (q : ℤ) : Prop where
  lt : m < 2 ^ 53
  least : -1074 ≤ q
  normal : 2 ^ 52 ≤ m ∨ q = -1074

/-- The greatest exponent of a finite number. -/
def maxExponent : ℤ := 971

@[simp] theorem toBitVec_ofBitVec (v : BitVec 1) : (Sign.ofBitVec v).toBitVec = v := by
  revert v
  decide

@[simp] theorem ofBitVec_toBitVec (s : Sign) : Sign.ofBitVec s.toBitVec = s := by
  cases s <;> rfl

@[simp] theorem unpackSign_packComponents (s : Sign) (e : BitVec 11) (m : BitVec 52) :
    unpackSign (packComponents .binary64 s e m) = s.toBitVec := by
  apply BitVec.eq_of_getLsbD_eq
  intro i hi
  have first : i = 0 := by omega
  subst first
  simp only [unpackSign, packComponents, BitVec.getLsbD_cast, BitVec.getLsbD_extractLsb]
  rw [BitVec.getLsbD_append, BitVec.getLsbD_append]
  simp

theorem components_eta (b : BitVec Format.binary64.numBits) :
    packComponents .binary64 (Sign.ofBitVec (unpackSign b)) (unpackExponent b) (unpackMantissa b)
      = b := by
  unfold packComponents
  rw [toBitVec_ofBitVec]
  apply BitVec.eq_of_getLsbD_eq
  intro i hi
  simp only [unpackSign, unpackExponent, unpackMantissa, BitVec.getLsbD_append,
    BitVec.getLsbD_cast, BitVec.getLsbD_extractLsb]
  change i < 64 at hi
  by_cases low : i < 52
  · simp [low]
  · by_cases middle : i < 63
    · simp [low, show i - 52 < 11 by omega, show 52 + (i - 52) = i by omega]
    · have top : i = 63 := by omega
      subst top
      simp only [Nat.lt_irrefl, decide_false]
      rfl

theorem toNat_append_one (m : BitVec 52) : (1#1 ++ m).toNat = 2 ^ 52 + m.toNat := by
  rw [BitVec.toNat_append, ← Nat.shiftLeft_add_eq_or_of_lt m.isLt]
  simp [Nat.shiftLeft_eq]

/-- The significand and the exponent of a finite number that has been unpacked. -/
theorem canonical_of_unpack {b : BitVec Format.binary64.numBits} {s : Sign} {m : ℕ} {q : ℤ}
    {h : 0 < m} (hb : UnpackedFloat.unpack .binary64 b = .finite s m q h) :
    IsCanonical m q ∧ q ≤ maxExponent := by
  have hm := (unpackMantissa b : BitVec 52).isLt
  have he := (unpackExponent b : BitVec 11).isLt
  unfold UnpackedFloat.unpack at hb
  simp only [exponentBias_eq] at hb
  split_ifs at hb with infinite none zero mantissa
  · simp only [UnpackedFloat.finite.injEq] at hb
    obtain ⟨-, rfl, rfl⟩ := hb
    have exponent : (unpackExponent b : BitVec 11).toNat = 0 := by rw [zero]; rfl
    refine ⟨⟨?_, ?_, .inr ?_⟩, ?_⟩
    · exact hm.trans (by norm_num)
    all_goals
      simp only [exponent, maxExponent]
      norm_num
  · simp only [UnpackedFloat.finite.injEq] at hb
    obtain ⟨-, rfl, rfl⟩ := hb
    have positive : (unpackExponent b : BitVec 11).toNat ≠ 0 := fun h =>
      zero (BitVec.eq_of_toNat_eq h)
    have bounded : (unpackExponent b : BitVec 11).toNat ≠ 2047 := fun h =>
      infinite (BitVec.eq_of_toNat_eq h)
    change _ < 2 ^ 52 at hm
    change _ < 2 ^ 11 at he
    change IsCanonical (1#1 ++ (unpackMantissa b : BitVec 52)).toNat _ ∧ _
    rw [toNat_append_one]
    unfold maxExponent
    push_cast
    exact ⟨⟨by omega, by omega, .inl (by omega)⟩, by omega⟩

theorem pack_unpack {b : BitVec Format.binary64.numBits} (valid : Format.binary64.Valid b) :
    UnpackedFloat.pack .binary64 (UnpackedFloat.unpack .binary64 b) = b := by
  have hm := (unpackMantissa b : BitVec 52).isLt
  have he := (unpackExponent b : BitVec 11).isLt
  have eta := components_eta b
  unfold UnpackedFloat.unpack
  simp only [exponentBias_eq]
  split_ifs with infinite none zero mantissa
  · rw [infinite, none] at eta
    exact eta
  · exact (valid.eq_packedNaN infinite none).symm
  · rw [zero, mantissa] at eta
    exact eta
  · have exponent : (unpackExponent b : BitVec 11).toNat = 0 := by rw [zero]; rfl
    have small : (unpackMantissa b : BitVec 52).toNat.log2 < 52 :=
      (Nat.log2_lt (fun h => mantissa (BitVec.eq_of_toNat_eq h))).mpr hm
    simp only [UnpackedFloat.pack, exponent, exponentBias_eq, mantissaBits_eq]
    rw [if_neg (by norm_num), if_neg (by omega)]
    rw [zero] at eta
    simpa using eta
  · have positive : (unpackExponent b : BitVec 11).toNat ≠ 0 := fun h =>
      zero (BitVec.eq_of_toNat_eq h)
    have bounded : (unpackExponent b : BitVec 11).toNat ≠ 2047 := fun h =>
      infinite (BitVec.eq_of_toNat_eq h)
    change _ < 2 ^ 11 at he
    change _ < 2 ^ 52 at hm
    have value : (1#1 ++ (unpackMantissa b : BitVec 52)).toNat
        = 2 ^ 52 + (unpackMantissa b : BitVec 52).toNat := toNat_append_one _
    have log : (1#1 ++ (unpackMantissa b : BitVec 52)).toNat.log2 = 52 := by
      rw [value]
      exact (Nat.log2_eq_iff (by omega)).mpr ⟨by omega, by omega⟩
    have restored : BitVec.ofNat 52 (1#1 ++ (unpackMantissa b : BitVec 52)).toNat
        = unpackMantissa b := by
      apply BitVec.eq_of_toNat_eq
      rw [BitVec.toNat_ofNat, value]
      omega
    have biased : (((unpackExponent b : BitVec 11).toNat : ℤ) - 1075 + 1023 + 52).toNat
        = (unpackExponent b : BitVec 11).toNat := by omega
    simp only [UnpackedFloat.pack, exponentBias_eq, mantissaBits_eq]
    push_cast
    rw [biased, if_neg (by omega), if_pos (by rw [log]), restored,
      BitVec.ofNat_toNat, BitVec.setWidth_eq]
    exact eta

@[simp] theorem unpack_packedInfinity (s : Sign) :
    UnpackedFloat.unpack .binary64 (packedInfinity .binary64 s) = .infinity s := by
  cases s <;> rfl

@[simp] theorem unpack_packedZero (s : Sign) :
    UnpackedFloat.unpack .binary64 (packedZero .binary64 s) = .zero s := by
  cases s <;> rfl

/-- A significand whose top bit is set is stored without that bit. -/
theorem unpack_pack_normal {s : Sign} {m : ℕ} {q : ℤ} {h : 0 < m} (c : IsCanonical m q)
    (top : 2 ^ 52 ≤ m) (hq : q ≤ maxExponent) :
    UnpackedFloat.unpack .binary64 (UnpackedFloat.pack .binary64 (.finite s m q h))
      = .finite s m q h := by
  have lt := c.lt
  have least := c.least
  unfold maxExponent at hq
  have log : m.log2 = 52 := (Nat.log2_eq_iff (by omega)).mpr ⟨top, by omega⟩
  have packed : UnpackedFloat.pack .binary64 (.finite s m q h) = packComponents .binary64 s
      (BitVec.ofNat 11 (q + 1023 + 52).toNat) (BitVec.ofNat 52 m) := by
    simp only [UnpackedFloat.pack, exponentBias_eq, mantissaBits_eq]
    push_cast
    rw [if_neg (by norm_num; omega), if_pos (by rw [log])]
  have exponent : (BitVec.ofNat 11 (q + 1023 + 52).toNat).toNat = (q + 1075).toNat := by
    rw [BitVec.toNat_ofNat]
    omega
  have mantissa : (1#1 ++ BitVec.ofNat 52 m).toNat = m := by
    rw [toNat_append_one, BitVec.toNat_ofNat]
    omega
  have infinite : BitVec.ofNat 11 (q + 1023 + 52).toNat ≠ -1#11 := fun h => by
    have := congrArg BitVec.toNat h
    rw [exponent] at this
    change _ = 2047 at this
    omega
  have zero : BitVec.ofNat 11 (q + 1023 + 52).toNat ≠ 0#11 := fun h => by
    have := congrArg BitVec.toNat h
    rw [exponent] at this
    change _ = 0 at this
    omega
  rw [packed]
  simp only [UnpackedFloat.unpack, unpackExponent_packComponents, unpackMantissa_packComponents,
    unpackSign_packComponents, ofBitVec_toBitVec, exponentBias_eq]
  rw [if_neg infinite, if_neg zero]
  simp only [mantissa, exponent, UnpackedFloat.finite.injEq, true_and]
  push_cast
  omega

/-- A significand without the top bit has the least exponent, which is not stored. -/
theorem unpack_pack_subnormal {s : Sign} {m : ℕ} {h : 0 < m} (small : m < 2 ^ 52) :
    UnpackedFloat.unpack .binary64 (UnpackedFloat.pack .binary64 (.finite s m (-1074) h))
      = .finite s m (-1074) h := by
  have log : m.log2 < 52 := (Nat.log2_lt (by omega)).mpr small
  have packed : UnpackedFloat.pack .binary64 (.finite s m (-1074) h) = packComponents .binary64 s
      0#11 (BitVec.ofNat 52 m) := by
    simp only [UnpackedFloat.pack, exponentBias_eq, mantissaBits_eq]
    push_cast
    rw [if_neg (by omega)]
  have mantissa : (BitVec.ofNat 52 m).toNat = m := by
    rw [BitVec.toNat_ofNat]
    omega
  have positive : BitVec.ofNat 52 m ≠ 0#52 := fun h => by
    have := congrArg BitVec.toNat h
    rw [mantissa] at this
    change _ = 0 at this
    omega
  rw [packed]
  simp only [UnpackedFloat.unpack, unpackExponent_packComponents, unpackMantissa_packComponents,
    unpackSign_packComponents, ofBitVec_toBitVec, exponentBias_eq]
  rw [if_neg (by decide), if_pos trivial, dif_neg positive]
  simp only [mantissa, UnpackedFloat.finite.injEq, true_and]
  norm_num

/-- What fits binary64 comes back from its bits. -/
theorem unpack_pack {s : Sign} {m : ℕ} {q : ℤ} {h : 0 < m} (c : IsCanonical m q)
    (hq : q ≤ maxExponent) :
    UnpackedFloat.unpack .binary64 (UnpackedFloat.pack .binary64 (.finite s m q h))
      = .finite s m q h := by
  by_cases top : 2 ^ 52 ≤ m
  · exact unpack_pack_normal c top hq
  · obtain rfl := c.normal.resolve_left top
    exact unpack_pack_subnormal (by omega)

/-- A greater exponent does not fit, and becomes infinity. -/
theorem pack_of_maxExponent_lt {s : Sign} {m : ℕ} {q : ℤ} {h : 0 < m} (hq : maxExponent < q) :
    UnpackedFloat.pack .binary64 (.finite s m q h) = packedInfinity .binary64 s := by
  unfold maxExponent at hq
  simp only [UnpackedFloat.pack, exponentBias_eq]
  push_cast
  rw [if_pos (by omega)]

end SymbolicRegression.Binary64
