import LiveDoc.Proofs.Binary64.Nearest
import Mathlib.Tactic.Ring

/-!
The floating-point number that an integer of 64 bits is converted to, and how two of them are
compared. A conversion, a product by one and a change of the sign all keep a mantissa of 53 bits
that begins with a one, with the exponent that belongs to it; of such numbers the one with the
larger exponent is the larger one, and in the end they are ordered as the integers they stand for.
-/
namespace LiveDoc.Binary64

open Float.Model Float.Model.UnpackedFloat

/-! ### Rounding a mantissa -/

/-- What is left of a mantissa behind `k` shifts by one bit: the bit behind it tells whether at
least half is cut off, and the sticky bit whether it is anything but half or nothing. -/
structure Follows (em : ExtendedMantissa) (n k : Nat) : Prop where
  mantissa : em.mantissa = n / 2 ^ k
  half : em.roundBit = true ↔ 2 ^ k ≤ 2 * (n % 2 ^ k)
  rest : em.stickyBit = true ↔ n % 2 ^ k ≠ 0 ∧ 2 * (n % 2 ^ k) ≠ 2 ^ k

theorem Follows.shiftRightOne {em : ExtendedMantissa} {n k : Nat} (h : Follows em n k) :
    Follows em.shiftRightOne n (k + 1) := by
  obtain ⟨hmantissa, hhalf, hrest⟩ := h
  have hpos : 0 < 2 ^ k := Nat.two_pow_pos k
  have hlt : n % 2 ^ k < 2 ^ k := Nat.mod_lt _ hpos
  have hsplit : n % 2 ^ (k + 1) = n % 2 ^ k + 2 ^ k * (n / 2 ^ k % 2) := by
    rw [Nat.pow_succ, Nat.mod_mul]
  have hdouble : 2 ^ (k + 1) = 2 * 2 ^ k := Nat.pow_succ'
  have hbit : n / 2 ^ k % 2 = 0 ∨ n / 2 ^ k % 2 = 1 := by omega
  refine ⟨?_, ?_, ?_⟩
  · change em.mantissa / 2 = _
    rw [hmantissa, Nat.div_div_eq_div_mul, Nat.pow_succ]
  · change (em.mantissa % 2 != 0) = true ↔ _
    rw [hmantissa, bne_iff_ne, hsplit, hdouble]
    rcases hbit with hbit | hbit
    · rw [hbit]
      omega
    · rw [hbit]
      omega
  · change (em.roundBit || em.stickyBit) = true ↔ _
    rw [Bool.or_eq_true, hhalf, hrest, hsplit, hdouble]
    rcases hbit with hbit | hbit
    · rw [hbit]
      omega
    · rw [hbit]
      omega

theorem follows_shiftRight (n k : Nat) :
    Follows ((ExtendedMantissa.ofMantissaAndAccuracy n .exact) >>> k) n k := by
  induction k with
  | zero =>
    have hwhole : n % 2 ^ 0 = 0 := Nat.mod_one n
    refine ⟨(Nat.div_one n).symm, ?_, ?_⟩
    · change false = true ↔ _
      rw [hwhole]
      decide
    · change false = true ↔ _
      rw [hwhole]
      simp
  | succ k ih => exact ih.shiftRightOne

theorem Follows.roundedMantissa {em : ExtendedMantissa} {n k : Nat} (h : Follows em n k) :
    em.roundedMantissa = roundedShift n k := by
  obtain ⟨mantissa, half, rest⟩ := em
  obtain ⟨hmantissa, hhalf, hrest⟩ := h
  -- the two bits tell which of the three cases of `roundedShift` it is
  have hpos : 0 < 2 ^ k := Nat.two_pow_pos k
  simp only at hmantissa hhalf hrest
  unfold roundedShift
  rw [← hmantissa]
  cases half with
  | false =>
    rw [if_pos (by simpa using hhalf)]
    cases rest with
    | false => rfl
    | true => rfl
  | true =>
    have hmore := hhalf.mp rfl
    rw [if_neg (Nat.not_lt.mpr hmore)]
    cases rest with
    | false =>
      have hmiddle : 2 * (n % 2 ^ k) = 2 ^ k := by
        by_contra hother
        exact absurd (hrest.mpr ⟨by omega, hother⟩) (by decide)
      rw [if_pos hmiddle]
      rfl
    | true =>
      rw [if_neg (hrest.mp rfl).2]
      rfl

/-! ### Canonical numbers -/

theorem log2_eq {m : Nat} (hlower : 2 ^ 52 ≤ m) (hupper : m < 2 ^ 53) : m.log2 = 52 := by
  have hzero : m ≠ 0 := by omega
  have hleast : 52 ≤ m.log2 := (Nat.le_log2 hzero).mpr hlower
  have hmost : m.log2 < 53 := (Nat.log2_lt hzero).mpr hupper
  omega

/-- A mantissa is shifted so that 52 bits are behind its first one. -/
theorem targetExponent_eq {m l : Nat} {e : Int} (hlog : m.log2 = l) (he : -1022 ≤ e + l) :
    Format.binary64.targetExponent (totalExponent m e) = e + l - 52 := by
  have hunfold : Format.binary64.targetExponent (totalExponent m e) =
      max (totalExponent m e - 53) (-1074) := rfl
  rw [hunfold, totalExponent, hlog]
  omega

theorem log2_mul_pow {n : Nat} (hn : n ≠ 0) (j : Nat) : (n * 2 ^ j).log2 = n.log2 + j := by
  rw [Nat.log2_eq_iff (Nat.mul_ne_zero hn (Nat.ne_of_gt (Nat.two_pow_pos j)))]
  constructor
  · rw [Nat.pow_add]
    exact Nat.mul_le_mul_right _ (Nat.log2_self_le hn)
  · rw [Nat.add_right_comm, Nat.pow_add]
    exact Nat.mul_lt_mul_of_pos_right Nat.lt_log2_self (Nat.two_pow_pos j)

/-- An integer with zeros behind it is cut down to a mantissa, by as many bits as there are beyond
the first 53. -/
theorem shiftToTargetExponent_eq {n j : Nat} (hn : n ≠ 0) (hj : 52 ≤ n.log2 + j) :
    ∃ em, shiftToTargetExponent .binary64 (n * 2 ^ j) (-j) .exact =
        (em, (n.log2 : Int) - 52) ∧
      em.roundedMantissa = roundedShift (n * 2 ^ 52) n.log2 := by
  have htarget : Format.binary64.targetExponent (totalExponent (n * 2 ^ j) (-j)) =
      (n.log2 : Int) - 52 := by
    rw [targetExponent_eq (log2_mul_pow hn j) (by omega)]
    omega
  have hamount : ((n.log2 : Int) - 52 - -j).toNat = n.log2 + j - 52 := by omega
  refine ⟨(ExtendedMantissa.ofMantissaAndAccuracy (n * 2 ^ j) .exact) >>> (n.log2 + j - 52), ?_, ?_⟩
  · unfold shiftToTargetExponent shiftToExponent
    simp only [htarget, hamount]
    congr 1
    omega
  · rw [(follows_shiftRight _ _).roundedMantissa]
    exact roundedShift_zeros n (by omega)

/-- A number in canonical form, with the integer that it stands for. Its exponent is that of
`m * 2 ^ k` with the `52` bits behind the first one taken off. -/
inductive StandsFor : UnpackedFloat → Int → Prop where
  | zero (sign : Sign) : StandsFor (.zero sign) 0
  | finite (sign : Sign) {m k v : Nat} (hm : 0 < m) : 2 ^ 52 ≤ m → m < 2 ^ 53 → k ≤ 64 →
      m * 2 ^ k = v * 2 ^ 52 → StandsFor (.finite sign m ((k : Int) - 52) hm) (sign.apply v)

theorem shiftToTargetExponent_canonical {m k : Nat} (hlower : 2 ^ 52 ≤ m) (hupper : m < 2 ^ 53) :
    shiftToTargetExponent .binary64 m ((k : Int) - 52) .exact =
      (ExtendedMantissa.ofMantissaAndAccuracy m .exact, (k : Int) - 52) := by
  have htarget : Format.binary64.targetExponent (totalExponent m ((k : Int) - 52)) =
      (k : Int) - 52 := by
    rw [targetExponent_eq (log2_eq hlower hupper) (by omega)]
    omega
  unfold shiftToTargetExponent shiftToExponent
  simp only [htarget, Int.sub_self]
  exact Prod.ext rfl (Int.add_zero _)

/-- A mantissa that rounding has made too long loses a zero. -/
theorem shiftToTargetExponent_carried (k : Nat) :
    shiftToTargetExponent .binary64 (2 ^ 53) ((k : Int) - 52) .exact =
      (⟨2 ^ 52, false, false⟩, ((k + 1 : Nat) : Int) - 52) := by
  have htarget : Format.binary64.targetExponent (totalExponent (2 ^ 53) ((k : Int) - 52)) =
      (k : Int) - 51 := by
    rw [targetExponent_eq Nat.log2_two_pow (by omega)]
    omega
  have hone : ((k : Int) - 51 - (k - 52)).toNat = 1 := by omega
  unfold shiftToTargetExponent shiftToExponent
  simp only [htarget, hone]
  refine Prod.ext rfl ?_
  simp only
  omega

/-- What is rounded is shifted twice, with the mantissa rounded in between. -/
theorem roundWithAccuracy_eq {sign : Sign} {m : Nat} {e shifted carried : Int}
    {em last : ExtendedMantissa}
    (hshift : shiftToTargetExponent .binary64 m e .exact = (em, shifted))
    (hcarry : shiftToTargetExponent .binary64 em.roundedMantissa shifted .exact = (last, carried))
    (hpos : 0 < last.mantissa) :
    roundWithAccuracy .binary64 sign m e .exact = .finite sign last.mantissa carried hpos := by
  unfold roundWithAccuracy
  rw [hshift]
  dsimp only
  rw [hcarry]
  exact dif_neg (Nat.ne_of_gt hpos)

theorem standsFor_roundWithAccuracy (sign : Sign) {n j : Nat} (hn : n ≠ 0) (hlog : n.log2 < 64)
    (hj : 52 ≤ n.log2 + j) :
    StandsFor (roundWithAccuracy .binary64 sign (n * 2 ^ j) (-j) .exact)
      (sign.apply (nearestNat n)) := by
  obtain ⟨em, hshift, hrounded⟩ := shiftToTargetExponent_eq hn hj
  obtain ⟨hlower, hupper⟩ := mantissa_bounds hn
  have hvalue := nearestNat_mul_pow n
  rw [← hrounded] at hlower hupper hvalue
  -- rounding up may carry into one more bit, which the second shift takes off again
  by_cases hcarry : em.roundedMantissa < 2 ^ 53
  · rw [roundWithAccuracy_eq hshift (shiftToTargetExponent_canonical hlower hcarry)
      (Nat.lt_of_lt_of_le (Nat.two_pow_pos 52) hlower)]
    exact .finite sign _ hlower hcarry (by omega) hvalue.symm
  · have hfull : em.roundedMantissa = 2 ^ 53 := by omega
    have hagain := shiftToTargetExponent_carried n.log2
    rw [← hfull] at hagain
    rw [roundWithAccuracy_eq hshift hagain (Nat.two_pow_pos 52)]
    refine .finite sign _ (Nat.le_refl _) (by decide) (by omega) ?_
    rw [hvalue, hfull, Nat.pow_succ']
    ring

/-! ### Packed numbers -/

theorem toNat_mantissa {m : Nat} (hlower : 2 ^ 52 ≤ m) (hupper : m < 2 ^ 53) :
    (1#1 ++ BitVec.ofNat 52 m).toNat = m := by
  rw [BitVec.toNat_append, ← Nat.shiftLeft_add_eq_or_of_lt (BitVec.ofNat 52 m).isLt,
    BitVec.toNat_ofNat, Nat.shiftLeft_eq]
  simp only [BitVec.toNat_ofNat]
  omega

theorem toNat_exponent {k : Nat} (hk : k ≤ 64) :
    (BitVec.ofNat 11 (k + 1023)).toNat = k + 1023 := by
  rw [BitVec.toNat_ofNat]
  omega

/-- The exponent of a canonical number is neither that of an infinity nor that of a zero. -/
theorem exponent_ne {k : Nat} (hk : k ≤ 64) :
    BitVec.ofNat 11 (k + 1023) ≠ -1#11 ∧ BitVec.ofNat 11 (k + 1023) ≠ 0#11 := by
  have htoNat := toNat_exponent hk
  constructor
  · intro heq
    rw [heq] at htoNat
    change 2047 = k + 1023 at htoNat
    omega
  · intro heq
    rw [heq] at htoNat
    change 0 = k + 1023 at htoNat
    omega

theorem pack_canonical (sign : Sign) {m k : Nat} (hm : 0 < m) (hlower : 2 ^ 52 ≤ m)
    (hupper : m < 2 ^ 53) (hk : k ≤ 64) :
    UnpackedFloat.pack .binary64 (.finite sign m ((k : Int) - 52) hm) =
      packComponents .binary64 sign (BitVec.ofNat 11 (k + 1023)) (BitVec.ofNat 52 m) := by
  have hexponent : ((k : Int) - 52 + Format.binary64.exponentBias +
      Format.binary64.mantissaBitsWithoutImplicit).toNat = k + 1023 := by
    change ((k : Int) - 52 + 1023 + 52).toNat = k + 1023
    omega
  have hfinite : ¬ 2 ^ Format.binary64.exponentBits ≤ k + 1023 + 1 := by
    change ¬ 2 ^ 11 ≤ k + 1023 + 1
    omega
  unfold UnpackedFloat.pack
  simp only [hexponent, log2_eq hlower hupper]
  rw [if_neg hfinite, if_pos (by rfl)]

theorem sign_packComponents (sign : Sign) (exponent : BitVec 11) (mantissa : BitVec 52) :
    Sign.ofBitVec (unpackSign (packComponents .binary64 sign exponent mantissa)) = sign := by
  have hsign : unpackSign (packComponents .binary64 sign exponent mantissa) = sign.toBitVec := by
    change (sign.toBitVec ++ exponent ++ mantissa).extractLsb' 63 1 = sign.toBitVec
    rw [BitVec.extractLsb'_append_eq_of_le (by decide),
      BitVec.extractLsb'_append_eq_of_le (by decide)]
    exact BitVec.extractLsb'_eq_self
  rw [hsign]
  cases sign with
  | negative => rfl
  | positive => rfl

/-- A packed number with an exponent of its own is unpacked part by part. -/
theorem unpack_of_normal {b : BitVec 64} {sign : Sign} {m : Nat} {e : Int} (hm : 0 < m)
    (hfinite : @unpackExponent .binary64 b ≠ -1#11) (hnormal : @unpackExponent .binary64 b ≠ 0#11)
    (hsign : Sign.ofBitVec (@unpackSign .binary64 b) = sign)
    (hmantissa : (1#1 ++ @unpackMantissa .binary64 b).toNat = m)
    (hexponent : ((@unpackExponent .binary64 b).toNat : Int) - (1023 + 52) = e) :
    UnpackedFloat.unpack .binary64 b = .finite sign m e hm := by
  subst hsign hmantissa hexponent
  unfold UnpackedFloat.unpack
  dsimp only
  rw [if_neg hfinite, if_neg hnormal]
  rfl

/-- Packing loses nothing. -/
theorem StandsFor.unpack_pack {u : UnpackedFloat} {v : Int} (h : StandsFor u v) :
    (Float.Model.pack u).unpack = u := by
  cases h with
  | zero sign =>
    cases sign with
    | negative => rfl
    | positive => rfl
  | @finite sign m k v hm hlower hupper hk hvalue =>
    obtain ⟨hfinite, hnormal⟩ := exponent_ne hk
    change UnpackedFloat.unpack .binary64
      (UnpackedFloat.pack .binary64 (.finite sign m ((k : Int) - 52) hm)) = _
    rw [pack_canonical sign hm hlower hupper hk]
    refine unpack_of_normal hm ?_ ?_ (sign_packComponents sign _ _) ?_ ?_
    · rwa [unpackExponent_packComponents]
    · rwa [unpackExponent_packComponents]
    · rw [unpackMantissa_packComponents]
      exact toNat_mantissa hlower hupper
    · rw [unpackExponent_packComponents, toNat_exponent hk]
      omega

/-! ### Conversion -/

theorem StandsFor.neg {u : UnpackedFloat} {v : Int} (h : StandsFor u v) : StandsFor u.neg (-v) := by
  cases h with
  | zero sign => exact .zero _
  | @finite sign m k v hm hlower hupper hk hvalue =>
    have hsign : -(sign.apply v) = (-sign).apply v := by
      cases sign with
      | negative => exact Int.neg_neg _
      | positive => rfl
    rw [hsign]
    exact .finite _ hm hlower hupper hk hvalue

/-- The integer one as a floating-point number. -/
def one : UnpackedFloat := .finite .positive (2 ^ 52) (-52) (by decide)

/-- A product by one is rounded again, but there is nothing to round. -/
theorem StandsFor.mul_one {u : UnpackedFloat} {n : Nat} (h : StandsFor u n) (hzero : n ≠ 0)
    (hsmall : n < 2 ^ 53) : StandsFor (UnpackedFloat.mul .binary64 u one) n := by
  generalize hv : (n : Int) = v at h
  cases h with
  | zero sign => omega
  | @finite sign m k w hm hlower hupper hk hvalue =>
    have hpositive : sign = .positive ∧ n = w := by
      cases sign with
      | negative =>
        change (n : Int) = -(w : Int) at hv
        omega
      | positive => exact ⟨rfl, Int.ofNat.inj hv⟩
    obtain ⟨rfl, rfl⟩ := hpositive
    have hless : n.log2 < 53 := (Nat.log2_lt hzero).mpr hsmall
    have hlog : n.log2 = k := by
      have hlogs := congrArg Nat.log2 hvalue
      rw [log2_mul_pow (by omega), log2_mul_pow hzero, log2_eq hlower hupper] at hlogs
      omega
    have hproduct : m * 2 ^ 52 = n * 2 ^ (104 - k) := by
      apply Nat.eq_of_mul_eq_mul_right (Nat.two_pow_pos k)
      rw [Nat.mul_right_comm, hvalue, Nat.mul_assoc, Nat.mul_assoc, ← Nat.pow_add, ← Nat.pow_add]
      congr 2
      omega
    have hexponent : (k : Int) - 52 + -52 = -((104 - k : Nat) : Int) := by omega
    have hmul : UnpackedFloat.mul .binary64 (.finite .positive m ((k : Int) - 52) hm) one =
        roundWithAccuracy .binary64 .positive (n * 2 ^ (104 - k)) (-((104 - k : Nat) : Int))
          .exact := by
      rw [← hproduct, ← hexponent]
      rfl
    have hstands := standsFor_roundWithAccuracy .positive hzero (j := 104 - k) (by omega) (by omega)
    rw [← hmul, nearestNat_of_le (Nat.le_of_lt hsmall)] at hstands
    exact hstands

theorem standsFor_ofUInt64 {n : Nat} (hzero : n ≠ 0) (hsmall : n < 2 ^ 53) :
    StandsFor n.toUInt64.toFloat.toModel.unpack n := by
  have hlog : n.log2 < 53 := (Nat.log2_lt hzero).mpr hsmall
  have htoNat : n.toUInt64.toNat = n := by
    rw [Nat.toUInt64, UInt64.toNat_ofNat']
    omega
  have htarget : Format.binary64.targetExponent (totalExponent n 0) = (n.log2 : Int) - 52 := by
    rw [targetExponent_eq rfl (by omega)]
    omega
  have hamount : (-((n.log2 : Int) - 52)).toNat = 52 - n.log2 := by omega
  have hround : UnpackedFloat.ofUInt64 .binary64 n.toUInt64 =
      roundWithAccuracy .binary64 .positive (n * 2 ^ (52 - n.log2)) (-((52 - n.log2 : Nat) : Int))
        .exact := by
    have hgreater : compare (n : Int) 0 = .gt := by
      rw [compare_gt_iff_gt]
      omega
    unfold UnpackedFloat.ofUInt64 UnpackedFloat.ofNat UnpackedFloat.ofInt UnpackedFloat.normalize
    rw [htoNat, hgreater]
    simp only [UnpackedFloat.round, decreaseExponent, Int.toNat_natCast, htarget, Int.zero_sub,
      hamount, Nat.shiftLeft_eq]
  have hstands :=
    standsFor_roundWithAccuracy .positive hzero (j := 52 - n.log2) (by omega) (by omega)
  rw [← hround, nearestNat_of_le (Nat.le_of_lt hsmall)] at hstands
  have hunpack : n.toUInt64.toFloat.toModel.unpack = UnpackedFloat.ofUInt64 .binary64 n.toUInt64 :=
    hstands.unpack_pack
  rw [hunpack]
  exact hstands

theorem standsFor_ofNat_zero : StandsFor (Float.ofNat 0).toModel.unpack 0 := by
  have hzero : (Float.ofNat 0).toModel.unpack = .zero .positive := rfl
  rw [hzero]
  exact .zero .positive

/-- An integer of at most 53 bits is converted as it is and multiplied by a power of ten, which is
one. -/
theorem standsFor_ofNat_small {n : Nat} (hzero : n ≠ 0) (hsmall : n < 2 ^ 53) :
    StandsFor (Float.ofNat n).toModel.unpack n := by
  have hone : (Float.ofBits 0x3FF0000000000000).toModel.unpack = one := rfl
  have hmodel : (Float.ofNat n).toModel =
      Float.Model.pack (UnpackedFloat.mul .binary64 n.toUInt64.toFloat.toModel.unpack
        (Float.ofBits 0x3FF0000000000000).toModel.unpack) := by
    change (Float.ofScientific n false 0).toModel = _
    unfold Float.ofScientific
    rw [dif_pos ⟨hsmall, by decide⟩]
    rfl
  have hstands := (standsFor_ofUInt64 hzero hsmall).mul_one hzero hsmall
  rw [hmodel, hone, hstands.unpack_pack]
  exact hstands

/-- A larger one is rounded. -/
theorem standsFor_ofNat_large {n : Nat} (hlarge : 2 ^ 53 ≤ n) (hn : n < 2 ^ 64) :
    StandsFor (Float.ofNat n).toModel.unpack (nearestNat n) := by
  have hzero : n ≠ 0 := by omega
  have hlog : n.log2 < 64 := (Nat.log2_lt hzero).mpr hn
  have hround : UnpackedFloat.ofScientific .binary64 n 0 =
      roundWithAccuracy .binary64 .positive (n * 2 ^ 53) (-((53 : Nat) : Int)) .exact := by
    unfold UnpackedFloat.ofScientific
    rw [dif_neg hzero, if_neg (by decide), if_neg (by simp), if_pos (by decide)]
    change roundWithAccuracy .binary64 .positive (n <<< 53 * 1) (-((53 : Nat) : Int) + 0) .exact = _
    rw [Nat.shiftLeft_eq, Nat.mul_one, Int.add_zero]
  have hstands := standsFor_roundWithAccuracy .positive hzero (j := 53) hlog (by omega)
  rw [← hround] at hstands
  have hmodel : (Float.ofNat n).toModel =
      Float.Model.pack (UnpackedFloat.ofScientific .binary64 n 0) := by
    change (Float.ofScientific n false 0).toModel = _
    unfold Float.ofScientific
    rw [dif_neg (fun h => Nat.not_lt.mpr hlarge h.1)]
    rfl
  rw [hmodel, hstands.unpack_pack]
  exact hstands

theorem standsFor_ofNat {n : Nat} (hn : n < 2 ^ 64) :
    StandsFor (Float.ofNat n).toModel.unpack (nearestNat n) := by
  by_cases hzero : n = 0
  · rw [hzero]
    exact standsFor_ofNat_zero
  · by_cases hsmall : n < 2 ^ 53
    · rw [nearestNat_of_le (Nat.le_of_lt hsmall)]
      exact standsFor_ofNat_small hzero hsmall
    · exact standsFor_ofNat_large (Nat.not_lt.mp hsmall) hn

theorem standsFor_ofInt {a : Int} (ha : a.natAbs < 2 ^ 64) :
    StandsFor (Float.ofInt a).toModel.unpack (nearest a) := by
  cases a with
  | ofNat n => exact standsFor_ofNat ha
  | negSucc n =>
    have hstands := (standsFor_ofNat (n := n + 1) ha).neg
    have hunpack : (Float.ofInt (.negSucc n)).toModel.unpack =
        (Float.ofNat (n + 1)).toModel.unpack.neg := hstands.unpack_pack
    rw [hunpack]
    exact hstands

/-! ### Comparison -/

theorem lt_of_exponent_lt {m k v m' k' v' : Nat} (hupper : m < 2 ^ 53) (hlower : 2 ^ 52 ≤ m')
    (hvalue : m * 2 ^ k = v * 2 ^ 52) (hvalue' : m' * 2 ^ k' = v' * 2 ^ 52) (hk : k < k') :
    v < v' := by
  have hless : v * 2 ^ 52 < v' * 2 ^ 52 :=
    calc v * 2 ^ 52 = m * 2 ^ k := hvalue.symm
      _ < 2 ^ 53 * 2 ^ k := Nat.mul_lt_mul_of_pos_right hupper (Nat.two_pow_pos k)
      _ = 2 ^ 52 * 2 ^ (k + 1) := by rw [Nat.pow_succ']; ring
      _ ≤ 2 ^ 52 * 2 ^ k' := Nat.mul_le_mul_left _ (Nat.pow_le_pow_right (by decide) hk)
      _ ≤ m' * 2 ^ k' := Nat.mul_le_mul_right _ hlower
      _ = v' * 2 ^ 52 := hvalue'
  exact Nat.lt_of_mul_lt_mul_right hless

theorem lt_of_mantissa_lt {m k v m' v' : Nat} (hvalue : m * 2 ^ k = v * 2 ^ 52)
    (hvalue' : m' * 2 ^ k = v' * 2 ^ 52) (hm : m < m') : v < v' := by
  have hless : v * 2 ^ 52 < v' * 2 ^ 52 := by
    rw [← hvalue, ← hvalue']
    exact Nat.mul_lt_mul_of_pos_right hm (Nat.two_pow_pos k)
  exact Nat.lt_of_mul_lt_mul_right hless

/-- The exponents decide, and the mantissas if the exponents are equal. -/
theorem compare_canonical {m k v m' k' v' : Nat} (hlower : 2 ^ 52 ≤ m) (hupper : m < 2 ^ 53)
    (hvalue : m * 2 ^ k = v * 2 ^ 52) (hlower' : 2 ^ 52 ≤ m') (hupper' : m' < 2 ^ 53)
    (hvalue' : m' * 2 ^ k' = v' * 2 ^ 52) :
    (compare ((k : Int) - 52) ((k' : Int) - 52)).then (compare m m') =
      compare (v : Int) (v' : Int) := by
  rcases lt_trichotomy k k' with hk | hk | hk
  · have hexponents : compare ((k : Int) - 52) ((k' : Int) - 52) = .lt :=
      compare_lt_iff_lt.mpr (by omega)
    have hless := lt_of_exponent_lt hupper hlower' hvalue hvalue' hk
    rw [hexponents, compare_lt_iff_lt.mpr (Int.ofNat_lt.mpr hless)]
    rfl
  · subst hk
    have hexponents : compare ((k : Int) - 52) ((k : Int) - 52) = .eq := compare_eq_iff_eq.mpr rfl
    rw [hexponents]
    rcases lt_trichotomy m m' with hm | hm | hm
    · have hless := lt_of_mantissa_lt hvalue hvalue' hm
      rw [compare_lt_iff_lt.mpr hm, compare_lt_iff_lt.mpr (Int.ofNat_lt.mpr hless)]
      rfl
    · have hsame : v = v' := by
        subst hm
        rw [hvalue] at hvalue'
        exact Nat.eq_of_mul_eq_mul_right (by decide) hvalue'
      rw [compare_eq_iff_eq.mpr hm, compare_eq_iff_eq.mpr (congrArg Nat.cast hsame)]
      rfl
    · have hmore := lt_of_mantissa_lt hvalue' hvalue hm
      rw [compare_gt_iff_gt.mpr hm, compare_gt_iff_gt.mpr (Int.ofNat_lt.mpr hmore)]
      rfl
  · have hexponents : compare ((k : Int) - 52) ((k' : Int) - 52) = .gt :=
      compare_gt_iff_gt.mpr (by omega)
    have hmore := lt_of_exponent_lt hupper' hlower hvalue' hvalue hk
    rw [hexponents, compare_gt_iff_gt.mpr (Int.ofNat_lt.mpr hmore)]
    rfl

theorem compare_neg (a b : Int) : compare (-a) (-b) = (compare a b).swap := by
  rcases lt_trichotomy a b with h | h | h
  · rw [compare_lt_iff_lt.mpr h, compare_gt_iff_gt.mpr (by omega)]
    rfl
  · rw [compare_eq_iff_eq.mpr h, compare_eq_iff_eq.mpr (by omega)]
    rfl
  · rw [compare_gt_iff_gt.mpr h, compare_lt_iff_lt.mpr (by omega)]
    rfl

theorem pos_of_canonical {m k v : Nat} (hlower : 2 ^ 52 ≤ m) (hvalue : m * 2 ^ k = v * 2 ^ 52) :
    0 < (v : Int) := by
  have hproduct : 0 < m * 2 ^ k := Nat.mul_pos (by omega) (Nat.two_pow_pos k)
  omega

theorem StandsFor.compare_eq {u u' : UnpackedFloat} {v v' : Int} (h : StandsFor u v)
    (h' : StandsFor u' v') : u.compare u' = some (compare v v') := by
  cases h with
  | zero sign =>
    cases h' with
    | zero sign' => rfl
    | @finite sign' m' k' v' hm' hlower' hupper' hk' hvalue' =>
      have hpos := pos_of_canonical hlower' hvalue'
      cases sign' with
      | negative => exact congrArg some (compare_gt_iff_gt.mpr (Int.neg_neg_of_pos hpos)).symm
      | positive => exact congrArg some (compare_lt_iff_lt.mpr hpos).symm
  | @finite sign m k v hm hlower hupper hk hvalue =>
    have hpos := pos_of_canonical hlower hvalue
    cases h' with
    | zero sign' =>
      cases sign with
      | negative => exact congrArg some (compare_lt_iff_lt.mpr (Int.neg_neg_of_pos hpos)).symm
      | positive => exact congrArg some (compare_gt_iff_gt.mpr hpos).symm
    | @finite sign' m' k' v' hm' hlower' hupper' hk' hvalue' =>
      have hpos' := pos_of_canonical hlower' hvalue'
      have hsame := compare_canonical hlower hupper hvalue hlower' hupper' hvalue'
      cases sign with
      | negative =>
        cases sign' with
        | negative =>
          change some ((compare _ _).then (compare _ _)).swap = some (compare (-(v : Int)) (-v'))
          rw [hsame, compare_neg]
        | positive =>
          have hless : -(v : Int) < v' := by omega
          exact congrArg some (compare_lt_iff_lt.mpr hless).symm
      | positive =>
        cases sign' with
        | negative =>
          have hmore : -(v' : Int) < v := by omega
          exact congrArg some (compare_gt_iff_gt.mpr hmore).symm
        | positive => exact congrArg some hsame

end LiveDoc.Binary64
