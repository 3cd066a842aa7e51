import Mathlib.Tactic.Common
import Memoizer.Number.Rounding

namespace Memoizer.Number

theorem twoPow_pos (n : Nat) : 0 < twoPow n := Nat.two_pow_pos n

theorem twoPow_add (m n : Nat) : twoPow (m + n) = twoPow m * twoPow n := Nat.pow_add 2 m n

theorem log2_eq {k n : Nat} (hle : twoPow k ≤ n) (hlt : n < twoPow (k + 1)) : n.log2 = k :=
  (Nat.log2_eq_iff (Nat.ne_of_gt (Nat.lt_of_lt_of_le (twoPow_pos k) hle))).mpr ⟨hle, hlt⟩

theorem log2_lt {k n : Nat} (hk : 0 < k) (hlt : n < twoPow k) : n.log2 < k := by
  by_cases hn : n = 0
  · subst hn
    exact hk
  · exact (Nat.log2_lt hn).mpr hlt

theorem roundDiv_mul (m : Nat) {d : Nat} (hd : 0 < d) : roundDiv (m * d) d = m := by
  simp [roundDiv, Nat.mul_div_cancel m hd, hd]

theorem fractionBits_lt (x : Number) : x.fractionBits < twoPow 52 := Nat.mod_lt _ (twoPow_pos 52)

/-- The significand of a finite number has 53 bits, unless the scale is the least one. -/
theorem log2_magnitude (x : Number) : (x.significand * twoPow x.scale).log2 - 52 = x.scale := by
  have hfraction := x.fractionBits_lt
  by_cases he : x.exponentBits = 0
  · have hscale : x.scale = 0 := by rw [scale, he]
    have hlt : x.significand * twoPow x.scale < twoPow 52 := by
      have hone : twoPow 0 = 1 := rfl
      rw [hscale, significand, if_pos he, hone, Nat.mul_one]
      exact hfraction
    have hlog := log2_lt (by decide) hlt
    omega
  · have hsignificand : x.significand = twoPow 52 + x.fractionBits := by rw [significand, if_neg he]
    have hlog : (x.significand * twoPow x.scale).log2 = 52 + x.scale := by
      apply log2_eq
      · rw [twoPow_add, hsignificand]
        exact Nat.mul_le_mul_right _ (Nat.le_add_right _ _)
      · rw [Nat.add_right_comm, twoPow_add, hsignificand]
        refine Nat.mul_lt_mul_of_pos_right ?_ (twoPow_pos _)
        have hnext : twoPow (52 + 1) = twoPow 52 + twoPow 52 := by decide
        omega
    omega

theorem bits_toNat {x : Number} (hneg : x.isNegative = false) :
    x.bits.toNat = x.exponentBits * twoPow 52 + x.fractionBits := by
  have hbits := x.bits.toNat_lt
  have h11 : twoPow 11 = 2048 := by decide
  have h52 : twoPow 52 = 4503599627370496 := by decide
  have h63 : twoPow 63 = 9223372036854775808 := by decide
  rw [isNegative, beq_eq_false_iff_ne, h63] at hneg
  rw [exponentBits, fractionBits, h11, h52]
  omega

theorem bits_of_scale {x : Number} (hneg : x.isNegative = false) :
    x.bits.toNat = x.scale * twoPow 52 + x.significand := by
  rw [bits_toNat hneg, scale, significand]
  split
  next he => rw [he]
  next he =>
    obtain ⟨k, hk⟩ := Nat.exists_eq_succ_of_ne_zero he
    rw [hk, Nat.succ_mul, Nat.succ_sub_one, Nat.add_assoc]

theorem bits_lt {x : Number} (hneg : x.isNegative = false) (hfinite : x.isFinite = true) :
    x.bits.toNat < 2047 * twoPow 52 := by
  have hfraction := x.fractionBits_lt
  have hexponent : x.exponentBits < 2048 := Nat.mod_lt _ (by decide)
  rw [isFinite, bne_iff_ne] at hfinite
  rw [bits_toNat hneg]
  calc x.exponentBits * twoPow 52 + x.fractionBits
      < x.exponentBits * twoPow 52 + twoPow 52 := Nat.add_lt_add_left hfraction _
    _ = (x.exponentBits + 1) * twoPow 52 := (Nat.succ_mul _ _).symm
    _ ≤ 2047 * twoPow 52 := Nat.mul_le_mul_right _ (by omega)

theorem magnitude_of_wholePart {x : Number} {n : Nat} (h : x.wholePart? = some n) :
    x.isFinite = true ∧ n * twoPow 1074 = x.significand * twoPow x.scale := by
  rw [wholePart?] at h
  split at h
  · cases h
  next hfinite =>
    dsimp only at h
    split at h
    next hwhole =>
      cases h
      exact ⟨by simpa using hfinite, Nat.div_mul_cancel (Nat.dvd_of_mod_eq_zero hwhole)⟩
    next => cases h

theorem index?_eq {x : Number} {n : Nat} (hneg : x.isNegative = false) (hn : n < twoPow 64)
    (h : x.wholePart? = some n) : x.index? = some n := by
  rw [index?, h]
  cases n with
  | zero => rfl
  | succ n =>
      rw [hneg]
      exact congrArg some (Nat.min_eq_left (Nat.le_sub_one_of_lt hn))

/-- The nearest double to a value that a double has is that double. -/
theorem ofNat_eq_of_wholePart {x : Number} {n : Nat} (hneg : x.isNegative = false) (h : x.wholePart? = some n) :
    ofNat n = x := by
  obtain ⟨hfinite, hvalue⟩ := magnitude_of_wholePart h
  have hscale : scaleOf n 1 = x.scale := by
    rw [scaleOf, Nat.div_one, hvalue, log2_magnitude]
  have hsignificand : roundDiv (n * twoPow 1074) (1 * twoPow x.scale) = x.significand := by
    rw [hvalue, Nat.one_mul, roundDiv_mul _ (twoPow_pos _)]
  have hbits : bitsOfRatio n 1 = x.bits.toNat := by
    rw [bitsOfRatio, hscale, hsignificand, ← bits_of_scale hneg]
    exact Nat.min_eq_left (Nat.le_of_lt (bits_lt hneg hfinite))
  rw [ofNat, ofRatio, signed, hbits]
  exact congrArg Number.mk UInt64.ofNat_toNat

end Memoizer.Number
