import Mathlib
import Memoizer.Number.Shortest
import Memoizer.Proofs.Number

namespace Memoizer.Number

variable {x : Number} {num den : Nat}

section Rounding

/-- A quotient within half a unit of `m` rounds to `m`, at the ends of that range if `m` is even. -/
theorem roundDiv_eq {m : Nat} (hden : 0 < den) (hlow : 2 * (m * den) ≤ 2 * num + den)
    (hhigh : 2 * num ≤ 2 * (m * den) + den)
    (hends : m % 2 = 0 ∨ 2 * (m * den) < 2 * num + den ∧ 2 * num < 2 * (m * den) + den) : roundDiv num den = m := by
  have hsplit : num / den * den + num % den = num := Nat.div_add_mod' num den
  have hmod := Nat.mod_lt num hden
  rw [roundDiv]
  generalize num / den = q at *
  generalize num % den = r at *
  have hle : q ≤ m := by
    by_contra hgt
    have hmul : (m + 1) * den ≤ q * den := Nat.mul_le_mul_right den (by omega)
    rw [Nat.add_mul] at hmul
    omega
  have hge : m ≤ q + 1 := by
    by_contra hgt
    have hmul : (q + 2) * den ≤ m * den := Nat.mul_le_mul_right den (by omega)
    rw [Nat.add_mul] at hmul
    omega
  obtain rfl | rfl : q = m ∨ m = q + 1 := by omega
  · split_ifs <;> omega
  · rw [Nat.add_mul] at hlow hhigh hends
    split_ifs <;> omega

theorem significand_lt (x : Number) : x.significand < twoPow 53 := by
  have hfraction := x.fractionBits_lt
  have hnext : twoPow 53 = twoPow 52 + twoPow 52 := by decide
  rw [significand]
  split <;> omega

def reach (x : Number) : Nat := if x.fractionBits = 0 ∧ 1 < x.exponentBits then 1 else 2

/-- The ratio lies between the ends of the interval, in units of the least double. -/
structure Near (x : Number) (num den : Nat) : Prop where
  low : 4 * (x.significand * (twoPow x.scale * den)) ≤ 4 * (num * twoPow 1074) + x.reach * (twoPow x.scale * den)
  high : 4 * (num * twoPow 1074) ≤ 4 * (x.significand * (twoPow x.scale * den)) + 2 * (twoPow x.scale * den)
  ends : x.significand % 2 = 0 ∨
    4 * (x.significand * (twoPow x.scale * den)) < 4 * (num * twoPow 1074) + x.reach * (twoPow x.scale * den) ∧
      4 * (num * twoPow 1074) < 4 * (x.significand * (twoPow x.scale * den)) + 2 * (twoPow x.scale * den)

theorem low_eq (x : Number) (den : Nat) : x.interval.low * den =
    4 * (x.significand * (twoPow x.scale * den)) - x.reach * (twoPow x.scale * den) := by
  have hbelow : (if x.fractionBits = 0 ∧ 1 < x.exponentBits then twoPow x.scale else 2 * twoPow x.scale) =
      x.reach * twoPow x.scale := by
    rw [reach]
    split
    · rw [Nat.one_mul]
    · rfl
  rw [interval]
  simp only [hbelow, Nat.sub_mul]
  congr 1 <;> ring

theorem high_eq (x : Number) (den : Nat) : x.interval.high * den =
    4 * (x.significand * (twoPow x.scale * den)) + 2 * (twoPow x.scale * den) := by
  rw [interval]
  ring

theorem unit_eq (x : Number) (num : Nat) : num * x.interval.unit = 4 * (num * twoPow 1074) := by
  have hsum : 1076 = 2 + 1074 := rfl
  have htwo : twoPow 2 = 4 := by decide
  rw [interval]
  dsimp only
  rw [hsum, twoPow_add, htwo]
  ring

theorem near_of_holds (h : x.interval.holds num den = true) : Near x num den := by
  have hclosed : x.interval.closed = decide (x.significand % 2 = 0) := rfl
  rw [Interval.holds, hclosed, unit_eq, low_eq, high_eq] at h
  split at h
  next heven =>
    rw [decide_eq_true_eq] at heven
    rw [Bool.and_eq_true, decide_eq_true_eq, decide_eq_true_eq] at h
    exact ⟨by omega, h.2, .inl heven⟩
  next =>
    rw [Bool.and_eq_true, decide_eq_true_eq, decide_eq_true_eq] at h
    exact ⟨by omega, by omega, .inr ⟨by omega, h.2⟩⟩

theorem reach_eq (x : Number) : x.reach = 1 ∨ x.reach = 2 := by
  rw [reach]
  split
  · exact .inl rfl
  · exact .inr rfl

theorem Near.quotient_lt (h : Near x num den) (hden : 0 < den) : num * twoPow 1074 / den < twoPow (53 + x.scale) := by
  have hunit : 0 < twoPow x.scale * den := Nat.mul_pos (twoPow_pos _) hden
  have hmul : (x.significand + 1) * (twoPow x.scale * den) ≤ twoPow 53 * (twoPow x.scale * den) :=
    Nat.mul_le_mul_right _ x.significand_lt
  have hhigh := h.high
  rw [Nat.add_mul] at hmul
  rw [Nat.div_lt_iff_lt_mul hden, twoPow_add, Nat.mul_assoc]
  omega

theorem Near.roundDiv_eq (h : Near x num den) (hden : 0 < den) :
    roundDiv (num * twoPow 1074) (den * twoPow x.scale) = x.significand := by
  have hunit : 0 < twoPow x.scale * den := Nat.mul_pos (twoPow_pos _) hden
  obtain ⟨hlow, hhigh, hends⟩ := h
  rw [Nat.mul_comm den]
  have hreach : x.reach * (twoPow x.scale * den) ≤ 2 * (twoPow x.scale * den) := by
    apply Nat.mul_le_mul_right
    rcases x.reach_eq with h | h <;> omega
  refine Number.roundDiv_eq hunit (by omega) (by omega) ?_
  rcases hends with heven | ⟨hlt, hgt⟩
  · exact .inl heven
  · exact .inr ⟨by omega, by omega⟩

theorem Near.fractionBits_eq (h : Near x num den) (hden : 0 < den) (hscale : 0 < x.scale)
    (hlt : num * twoPow 1074 / den < twoPow (52 + x.scale)) : x.fractionBits = 0 := by
  -- Only a power of two has values of a smaller scale in its interval.
  have hunit : 0 < twoPow x.scale * den := Nat.mul_pos (twoPow_pos _) hden
  have hexponent : x.exponentBits ≠ 0 := by
    intro he
    rw [scale, he] at hscale
    exact absurd hscale (by decide)
  have hsignificand : x.significand = twoPow 52 + x.fractionBits := by rw [significand, if_neg hexponent]
  have hlow := h.low
  by_contra hne
  have hmul : (twoPow 52 + 1) * (twoPow x.scale * den) ≤ x.significand * (twoPow x.scale * den) :=
    Nat.mul_le_mul_right _ (by omega)
  have hreach : x.reach = 2 := by rw [reach, if_neg fun h => hne h.1]
  rw [Nat.add_mul] at hmul
  rw [hreach] at hlow
  rw [Nat.div_lt_iff_lt_mul hden, twoPow_add, Nat.mul_assoc] at hlt
  omega

/-- Below a power of two the ratio rounds up to it from the smaller scale. -/
theorem Near.bitsOfRatio_below (h : Near x num den) (hden : 0 < den) {k : Nat} (hscale : x.scale = k + 1)
    (hlt : num * twoPow 1074 / den < twoPow (52 + x.scale)) :
    scaleOf num den * twoPow 52 + roundDiv (num * twoPow 1074) (den * twoPow (scaleOf num den)) =
      x.scale * twoPow 52 + x.significand := by
  have hfraction := h.fractionBits_eq hden (by omega) hlt
  have hexponent : 1 < x.exponentBits := by
    rw [scale] at hscale
    omega
  have hsignificand : x.significand = twoPow 52 := by
    rw [significand, if_neg (by omega), hfraction, Nat.add_zero]
  have hreach : x.reach = 1 := by rw [reach, if_pos ⟨hfraction, hexponent⟩]
  have hdouble : twoPow 53 = twoPow 52 + twoPow 52 := by decide
  have hunit : twoPow x.scale * den = twoPow k * den + twoPow k * den := by
    have hone : twoPow 1 = 2 := by decide
    rw [hscale, twoPow_add, hone]
    ring
  have hpos : 0 < twoPow k * den := Nat.mul_pos (twoPow_pos k) hden
  have hle : twoPow k * den ≤ twoPow 52 * (twoPow k * den) := Nat.le_mul_of_pos_left _ (twoPow_pos 52)
  have hlow := h.low
  rw [hsignificand, hreach, hunit, Nat.mul_add] at hlow
  have hhigh : num * twoPow 1074 < twoPow 53 * (twoPow k * den) := by
    rw [Nat.div_lt_iff_lt_mul hden, twoPow_add, Nat.mul_assoc, hunit, Nat.mul_add] at hlt
    rw [hdouble, Nat.add_mul]
    exact hlt
  have hsmaller : scaleOf num den = k := by
    have hlog : (num * twoPow 1074 / den).log2 = 52 + k := by
      apply log2_eq
      · rw [Nat.le_div_iff_mul_le hden, twoPow_add, Nat.mul_assoc]
        omega
      · rw [hscale] at hlt
        exact hlt
    rw [scaleOf, hlog]
    exact Nat.add_sub_cancel_left 52 k
  have hround : roundDiv (num * twoPow 1074) (den * twoPow k) = twoPow 53 := by
    rw [Nat.mul_comm den]
    refine Number.roundDiv_eq hpos ?_ (by omega) (.inl (by decide))
    rw [hdouble, Nat.add_mul]
    omega
  rw [hsmaller, hround, hscale, hsignificand, hdouble, Nat.add_mul]
  omega

/-- Every ratio in the interval around a double rounds to it. -/
theorem bitsOfRatio_eq (hneg : x.isNegative = false) (hfinite : x.isFinite = true) (hden : 0 < den)
    (h : x.interval.holds num den = true) : bitsOfRatio num den = x.bits.toNat := by
  have hnear := near_of_holds h
  have hsum : scaleOf num den * twoPow 52 + roundDiv (num * twoPow 1074) (den * twoPow (scaleOf num den)) =
      x.scale * twoPow 52 + x.significand := by
    by_cases hbelow : 0 < x.scale ∧ num * twoPow 1074 / den < twoPow (52 + x.scale)
    · obtain ⟨k, hk⟩ := Nat.exists_eq_succ_of_ne_zero hbelow.1.ne'
      exact hnear.bitsOfRatio_below hden hk hbelow.2
    · have hscale : scaleOf num den = x.scale := by
        have hlt := hnear.quotient_lt hden
        rw [scaleOf]
        by_cases hzero : x.scale = 0
        · rw [hzero] at hlt
          have hlog := log2_lt (by decide) hlt
          omega
        · have hge : twoPow (52 + x.scale) ≤ num * twoPow 1074 / den := by
            by_contra hlow
            exact hbelow ⟨Nat.pos_of_ne_zero hzero, Nat.lt_of_not_le hlow⟩
          have hlog := log2_eq hge (by rwa [Nat.add_right_comm])
          omega
      rw [hscale, hnear.roundDiv_eq hden]
  rw [bitsOfRatio, hsum, ← bits_of_scale hneg]
  exact Nat.min_eq_left (bits_lt hneg hfinite).le

end Rounding

section Decimals

variable {count : Nat}

theorem tenPow_pos (n : Nat) : 0 < tenPow n := Nat.pow_pos (by decide)

theorem tenPow_add (m n : Nat) : tenPow (m + n) = tenPow m * tenPow n := Nat.pow_add 10 m n

theorem length_toDigits {n : Nat} (hn : 0 < n) :
    ∃ k, (Nat.toDigits 10 n).length = k + 1 ∧ tenPow k ≤ n ∧ n < tenPow (k + 1) := by
  have hlength : 0 < (Nat.toDigits 10 n).length := Nat.length_toDigits_pos
  obtain ⟨k, hk⟩ := Nat.exists_eq_succ_of_ne_zero hlength.ne'
  refine ⟨k, hk, ?_, (Nat.length_toDigits_le_iff (by decide) (Nat.succ_pos k)).mp hk.le⟩
  cases k with
  | zero => exact hn
  | succ k =>
      by_contra hlt
      have hle := (Nat.length_toDigits_le_iff (b := 10) (by decide) (Nat.succ_pos k)).mpr (Nat.lt_of_not_le hlt)
      omega

theorem whole_bounds {k : Nat} (hcount : 0 < count) (hlow : tenPow k * den ≤ num) (hhigh : num < tenPow (k + 1) * den)
    {places : Int} (hplaces : places = (count : Int) - (k + 1 : Nat)) :
    tenPow (count - 1) * (den * tenPow (-places).toNat) ≤ num * tenPow places.toNat ∧
      num * tenPow places.toNat < tenPow count * (den * tenPow (-places).toNat) := by
  have hone : tenPow 0 = 1 := rfl
  by_cases hsmall : k + 1 ≤ count
  · obtain ⟨j, rfl⟩ := Nat.exists_eq_add_of_le hsmall
    have hup : places.toNat = j := by omega
    have hdown : (-places).toNat = 0 := by omega
    have hpred : k + 1 + j - 1 = k + j := by omega
    rw [hup, hdown, hone, Nat.mul_one, hpred, tenPow_add k, tenPow_add (k + 1)]
    constructor
    · calc tenPow k * tenPow j * den = tenPow k * den * tenPow j := by ring
        _ ≤ num * tenPow j := Nat.mul_le_mul_right _ hlow
    · calc num * tenPow j < tenPow (k + 1) * den * tenPow j := Nat.mul_lt_mul_of_pos_right hhigh (tenPow_pos j)
        _ = tenPow (k + 1) * tenPow j * den := by ring
  · obtain ⟨j, hj⟩ := Nat.exists_eq_add_of_le (Nat.le_of_lt_succ (Nat.lt_of_not_le hsmall))
    have hup : places.toNat = 0 := by omega
    have hdown : (-places).toNat = j + 1 := by omega
    rw [hup, hdown, hone, Nat.mul_one]
    constructor
    · calc tenPow (count - 1) * (den * tenPow (j + 1)) = tenPow (count - 1 + (j + 1)) * den := by
            rw [tenPow_add (count - 1)]
            ring
        _ = tenPow k * den := by rw [hj]; congr 2; omega
        _ ≤ num := hlow
    · calc num < tenPow (k + 1) * den := hhigh
        _ = tenPow (count + (j + 1)) * den := by rw [hj, Nat.add_assoc]
        _ = tenPow count * (den * tenPow (j + 1)) := by rw [tenPow_add count]; ring

theorem fraction_bounds {k : Nat} (hcount : 0 < count) (hlow : den ≤ tenPow (k + 1) * num) (hhigh : tenPow k * num < den)
    {places : Int} (hplaces : places = (count : Int) + k) :
    tenPow (count - 1) * (den * tenPow (-places).toNat) ≤ num * tenPow places.toNat ∧
      num * tenPow places.toNat < tenPow count * (den * tenPow (-places).toNat) := by
  have hup : places.toNat = count - 1 + (k + 1) := by omega
  have hdown : (-places).toNat = 0 := by omega
  have hone : tenPow 0 = 1 := rfl
  rw [hup, hdown, hone, Nat.mul_one, tenPow_add]
  constructor
  · calc tenPow (count - 1) * den ≤ tenPow (count - 1) * (tenPow (k + 1) * num) := Nat.mul_le_mul_left _ hlow
      _ = num * (tenPow (count - 1) * tenPow (k + 1)) := by ring
  · have hshift : tenPow (count - 1) * tenPow (k + 1) = tenPow count * tenPow k := by
      rw [← tenPow_add, ← tenPow_add]
      congr 1
      omega
    calc num * (tenPow (count - 1) * tenPow (k + 1)) = tenPow count * (tenPow k * num) := by rw [hshift]; ring
      _ < tenPow count * den := Nat.mul_lt_mul_of_pos_left hhigh (tenPow_pos count)

/-- The value between its powers of ten, with the point `count` digits behind the first one. -/
theorem decimalPoint_bounds (hnum : 0 < num) (hden : 0 < den) (hcount : 0 < count) {places : Int}
    (hplaces : places = Int.ofNat count - decimalPoint num den) :
    tenPow (count - 1) * (den * tenPow (-places).toNat) ≤ num * tenPow places.toNat ∧
      num * tenPow places.toNat < tenPow count * (den * tenPow (-places).toNat) := by
  rw [decimalPoint, Int.ofNat_eq_natCast] at hplaces
  split at hplaces
  next hle =>
    obtain ⟨k, hk, hlow, hhigh⟩ := length_toDigits (Nat.div_pos hle hden)
    rw [Nat.le_div_iff_mul_le hden] at hlow
    rw [Nat.div_lt_iff_lt_mul hden] at hhigh
    rw [hk, Int.ofNat_eq_natCast] at hplaces
    exact whole_bounds hcount hlow hhigh hplaces
  next hlt =>
    obtain ⟨k, hk, hlow, hhigh⟩ := length_toDigits (n := (den - 1) / num) (Nat.div_pos (by omega) hnum)
    rw [Nat.le_div_iff_mul_le hnum] at hlow
    rw [Nat.div_lt_iff_lt_mul hnum] at hhigh
    rw [hk, Int.ofNat_eq_natCast] at hplaces
    exact fraction_bounds (k := k) hcount (by omega) (by omega) (by omega)

/-- How many digits of the decimal stand behind the point, or how many zeros in front of it if less than none. -/
def Decimal.places (d : Decimal) : Int := Int.ofNat d.count - d.point

def Decimal.numerator (d : Decimal) : Nat := d.digits * tenPow (-d.places).toNat

def Decimal.denominator (d : Decimal) : Nat := tenPow d.places.toNat

theorem holds_of_lt {i : Interval} (hlow : i.low * den < num * i.unit) (hhigh : num * i.unit < i.high * den) :
    i.holds num den = true := by
  rw [Interval.holds]
  split
  · rw [Bool.and_eq_true, decide_eq_true_eq, decide_eq_true_eq]
    exact ⟨hlow.le, hhigh.le⟩
  · rw [Bool.and_eq_true, decide_eq_true_eq, decide_eq_true_eq]
    exact ⟨hlow, hhigh⟩

def Interval.floor (i : Interval) (point : Int) (count : Nat) : Decimal :=
  let places := Int.ofNat count - point
  ⟨i.value * tenPow places.toNat / (i.unit * tenPow (-places).toNat), count, point⟩

section Floor

variable (i : Interval) (point : Int) (count : Nat)

theorem floor_count : (i.floor point count).count = count := rfl

theorem floor_point : (i.floor point count).point = point := rfl

theorem floor_places : (i.floor point count).places = Int.ofNat count - point := rfl

theorem floor_digits_eq : (i.floor point count).digits =
    i.value * tenPow (Int.ofNat count - point).toNat / (i.unit * tenPow (-(Int.ofNat count - point)).toNat) := rfl

end Floor

def Decimal.next (d : Decimal) : Decimal := { d with digits := d.digits + 1 }

def Interval.holdsDecimal (i : Interval) (d : Decimal) : Bool := i.holds d.numerator d.denominator

theorem nearest?_eq {i : Interval} (point : Int) (count : Nat) :
    ∃ upperNearer : Bool, i.nearest? point count =
      if i.holdsDecimal (i.floor point count).next && (!i.holdsDecimal (i.floor point count) || upperNearer) then
        some (i.floor point count).next
      else if i.holdsDecimal (i.floor point count) then some (i.floor point count) else none :=
  ⟨_, rfl⟩

theorem nearest?_eq_some {i : Interval} {point : Int} {d : Decimal} (h : i.nearest? point count = some d) :
    (d = i.floor point count ∨ d = (i.floor point count).next) ∧ i.holdsDecimal d = true := by
  obtain ⟨upperNearer, heq⟩ := nearest?_eq (i := i) point count
  rw [heq] at h
  split at h
  next hupper =>
    cases h
    rw [Bool.and_eq_true] at hupper
    exact ⟨.inr rfl, hupper.1⟩
  next =>
    split at h
    next hlower =>
      cases h
      exact ⟨.inl rfl, hlower⟩
    next => cases h

theorem nearest?_isSome {i : Interval} {point : Int}
    (h : i.holdsDecimal (i.floor point count) = true ∨ i.holdsDecimal (i.floor point count).next = true) :
    (i.nearest? point count).isSome = true := by
  obtain ⟨upperNearer, heq⟩ := nearest?_eq (i := i) point count
  rw [heq]
  split
  · rfl
  next hupper =>
    cases hlower : i.holdsDecimal (i.floor point count) with
    | true => rfl
    | false =>
        rw [hlower] at h hupper
        have hnext := h.resolve_left Bool.false_ne_true
        rw [hnext] at hupper
        exact absurd rfl hupper

theorem floor_digits {i : Interval} (hvalue : 0 < i.value) (hunit : 0 < i.unit) (hcount : 0 < count) :
    tenPow (count - 1) ≤ (i.floor (decimalPoint i.value i.unit) count).digits ∧
      (i.floor (decimalPoint i.value i.unit) count).digits < tenPow count := by
  have hbounds := decimalPoint_bounds hvalue hunit hcount rfl
  rw [Interval.floor]
  have hpos : ∀ n, 0 < i.unit * tenPow n := fun n => Nat.mul_pos hunit (tenPow_pos n)
  exact ⟨(Nat.le_div_iff_mul_le (hpos _)).mpr hbounds.1, (Nat.div_lt_iff_lt_mul (hpos _)).mpr hbounds.2⟩

theorem significand_of_reach (h : x.reach = 1) : x.significand = twoPow 52 := by
  rw [reach] at h
  split at h
  next hpower => rw [significand, if_neg (by omega), hpower.1, Nat.add_zero]
  next => cases h

theorem interval_pos (hpos : 0 < x.significand) : 0 < x.interval.value ∧ 0 < x.interval.unit := by
  rw [interval]
  dsimp only
  exact ⟨Nat.mul_pos (Nat.mul_pos (by decide) hpos) (twoPow_pos _), twoPow_pos _⟩

/-- On the grid of seventeen digits the step is less than the interval on either side of the value, twice over. -/
theorem step_lt (hpos : 0 < x.significand) {places : Int}
    (hplaces : places = Int.ofNat 17 - decimalPoint x.interval.value x.interval.unit) :
    x.interval.unit * tenPow (-places).toNat < 2 * (x.reach * (twoPow x.scale * tenPow places.toNat)) := by
  have hlow := (decimalPoint_bounds (interval_pos hpos).1 (interval_pos hpos).2 (by decide) hplaces).1
  have hvalue : x.interval.value * tenPow places.toNat =
      4 * (x.significand * (twoPow x.scale * tenPow places.toNat)) := by
    rw [interval]
    ring
  rw [hvalue] at hlow
  generalize hgap : twoPow x.scale * tenPow places.toNat = gap at *
  have hgappos : 0 < gap := hgap ▸ Nat.mul_pos (twoPow_pos _) (tenPow_pos _)
  generalize x.interval.unit * tenPow (-places).toNat = step at *
  have hten : twoPow 53 * gap < tenPow 16 * gap := Nat.mul_lt_mul_of_pos_right (by decide) hgappos
  have hcount : tenPow (17 - 1) = tenPow 16 := rfl
  rw [hcount] at hlow
  by_contra hge
  have hmul : tenPow 16 * (2 * (x.reach * gap)) ≤ tenPow 16 * step := Nat.mul_le_mul_left _ (Nat.le_of_not_lt hge)
  rw [Nat.mul_left_comm, Nat.mul_left_comm (tenPow 16)] at hmul
  rcases x.reach_eq with hreach | hreach
  · have hdouble : twoPow 53 = twoPow 52 + twoPow 52 := by decide
    rw [significand_of_reach hreach] at hlow
    rw [hdouble, Nat.add_mul] at hten
    rw [hreach] at hmul
    omega
  · have hlt : x.significand * gap < twoPow 53 * gap := Nat.mul_lt_mul_of_pos_right x.significand_lt hgappos
    rw [hreach] at hmul
    omega

theorem holdsDecimal_of_lt (hpos : 0 < x.significand) {d : Decimal} {gap : Nat}
    (hgap : twoPow x.scale * tenPow d.places.toNat = gap)
    (hlow : 4 * (x.significand * gap) < d.digits * (x.interval.unit * tenPow (-d.places).toNat) + x.reach * gap)
    (hhigh : d.digits * (x.interval.unit * tenPow (-d.places).toNat) < 4 * (x.significand * gap) + 2 * gap) :
    x.interval.holdsDecimal d = true := by
  have hnumerator : d.numerator * x.interval.unit = d.digits * (x.interval.unit * tenPow (-d.places).toNat) := by
    rw [Decimal.numerator]
    ring
  have hle : x.reach * gap ≤ 4 * (x.significand * gap) := by
    rw [← Nat.mul_assoc]
    apply Nat.mul_le_mul_right
    rcases x.reach_eq with h | h <;> omega
  apply holds_of_lt
  · rw [hnumerator, low_eq, Decimal.denominator, hgap]
    omega
  · rw [hnumerator, high_eq, Decimal.denominator, hgap]
    exact hhigh

/-- Of the two decimals of seventeen digits around the value, one lies in the interval: the nearer one. -/
theorem holdsDecimal_seventeen (hpos : 0 < x.significand) {d : Decimal}
    (hd : d = x.interval.floor (decimalPoint x.interval.value x.interval.unit) 17) :
    x.interval.holdsDecimal d = true ∨ x.interval.holdsDecimal d.next = true := by
  have hplaces : d.places = Int.ofNat 17 - decimalPoint x.interval.value x.interval.unit := by
    rw [hd, floor_places]
  have hnext : d.next.places = d.places := rfl
  have hstep := step_lt hpos hplaces
  have hdigits : d.digits = x.interval.value * tenPow d.places.toNat / (x.interval.unit * tenPow (-d.places).toNat) := by
    rw [hplaces, hd, floor_digits_eq]
  have hvalue : x.interval.value * tenPow d.places.toNat =
      4 * (x.significand * (twoPow x.scale * tenPow d.places.toNat)) := by
    rw [interval]
    ring
  have hunit : 0 < x.interval.unit * tenPow (-d.places).toNat := Nat.mul_pos (interval_pos hpos).2 (tenPow_pos _)
  rw [hvalue] at hdigits
  generalize hgap : twoPow x.scale * tenPow d.places.toNat = gap at *
  have hgappos : 0 < gap := hgap ▸ Nat.mul_pos (twoPow_pos _) (tenPow_pos _)
  generalize hdef : x.interval.unit * tenPow (-d.places).toNat = unit at *
  have hsplit := Nat.div_add_mod' (4 * (x.significand * gap)) unit
  have hrest := Nat.mod_lt (4 * (x.significand * gap)) hunit
  rw [← hdigits] at hsplit
  by_cases hnear : 2 * (4 * (x.significand * gap) % unit) ≤ unit
  · refine .inl (holdsDecimal_of_lt hpos hgap ?_ ?_) <;> rw [hdef] <;> omega
  · have hmore : (d.digits + 1) * unit = d.digits * unit + unit := Nat.succ_mul _ _
    have hreach : x.reach * gap ≤ 2 * gap := by
      apply Nat.mul_le_mul_right
      rcases x.reach_eq with h | h <;> omega
    refine .inr (holdsDecimal_of_lt hpos (hnext ▸ hgap) ?_ ?_) <;> rw [hnext, hdef, Decimal.next, hmore] <;> omega

/-- What the shortest decimal of a double is known to be. -/
structure Decimal.StandsFor (d : Decimal) (x : Number) : Prop where
  count_pos : 0 < d.count
  count_le : d.count ≤ 17
  point_eq : d.point = decimalPoint x.interval.value x.interval.unit
  low : tenPow (d.count - 1) ≤ d.digits
  high : d.digits ≤ tenPow d.count
  holds : x.interval.holdsDecimal d = true

theorem shortest_standsFor (hpos : 0 < x.significand) : x.shortest.StandsFor x := by
  obtain ⟨hvalue, hunit⟩ := interval_pos hpos
  have hfound : (((List.range 17).map (· + 1)).findSome?
      (x.interval.nearest? (decimalPoint x.interval.value x.interval.unit))).isSome = true := by
    rw [List.findSome?_isSome_iff]
    exact ⟨17, by decide, nearest?_isSome (holdsDecimal_seventeen hpos rfl)⟩
  obtain ⟨d, hd⟩ := Option.isSome_iff_exists.mp hfound
  have hshortest : x.shortest = d := by rw [shortest, Interval.shortest, hd]; rfl
  obtain ⟨count, hmem, hnearest⟩ := List.exists_of_findSome?_eq_some hd
  obtain ⟨k, hk, rfl⟩ := List.mem_map.mp hmem
  obtain ⟨hgrid, hholds⟩ := nearest?_eq_some hnearest
  obtain ⟨hlow, hhigh⟩ := floor_digits hvalue hunit (Nat.succ_pos k)
  have hk := List.mem_range.mp hk
  rw [hshortest]
  have hcount := floor_count x.interval (decimalPoint x.interval.value x.interval.unit) (k + 1)
  have hpoint := floor_point x.interval (decimalPoint x.interval.value x.interval.unit) (k + 1)
  generalize x.interval.floor (decimalPoint x.interval.value x.interval.unit) (k + 1) = floor at *
  rcases hgrid with rfl | rfl
  · exact ⟨by omega, by omega, hpoint, by rwa [hcount], by rw [hcount]; exact hhigh.le, hholds⟩
  · have hnext : floor.next.count = k + 1 := hcount
    exact ⟨by omega, by omega, hpoint, by rw [hnext]; exact hlow.trans (Nat.le_succ _), by rw [hnext]; exact hhigh, hholds⟩

end Decimals

section Ratios

variable {num' den' : Nat}

theorem mul_le_ratio_iff (hden : 0 < den) (hden' : 0 < den') (h : num * den' = num' * den) (a u : Nat) :
    a * den ≤ num * u ↔ a * den' ≤ num' * u := by
  have hleft : a * den * den' = a * den' * den := Nat.mul_right_comm _ _ _
  have hright : num * u * den' = num' * u * den := by rw [Nat.mul_right_comm, h, Nat.mul_right_comm]
  rw [← Nat.mul_le_mul_right_iff hden', hleft, hright, Nat.mul_le_mul_right_iff hden]

theorem ratio_le_mul_iff (hden : 0 < den) (hden' : 0 < den') (h : num * den' = num' * den) (a u : Nat) :
    num * u ≤ a * den ↔ num' * u ≤ a * den' := by
  have hleft : num * u * den' = num' * u * den := by rw [Nat.mul_right_comm, h, Nat.mul_right_comm]
  have hright : a * den * den' = a * den' * den := Nat.mul_right_comm _ _ _
  rw [← Nat.mul_le_mul_right_iff hden', hleft, hright, Nat.mul_le_mul_right_iff hden]

theorem holds_congr {i : Interval} (hden : 0 < den) (hden' : 0 < den') (h : num * den' = num' * den) :
    i.holds num den = i.holds num' den' := by
  simp only [Interval.holds, ← Nat.not_le, mul_le_ratio_iff hden hden' h, ratio_le_mul_iff hden hden' h]

theorem ofRatio_eq (hneg : x.isNegative = false) (hfinite : x.isFinite = true) (hden : 0 < den)
    (h : x.interval.holds num den = true) : ofRatio false num den = x := by
  rw [ofRatio, signed, bitsOfRatio_eq hneg hfinite hden h]
  exact congrArg Number.mk UInt64.ofNat_toNat

theorem twoPow_le_tenPow (n : Nat) : twoPow (3 * n) ≤ tenPow n := by
  have hcube : twoPow (3 * n) = 8 ^ n := Nat.pow_mul 2 3 n
  rw [hcube]
  exact Nat.pow_le_pow_left (by decide) n

theorem tenPow_le {m n : Nat} (h : m ≤ n) : tenPow m ≤ tenPow n := Nat.pow_le_pow_right (by decide) h

theorem twoPow_le {m n : Nat} (h : m ≤ n) : twoPow m ≤ twoPow n := Nat.pow_le_pow_right (by decide) h

theorem value_lt (hfinite : x.isFinite = true) : x.interval.value < twoPow 2100 := by
  have hscale : x.scale ≤ 2045 := by
    have hexponent : x.exponentBits < 2048 := Nat.mod_lt _ (by decide)
    rw [isFinite, bne_iff_ne] at hfinite
    rw [scale]
    omega
  have hsum : 2100 = 2 + 53 + 2045 := rfl
  have hfour : twoPow 2 = 4 := by decide
  rw [interval]
  dsimp only
  rw [hsum, twoPow_add, twoPow_add, hfour]
  calc 4 * x.significand * twoPow x.scale < 4 * twoPow 53 * twoPow x.scale :=
        Nat.mul_lt_mul_of_pos_right (Nat.mul_lt_mul_of_pos_left x.significand_lt (by decide)) (twoPow_pos _)
    _ ≤ 4 * twoPow 53 * twoPow 2045 := Nat.mul_le_mul_left _ (twoPow_le hscale)

theorem decimalPoint_interval (hpos : 0 < x.significand) (hfinite : x.isFinite = true) :
    -359 ≤ decimalPoint x.interval.value x.interval.unit ∧ decimalPoint x.interval.value x.interval.unit ≤ 342 := by
  obtain ⟨hvalue, hunit⟩ := interval_pos hpos
  have hlt := value_lt hfinite
  have hunit_eq : x.interval.unit = twoPow 1076 := by rw [interval]
  rw [hunit_eq] at hunit ⊢
  generalize x.interval.value = value at *
  rw [decimalPoint]
  split
  next hle =>
    obtain ⟨k, hk, hlow, -⟩ := length_toDigits (Nat.div_pos hle hunit)
    rw [Nat.le_div_iff_mul_le hunit] at hlow
    have hsmall : k < 342 := by
      by_contra hge
      have hsum : 3 * 342 + 1076 = 2102 := rfl
      have hbig : twoPow 2102 ≤ tenPow k * twoPow 1076 := by
        rw [← hsum, twoPow_add]
        exact Nat.mul_le_mul_right _ ((twoPow_le_tenPow 342).trans (tenPow_le (by omega)))
      have hmore : twoPow 2100 ≤ twoPow 2102 := twoPow_le (by decide)
      omega
    rw [hk, Int.ofNat_eq_natCast]
    omega
  next hgt =>
    obtain ⟨k, hk, hlow, -⟩ := length_toDigits (n := (twoPow 1076 - 1) / value) (Nat.div_pos (by omega) hvalue)
    have hsmall : k < 359 := by
      by_contra hge
      have hbig : twoPow 1076 ≤ tenPow k :=
        (twoPow_le (by decide)).trans ((twoPow_le_tenPow 359).trans (tenPow_le (by omega)))
      have hdiv := Nat.div_le_self (twoPow 1076 - 1) value
      omega
    rw [hk, Int.ofNat_eq_natCast]
    omega

end Ratios

end Memoizer.Number
