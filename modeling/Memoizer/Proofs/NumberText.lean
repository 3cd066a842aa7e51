import Mathlib
import Memoizer.Number.Format
import Memoizer.Proofs.Shortest
import Memoizer.Proofs.Tokens

namespace Memoizer

open Number Source

section Digits

theorem foldl_digits (n : Nat) (digits : List Char) :
    digits.foldl (fun n c => 10 * n + (Text.Quoted.hexDigit? c).getD 0) n =
      n * tenPow digits.length + valueIn 10 digits := by
  induction digits using List.reverseRecOn with
  | nil => exact (Nat.mul_one n).symm
  | append_singleton digits c ih =>
      have hone : tenPow 1 = 10 := rfl
      rw [valueIn, List.foldl_append, List.foldl_append, ih, List.length_append, List.length_singleton, tenPow_add, hone,
        valueIn, List.foldl_cons, List.foldl_cons, List.foldl_nil, List.foldl_nil]
      ring

theorem valueIn_append (front back : List Char) :
    valueIn 10 (front ++ back) = valueIn 10 front * tenPow back.length + valueIn 10 back := by
  rw [valueIn, List.foldl_append, foldl_digits]
  rfl

theorem valueIn_zeros (n : Nat) : valueIn 10 (zeros n) = 0 := by
  induction n with
  | zero => rfl
  | succ n ih =>
      have hzero : valueIn 10 ['0'] = 0 := by decide
      have hsplit : zeros (n + 1) = ['0'] ++ zeros n := rfl
      rw [hsplit, valueIn_append, hzero, ih, Nat.zero_mul]

def significantDigits (n : Nat) : List Char := ((digitsText n).reverse.dropWhile (· == '0')).reverse

theorem digitsText_eq (n : Nat) : ∃ z, digitsText n = significantDigits n ++ zeros z := by
  obtain ⟨z, hz⟩ : ∃ z, (digitsText n).reverse.takeWhile (· == '0') = zeros z :=
    ⟨_, List.eq_replicate_iff.mpr ⟨rfl, fun c hc => by simpa using List.mem_takeWhile_imp hc⟩⟩
  refine ⟨z, ?_⟩
  calc digitsText n = (digitsText n).reverse.reverse := (List.reverse_reverse _).symm
    _ = (zeros z ++ (digitsText n).reverse.dropWhile (· == '0')).reverse := by
        rw [← hz, List.takeWhile_append_dropWhile]
    _ = significantDigits n ++ zeros z := by
        rw [List.reverse_append, significantDigits, zeros, List.reverse_replicate]

variable {n : Nat}

theorem isDigit_of_mem_significant {c : Char} (h : c ∈ significantDigits n) : c.isDigit = true := by
  obtain ⟨z, hz⟩ := digitsText_eq n
  have hmem : c ∈ digitsText n := by
    rw [hz]
    exact List.mem_append_left _ h
  exact isDigit_of_mem hmem

theorem isDigit_of_mem_zeros {c : Char} (h : c ∈ zeros n) : c.isDigit = true := by
  rw [List.eq_of_mem_replicate h]
  rfl

theorem head_significant (hn : 0 < n) : ∃ c cs, significantDigits n = c :: cs ∧ c ≠ '0' := by
  obtain ⟨z, hz⟩ := digitsText_eq n
  have hhead : (digitsText n).head? ≠ some '0' := head?_toDigits hn
  cases hdigits : significantDigits n with
  | nil =>
      rw [hz, hdigits, List.nil_append] at hhead
      have hzero : z = 0 := by
        by_contra hne
        obtain ⟨k, rfl⟩ := Nat.exists_eq_succ_of_ne_zero hne
        exact hhead rfl
      rw [hdigits, hzero] at hz
      exact absurd hz Nat.toDigits_ne_nil
  | cons c cs =>
      rw [hz, hdigits] at hhead
      exact ⟨c, cs, rfl, fun h => hhead (congrArg some h)⟩

end Digits

section Values

variable {x : Number} {d : Decimal}

theorem ofDecimal_eq (hneg : x.isNegative = false) (hfinite : x.isFinite = true) {digits : Nat} {e : Int}
    (hpos : 0 < digits) (hlow : -401 ≤ e) (hhigh : Int.ofNat (Nat.toDigits 10 digits).length + e ≤ 400)
    (h : x.interval.holds (digits * tenPow e.toNat) (tenPow (-e).toNat) = true) : ofDecimal digits e = x := by
  have hlength : 0 < (Nat.toDigits 10 digits).length := Nat.length_toDigits_pos
  rw [Int.ofNat_eq_natCast] at hhigh
  have hlarge : ¬ 400 < Int.ofNat (Nat.toDigits 10 digits).length + e := by rw [Int.ofNat_eq_natCast]; omega
  have hsmall : ¬ Int.ofNat (Nat.toDigits 10 digits).length + e < -400 := by rw [Int.ofNat_eq_natCast]; omega
  have hone : tenPow 0 = 1 := rfl
  rw [ofDecimal, if_neg hpos.ne']
  dsimp only
  rw [if_neg hlarge, if_neg hsmall]
  split
  next he =>
    have hdown : (-e).toNat = 0 := by omega
    rw [hdown, hone] at h
    exact ofRatio_eq hneg hfinite Nat.one_pos h
  next he =>
    have hup : e.toNat = 0 := by omega
    rw [hup, hone, Nat.mul_one] at h
    exact ofRatio_eq hneg hfinite (tenPow_pos _) h

/-- The decimal with its point moved and zeros taken off or added. -/
theorem holds_shifted (h : x.interval.holdsDecimal d = true) {digits w z : Nat} {e : Int}
    (hd : d.digits = digits * tenPow z) (he : (w : Int) + e = z - d.places) :
    x.interval.holds (digits * tenPow w * tenPow e.toNat) (tenPow (-e).toNat) = true := by
  rw [Interval.holdsDecimal, Decimal.numerator, Decimal.denominator, hd] at h
  rw [← h]
  refine (holds_congr (tenPow_pos _) (tenPow_pos _) ?_).symm
  have hsum : z + (-d.places).toNat + (-e).toNat = w + e.toNat + d.places.toNat := by omega
  calc digits * tenPow z * tenPow (-d.places).toNat * tenPow (-e).toNat
      = digits * tenPow (z + (-d.places).toNat + (-e).toNat) := by rw [tenPow_add, tenPow_add]; ring
    _ = digits * tenPow w * tenPow e.toNat * tenPow d.places.toNat := by rw [hsum, tenPow_add, tenPow_add]; ring

def extraDigits (d : Decimal) : Nat := (digitsText d.digits).length - d.count

theorem length_digitsText (h : d.StandsFor x) :
    (digitsText d.digits).length = d.count + extraDigits d ∧ extraDigits d ≤ 1 := by
  have hpos : 0 < d.digits := (tenPow_pos _).trans_le h.low
  obtain ⟨k, hk, hlow, hhigh⟩ := length_toDigits hpos
  have hmin : d.count ≤ k + 1 := by
    by_contra hlt
    have hle := (tenPow_le (show k + 1 ≤ d.count - 1 by omega)).trans h.low
    omega
  have hmax : k ≤ d.count := by
    by_contra hlt
    have hle := (tenPow_le (show d.count + 1 ≤ k by omega)).trans hlow
    have hten : tenPow (d.count + 1) = tenPow d.count * 10 := tenPow_add d.count 1
    have hhigh := h.high
    have hpow := tenPow_pos d.count
    omega
  rw [extraDigits, digitsText, hk]
  omega

/-- Where the point stands behind the first digit of the written decimal. -/
def writtenPoint (d : Decimal) : Int := d.point + Int.ofNat (extraDigits d)

theorem digits_eq (d : Decimal) : ∃ z, d.digits = valueIn 10 (significantDigits d.digits) * tenPow z ∧
    (digitsText d.digits).length = (significantDigits d.digits).length + z := by
  obtain ⟨z, hz⟩ := digitsText_eq d.digits
  refine ⟨z, ?_, ?_⟩
  · calc d.digits = valueIn 10 (digitsText d.digits) := (valueIn_toDigits _).symm
      _ = valueIn 10 (significantDigits d.digits) * tenPow z := by
          rw [hz, valueIn_append, valueIn_zeros, zeros, List.length_replicate, Nat.add_zero]
  · calc (digitsText d.digits).length = (significantDigits d.digits ++ zeros z).length := by rw [← hz]
      _ = (significantDigits d.digits).length + z := by rw [List.length_append, zeros, List.length_replicate]

/-- The significant digits with the point where it is written, or with as many zeros behind them, are the double. -/
theorem ofDecimal_written (hneg : x.isNegative = false) (hfinite : x.isFinite = true) (hpos : 0 < x.significand)
    (h : d.StandsFor x) {w : Nat} {e : Int}
    (he : (w : Int) + e = writtenPoint d - (significantDigits d.digits).length) (hplaces : e = 0 ∨ w = 0 ∧ e < 0) :
    ofDecimal (valueIn 10 (significantDigits d.digits) * tenPow w) e = x := by
  obtain ⟨z, hdigits, hlength⟩ := digits_eq d
  obtain ⟨hcount, hextra⟩ := length_digitsText h
  obtain ⟨hpointlow, hpointhigh⟩ := decimalPoint_interval hpos hfinite
  have hpoint := h.point_eq
  have hcountle := h.count_le
  have hvalue : 0 < valueIn 10 (significantDigits d.digits) := by
    have hdpos : 0 < d.digits := (tenPow_pos _).trans_le h.low
    rw [hdigits] at hdpos
    exact Nat.pos_of_mul_pos_right hdpos
  have hsmall : valueIn 10 (significantDigits d.digits) < tenPow 18 := by
    calc valueIn 10 (significantDigits d.digits)
        ≤ valueIn 10 (significantDigits d.digits) * tenPow z := Nat.le_mul_of_pos_right _ (tenPow_pos z)
      _ = d.digits := hdigits.symm
      _ ≤ tenPow 17 := h.high.trans (tenPow_le hcountle)
      _ < tenPow 18 := by decide
  have hsize : (Nat.toDigits 10 (valueIn 10 (significantDigits d.digits) * tenPow w)).length ≤ 18 + w := by
    have hlt : valueIn 10 (significantDigits d.digits) * tenPow w < tenPow (18 + w) := by
      rw [tenPow_add]
      exact Nat.mul_lt_mul_of_pos_right hsmall (tenPow_pos w)
    exact (Nat.length_toDigits_le_iff (by decide) (by omega)).mpr hlt
  rw [writtenPoint, Int.ofNat_eq_natCast] at he
  have hmoved : (w : Int) + e = z - d.places := by
    rw [Decimal.places, Int.ofNat_eq_natCast]
    omega
  refine ofDecimal_eq hneg hfinite (Nat.mul_pos hvalue (tenPow_pos w)) ?_ ?_ (holds_shifted h.holds hdigits hmoved)
  · omega
  · rw [Int.ofNat_eq_natCast]
    omega

end Values

section Texts

variable {x : Number} {d : Decimal} {rest : List Char}

theorem positional_eq (d : Decimal) : d.positional.toList =
    if writtenPoint d ≤ 0 then "0.".toList ++ zeros (-writtenPoint d).toNat ++ significantDigits d.digits
    else if (significantDigits d.digits).length ≤ (writtenPoint d).toNat then
      significantDigits d.digits ++ zeros ((writtenPoint d).toNat - (significantDigits d.digits).length)
    else (significantDigits d.digits).take (writtenPoint d).toNat ++ ['.'] ++
      (significantDigits d.digits).drop (writtenPoint d).toNat := by
  have hpositional : d.positional =
      if writtenPoint d ≤ 0 then String.ofList ("0.".toList ++ zeros (-writtenPoint d).toNat ++ significantDigits d.digits)
      else if (significantDigits d.digits).length ≤ (writtenPoint d).toNat then
        String.ofList (significantDigits d.digits ++ zeros ((writtenPoint d).toNat - (significantDigits d.digits).length))
      else String.ofList ((significantDigits d.digits).take (writtenPoint d).toNat ++ ['.'] ++
        (significantDigits d.digits).drop (writtenPoint d).toNat) := rfl
  rw [hpositional]
  split_ifs <;> exact String.toList_ofList

theorem lexes_decimal {text : List Char} {token : Token} (hrest : Ends rest) {c : Char} {cs : List Char}
    (htext : text = c :: cs) (hc : c.isDigit = true) (hform : c ≠ '0' ∨ Ends (cs ++ rest))
    (h : lexDecimal (text ++ rest) = (token, text.length)) : Lexes text rest token := by
  subst htext
  refine lexes_of_lexNumber (List.cons_ne_nil c cs) (by rintro d ⟨⟩; exact hc) ?_
  have hnumber : lexNumber (c :: cs ++ rest) = endsNumber (c :: cs ++ rest) (lexDecimal (c :: cs ++ rest)) := by
    by_cases hzero : c = '0'
    · subst hzero
      exact lexNumber_zero (hform.resolve_left fun h => h rfl)
    · exact lexNumber_of_head hzero
  rw [hnumber, h]
  exact endsNumber_append hrest _ _

theorem ends_point (cs : List Char) : Ends ('.' :: cs) := by
  rintro d ⟨⟩
  decide

theorem lexes_fraction {whole places : List Char} (hwhole : ∀ c ∈ whole, c.isDigit = true)
    (hplaces : ∀ c ∈ places, c.isDigit = true) (hrest : Ends rest) (hne : whole ≠ [])
    (hzero : whole.head? = some '0' → whole = ['0']) :
    Lexes (whole ++ '.' :: places) rest
      (.number (ofDecimal (valueIn 10 (whole ++ places)) (0 - Int.ofNat places.length))) := by
  cases whole with
  | nil => exact absurd rfl hne
  | cons c cs =>
      refine lexes_decimal hrest (List.cons_append ..) (hwhole c (List.mem_cons_self ..)) ?_ ?_
      · by_cases hc : c = '0'
        · have hcs : cs = [] := by
            subst hc
            exact (List.cons.inj (hzero rfl)).2
          rw [hcs]
          exact .inr (ends_point _)
        · exact .inl hc
      · rw [List.append_assoc]
        exact lexDecimal_fraction hwhole hplaces hrest

theorem lexes_positional (hneg : x.isNegative = false) (hfinite : x.isFinite = true) (hpos : 0 < x.significand)
    (h : d.StandsFor x) (hrest : Ends rest) (hpoint : rest.head? ≠ some '.') :
    Lexes d.positional.toList rest (.number x) := by
  obtain ⟨c, cs, hdigits, hc⟩ := head_significant ((tenPow_pos _).trans_le h.low)
  have hisDigit : ∀ c ∈ significantDigits d.digits, c.isDigit = true := fun _ => isDigit_of_mem_significant
  have hlength : 0 < (significantDigits d.digits).length := by rw [hdigits]; exact Nat.succ_pos _
  have hone : tenPow 0 = 1 := rfl
  rw [positional_eq]
  split_ifs with hnonpos hwhole
  · -- zeros behind the point
    let places := zeros (-writtenPoint d).toNat ++ significantDigits d.digits
    have hplaces : ∀ c ∈ places, c.isDigit = true := by
      intro c hmem
      exact (List.mem_append.mp hmem).elim isDigit_of_mem_zeros (hisDigit c)
    have hvalue : valueIn 10 (['0'] ++ places) = valueIn 10 (significantDigits d.digits) * tenPow 0 := by
      have hzero : valueIn 10 ['0'] = 0 := by decide
      rw [valueIn_append, valueIn_append, valueIn_zeros, hzero, hone]
      ring
    have hexponent : 0 - Int.ofNat places.length = writtenPoint d - (significantDigits d.digits).length := by
      simp only [places, List.length_append, zeros, List.length_replicate, Int.ofNat_eq_natCast]
      omega
    have hzero : ∀ c ∈ ['0'], c.isDigit = true := by simp
    have hlexes := lexes_fraction hzero hplaces hrest (List.cons_ne_nil _ _) (fun _ => rfl)
    rw [hvalue, hexponent, ofDecimal_written hneg hfinite hpos h (by simp) (.inr ⟨rfl, by omega⟩)] at hlexes
    rw [List.append_assoc]
    exact hlexes
  · -- no digit behind the point
    let k := (writtenPoint d).toNat - (significantDigits d.digits).length
    have hall : ∀ c ∈ significantDigits d.digits ++ zeros k, c.isDigit = true := by
      intro c hmem
      exact (List.mem_append.mp hmem).elim (hisDigit c) isDigit_of_mem_zeros
    have hvalue : valueIn 10 (significantDigits d.digits ++ zeros k) =
        valueIn 10 (significantDigits d.digits) * tenPow k := by
      rw [valueIn_append, valueIn_zeros, Nat.add_zero, zeros, List.length_replicate]
    have hlexes := lexDecimal_whole hall hrest hpoint
    rw [hvalue, ofDecimal_written hneg hfinite hpos h (by omega) (.inl rfl)] at hlexes
    have hhead : significantDigits d.digits ++ zeros k = c :: (cs ++ zeros k) := by rw [hdigits]; rfl
    exact lexes_decimal hrest hhead (hall c (hhead ▸ List.mem_cons_self ..)) (.inl hc) hlexes
  · -- the point among the digits
    have hsplit := List.take_append_drop (writtenPoint d).toNat (significantDigits d.digits)
    have htake : ∀ c ∈ (significantDigits d.digits).take (writtenPoint d).toNat, c.isDigit = true :=
      fun c hmem => hisDigit c (List.mem_of_mem_take hmem)
    have hdrop : ∀ c ∈ (significantDigits d.digits).drop (writtenPoint d).toNat, c.isDigit = true :=
      fun c hmem => hisDigit c (List.mem_of_mem_drop hmem)
    obtain ⟨k, hk⟩ : ∃ k, (writtenPoint d).toNat = k + 1 := ⟨(writtenPoint d).toNat - 1, by omega⟩
    have hhead : (significantDigits d.digits).take (writtenPoint d).toNat = c :: cs.take k := by rw [hdigits, hk]; rfl
    have hexponent : 0 - Int.ofNat ((significantDigits d.digits).drop (writtenPoint d).toNat).length =
        writtenPoint d - (significantDigits d.digits).length := by
      rw [List.length_drop, Int.ofNat_eq_natCast]
      omega
    have hlexes := lexes_fraction htake hdrop hrest (by rw [hhead]; exact List.cons_ne_nil _ _)
      (fun hzero => by rw [hhead] at hzero; exact absurd (Option.some.inj hzero) hc)
    rw [hsplit, hexponent, ← Nat.mul_one (valueIn 10 (significantDigits d.digits)), ← hone,
      ofDecimal_written hneg hfinite hpos h (by simp) (.inr ⟨rfl, by omega⟩)] at hlexes
    rw [List.append_assoc]
    exact hlexes

theorem format_shortest (hneg : x.isNegative = false) (hfinite : x.isFinite = true)
    (hlarge : ∀ n, x.wholePart? = some n → tenPow 15 ≤ n) : x.format = x.shortest.positional := by
  have hplain : x.signText = "" := by
    rw [signText, hneg]
    rfl
  rw [format, isNaN_of_isFinite hfinite, hfinite, hplain, String.empty_append]
  simp only [Bool.false_eq_true, if_false, Bool.not_true]
  cases hwhole : x.wholePart? with
  | none => rfl
  | some n =>
      have hge := hlarge n hwhole
      cases n with
      | zero => exact absurd hge (by decide)
      | succ n => exact if_neg (Nat.not_lt.mpr hge)

theorem significand_pos (h : x.wholePart? ≠ some 0) (hfinite : x.isFinite = true) : 0 < x.significand := by
  by_contra hzero
  apply h
  have hsignificand : x.significand = 0 := Nat.eq_zero_of_not_pos hzero
  rw [wholePart?, hfinite, hsignificand, Nat.zero_mul]
  simp

theorem format_cases (hneg : x.isNegative = false) (hfinite : x.isFinite = true) :
    (∃ n, x.wholePart? = some n ∧ n < tenPow 15 ∧ x.format.toList = Nat.toDigits 10 n) ∨
      0 < x.significand ∧ x.format = x.shortest.positional := by
  by_cases hsmall : ∃ n, x.wholePart? = some n ∧ n < tenPow 15
  · obtain ⟨n, hwhole, hn⟩ := hsmall
    exact .inl ⟨n, hwhole, hn, format_whole hneg hwhole hn⟩
  · refine .inr ⟨significand_pos (fun hzero => hsmall ⟨0, hzero, by decide⟩) hfinite, ?_⟩
    exact format_shortest hneg hfinite fun n hwhole => Nat.le_of_not_lt fun hn => hsmall ⟨n, hwhole, hn⟩

/-- The text of a finite number that is not negative is a token, and the token is that number. -/
theorem lexes_format (hneg : x.isNegative = false) (hfinite : x.isFinite = true) (hrest : Ends rest)
    (hpoint : rest.head? ≠ some '.') : Lexes x.format.toList rest (.number x) := by
  rcases format_cases hneg hfinite with ⟨n, hwhole, hn, htext⟩ | ⟨hpos, htext⟩
  · rw [htext, ← ofNat_eq_of_wholePart hneg hwhole]
    exact lexes_number hn hrest hpoint
  · rw [htext]
    exact lexes_positional hneg hfinite hpos (shortest_standsFor hpos) hrest hpoint

theorem head_positional (h : 0 < d.digits) : ∃ c cs, d.positional.toList = c :: cs ∧ c.isDigit = true := by
  obtain ⟨c, cs, hdigits, -⟩ := head_significant h
  have hc : c.isDigit = true := isDigit_of_mem_significant (hdigits ▸ List.mem_cons_self ..)
  rw [positional_eq, hdigits]
  split_ifs with hnonpos hwhole
  · exact ⟨'0', _, rfl, rfl⟩
  · exact ⟨c, _, rfl, hc⟩
  · obtain ⟨k, hk⟩ : ∃ k, (writtenPoint d).toNat = k + 1 := ⟨(writtenPoint d).toNat - 1, by omega⟩
    rw [hk]
    exact ⟨c, _, rfl, hc⟩

theorem head_format (hneg : x.isNegative = false) (hfinite : x.isFinite = true) :
    ∃ c cs, x.format.toList = c :: cs ∧ c.isDigit = true := by
  rcases format_cases hneg hfinite with ⟨n, -, -, htext⟩ | ⟨hpos, htext⟩
  · obtain ⟨c, cs, hdigits⟩ := List.exists_cons_of_ne_nil (Nat.toDigits_ne_nil (n := n) (b := 10))
    exact ⟨c, cs, by rw [htext, hdigits], isDigit_of_mem (hdigits ▸ List.mem_cons_self ..)⟩
  · rw [htext]
    exact head_positional ((tenPow_pos _).trans_le (shortest_standsFor hpos).low)

end Texts

section Signs

variable {x : Number}

def Number.magnitude (x : Number) : Number := .signed false (x.bits.toNat % twoPow 63)

theorem bits_magnitude (x : Number) : x.magnitude.bits.toNat = x.bits.toNat % twoPow 63 := by
  have hlt : x.bits.toNat % twoPow 63 < twoPow 63 := Nat.mod_lt _ (twoPow_pos 63)
  have hsize : twoPow 63 < 2 ^ 64 := by decide
  exact UInt64.toNat_ofNat_of_lt' (hlt.trans hsize)

theorem isNegative_magnitude (x : Number) : x.magnitude.isNegative = false := by
  rw [isNegative, bits_magnitude, Nat.div_eq_of_lt (Nat.mod_lt _ (twoPow_pos 63))]
  rfl

theorem exponentBits_magnitude (x : Number) : x.magnitude.exponentBits = x.exponentBits := by
  have hexponent : twoPow 63 = twoPow 52 * twoPow 11 := by decide
  rw [exponentBits, exponentBits, bits_magnitude, hexponent, Nat.mod_mul_right_div_self, Nat.mod_mod]

theorem fractionBits_magnitude (x : Number) : x.magnitude.fractionBits = x.fractionBits := by
  have hfraction : twoPow 52 ∣ twoPow 63 := by decide
  rw [fractionBits, fractionBits, bits_magnitude, Nat.mod_mod_of_dvd _ hfraction]

theorem isFinite_magnitude (x : Number) : x.magnitude.isFinite = x.isFinite := by
  rw [isFinite, isFinite, exponentBits_magnitude]

theorem isNaN_magnitude (x : Number) : x.magnitude.isNaN = x.isNaN := by
  rw [isNaN, isNaN, exponentBits_magnitude, fractionBits_magnitude]

theorem significand_magnitude (x : Number) : x.magnitude.significand = x.significand := by
  rw [significand, significand, exponentBits_magnitude, fractionBits_magnitude]

theorem scale_magnitude (x : Number) : x.magnitude.scale = x.scale := by
  rw [scale, scale, exponentBits_magnitude]

theorem wholePart?_magnitude (x : Number) : x.magnitude.wholePart? = x.wholePart? := by
  rw [wholePart?, wholePart?, isFinite_magnitude, significand_magnitude, scale_magnitude]

theorem shortest_magnitude (x : Number) : x.magnitude.shortest = x.shortest := by
  have hinterval : x.magnitude.interval = x.interval := by
    rw [interval, interval, significand_magnitude, scale_magnitude, fractionBits_magnitude, exponentBits_magnitude]
  rw [shortest, shortest, hinterval]

theorem magnitude_eq_iff (x : Number) : x.magnitude = x ↔ x.isNegative = false := by
  constructor
  · intro h
    rw [← h]
    exact isNegative_magnitude x
  · intro h
    have hlt : x.bits.toNat < twoPow 63 := by
      have hsize : x.bits.toNat < twoPow 63 * 2 := x.bits.toNat_lt
      have hhigh : x.bits.toNat / twoPow 63 < 2 := Nat.div_lt_of_lt_mul hsize
      rw [isNegative, beq_eq_false_iff_ne] at h
      generalize hquotient : x.bits.toNat / twoPow 63 = q at h hhigh
      exact (Nat.div_eq_zero_iff_lt (twoPow_pos 63)).mp (hquotient.trans (by omega))
    have hbits : UInt64.ofNat (x.bits.toNat % twoPow 63) = x.bits := by
      rw [Nat.mod_eq_of_lt hlt, UInt64.ofNat_toNat]
    exact congrArg Number.mk hbits

/-- The sign is in front of the text of the magnitude, unless that is zero. -/
theorem format_eq (hnan : x.isNaN = false) :
    x.format = (if x.isNegative = true ∧ x.wholePart? ≠ some 0 then "-" else "") ++ x.magnitude.format := by
  have hplain : x.magnitude.signText = "" := by
    rw [signText, isNegative_magnitude]
    rfl
  have hsign : x.wholePart? ≠ some 0 →
      (if x.isNegative = true ∧ x.wholePart? ≠ some 0 then "-" else "") = x.signText := by
    intro hwhole
    simp only [signText, hwhole, ne_eq, not_false_eq_true, and_true]
  rw [format, format, isNaN_magnitude, isFinite_magnitude, wholePart?_magnitude, shortest_magnitude, hplain, hnan]
  simp only [Bool.false_eq_true, if_false, String.empty_append]
  by_cases hzero : x.wholePart? = some 0
  · have hfinite : x.isFinite = true := (magnitude_of_wholePart hzero).1
    simp only [hfinite, hzero, Bool.not_true, Bool.false_eq_true, if_false, ne_eq, not_true_eq_false, and_false,
      String.empty_append]
  · rw [hsign hzero]
    cases hfinite : x.isFinite with
    | false => rfl
    | true =>
        cases hwhole : x.wholePart? with
        | none => rfl
        | some n =>
            cases n with
            | zero => exact absurd hwhole hzero
            | succ n => simp only [Bool.not_true, Bool.false_eq_true, if_false]; split_ifs <;> rfl

end Signs

end Memoizer
