import Mathlib.Tactic.Ring
import TableDialects.Proofs.Decimal.Numeral
import TableDialects.Value.Convert

/- Whole numbers as doubles. The double nearest to a whole number is found by
   rounding to a multiple of the distance between neighbouring doubles there
   (`truncate?_ofQuotient`), so a whole number passes through a double unharmed
   exactly if it is a mantissa of 53 bits times a power of two
   (`nearest_eq_self_iff`). An integer column reads a numeral with a zero fraction
   through a double, and one without it digit by digit
   (`toNative_zeroFraction_iff`). -/
namespace TableDialects

namespace Double

/-! ## Rounding a quotient -/

theorem roundQuotient_mul_right (n d : Nat) {c : Nat} (hc : 0 < c) :
    roundQuotient (n * c) (d * c) = roundQuotient n d := by
  have hdiv : n * c / (d * c) = n / d := Nat.mul_div_mul_right n d hc
  have hmod : n * c % (d * c) = n % d * c := Nat.mul_mod_mul_right c n d
  have hlt : d * c < 2 * (n % d * c) ↔ d < 2 * (n % d) := by
    rw [← Nat.mul_assoc]
    exact Nat.mul_lt_mul_right hc
  have heq : 2 * (n % d * c) = d * c ↔ 2 * (n % d) = d := by
    rw [← Nat.mul_assoc]
    exact Nat.mul_left_inj hc.ne'
  unfold roundQuotient
  dsimp only
  rw [hdiv, hmod]
  simp only [Bool.or_eq_true, decide_eq_true_eq, Bool.and_eq_true, beq_iff_eq, hlt, heq]

theorem roundQuotient_mul_self (n : Nat) {d : Nat} (hd : 0 < d) : roundQuotient (n * d) d = n := by
  unfold roundQuotient
  dsimp only
  rw [Nat.mul_div_cancel n hd, Nat.mul_mod_left, if_neg]
  simp [hd.ne]

theorem roundQuotient_bounds (n d : Nat) :
    n / d ≤ roundQuotient n d ∧ roundQuotient n d ≤ n / d + 1 := by
  unfold roundQuotient
  dsimp only
  split <;> omega

/-- Rounding to multiples of `d` keeps the multiples and nothing else. -/
theorem roundQuotient_mul_eq_iff (n : Nat) {d : Nat} (hd : 0 < d) :
    roundQuotient n d * d = n ↔ d ∣ n := by
  constructor
  · intro h
    exact ⟨roundQuotient n d, by rw [Nat.mul_comm, h]⟩
  · rintro ⟨k, rfl⟩
    rw [Nat.mul_comm d k, roundQuotient_mul_self k hd]

/-! ## The double nearest to a whole number -/

/-- The distance between the whole numbers around `n` that are doubles. -/
def spacing (n : Nat) : Nat := 2 ^ (n.log2 - 52)

/-- The whole number that the double nearest to `n` stands for. -/
def nearest (n : Nat) : Nat := roundQuotient n (spacing n) * spacing n

/-- The mantissa of the double nearest to `n`. -/
def mantissaOf (n : Nat) : Nat :=
  if n.log2 ≤ 52 then n * 2 ^ (52 - n.log2) else roundQuotient n (2 ^ (n.log2 - 52))

/-- The exponent of the least power of two beyond every finite double. -/
def topExponent : Nat := 1024

/-- The least power of two beyond every finite double. -/
def overflow : Nat := 2 ^ topExponent

theorem overflow_le {k : Nat} (h : 1024 ≤ k) : overflow ≤ 2 ^ k :=
  Nat.pow_le_pow_right (n := 2) (i := topExponent) (by decide) h

theorem le_overflow {k : Nat} (h : k ≤ 1024) : 2 ^ k ≤ overflow :=
  Nat.pow_le_pow_right (n := 2) (j := topExponent) (by decide) h

theorem lt_overflow_iff {k : Nat} : 2 ^ k < overflow ↔ k < 1024 :=
  Nat.pow_lt_pow_iff_right (a := 2) (n := k) (m := topExponent) (by decide)

theorem lt_overflow_iff_log2 {n : Nat} (hn : 0 < n) : n < overflow ↔ n.log2 < 1024 :=
  (Nat.log2_lt (k := topExponent) hn.ne').symm

theorem overflow_pos : 0 < overflow := Nat.two_pow_pos topExponent

theorem spacing_pos (n : Nat) : 0 < spacing n := Nat.two_pow_pos _

theorem nearest_of_log2_le {n : Nat} (h : n.log2 ≤ 52) : nearest n = n := by
  have hone : spacing n = 1 := by
    rw [spacing, Nat.sub_eq_zero_of_le h]
    rfl
  rw [nearest, hone, Nat.mul_one]
  have hround := roundQuotient_mul_self n Nat.one_pos
  rwa [Nat.mul_one] at hround

theorem mantissaOf_bounds {n : Nat} (hn : 0 < n) : 2 ^ 52 ≤ mantissaOf n ∧ mantissaOf n ≤ 2 ^ 53 := by
  have hlow := Nat.log2_self_le hn.ne'
  have hhigh : n < 2 ^ (n.log2 + 1) := Nat.lt_log2_self
  unfold mantissaOf
  split
  · rename_i h
    constructor
    · calc 2 ^ 52 = 2 ^ n.log2 * 2 ^ (52 - n.log2) := by rw [← pow_add, Nat.add_sub_cancel' h]
        _ ≤ n * 2 ^ (52 - n.log2) := Nat.mul_le_mul_right _ hlow
    · calc n * 2 ^ (52 - n.log2) ≤ 2 ^ (n.log2 + 1) * 2 ^ (52 - n.log2) :=
          Nat.mul_le_mul_right _ hhigh.le
        _ = 2 ^ 53 := by
          rw [← pow_add]
          congr 1
          omega
  · rename_i h
    have hsplit : n.log2 = 52 + (n.log2 - 52) := by omega
    have hbounds := roundQuotient_bounds n (2 ^ (n.log2 - 52))
    have hge : 2 ^ 52 ≤ n / 2 ^ (n.log2 - 52) := by
      rw [Nat.le_div_iff_mul_le (Nat.two_pow_pos _), ← pow_add, ← hsplit]
      exact hlow
    have hlt : n / 2 ^ (n.log2 - 52) < 2 ^ 53 := by
      rw [Nat.div_lt_iff_lt_mul (Nat.two_pow_pos _), ← pow_add, show 53 + (n.log2 - 52) = n.log2 + 1 by omega]
      exact hhigh
    omega

theorem scale_natCast (n d k : Nat) : scale n d k = (n, d * 2 ^ k) := rfl

theorem scale_neg_natCast (n d k : Nat) : scale n d (-(k : Int)) = (n * 2 ^ k, d) := by
  cases k with
  | zero =>
    show (n, d * 2 ^ 0) = (n * 2 ^ 0, d)
    rw [pow_zero, Nat.mul_one, Nat.mul_one]
  | succ k => rfl

/-- The mantissa at the exponent `e` of a whole number, written as a quotient, has at
most 53 bits from the exponent on at which the number has 53. -/
theorem scale_div_lt_iff {n d : Nat} (hn : 0 < n) (hd : 0 < d) (e : Int) :
    (scale (n * d) d e).1 / (scale (n * d) d e).2 < 2 ^ 53 ↔ (n.log2 : Int) - 52 ≤ e := by
  obtain ⟨k, rfl | rfl⟩ := Int.eq_nat_or_neg e
  · rw [scale_natCast, Nat.mul_comm n d, Nat.mul_div_mul_left _ _ hd, Nat.div_lt_iff_lt_mul (Nat.two_pow_pos _),
      ← pow_add, ← Nat.log2_lt hn.ne']
    omega
  · rw [scale_neg_natCast, Nat.mul_right_comm, Nat.mul_div_cancel _ hd]
    rcases Nat.lt_or_ge k 53 with hk | hk
    · rw [show (2 : Nat) ^ 53 = 2 ^ (53 - k) * 2 ^ k by rw [← pow_add, Nat.sub_add_cancel hk.le],
        Nat.mul_lt_mul_right (Nat.two_pow_pos k), ← Nat.log2_lt hn.ne']
      omega
    · refine iff_of_false (Nat.not_lt.2 ?_) (by omega)
      calc 2 ^ 53 ≤ 2 ^ k := Nat.pow_le_pow_right (by decide) hk
        _ ≤ n * 2 ^ k := Nat.le_mul_of_pos_left _ hn

theorem log2_mul_bounds {n d : Nat} (hn : 0 < n) (hd : 0 < d) :
    n.log2 + d.log2 ≤ (n * d).log2 ∧ (n * d).log2 < n.log2 + d.log2 + 2 := by
  have hnd : n * d ≠ 0 := (Nat.mul_pos hn hd).ne'
  rw [Nat.le_log2 hnd, Nat.log2_lt hnd]
  constructor
  · rw [pow_add]
    exact Nat.mul_le_mul (Nat.log2_self_le hn.ne') (Nat.log2_self_le hd.ne')
  · rw [show n.log2 + d.log2 + 2 = (n.log2 + 1) + (d.log2 + 1) by omega, pow_add]
    exact Nat.mul_lt_mul'' Nat.lt_log2_self Nat.lt_log2_self

theorem roundQuotient_scale {n d : Nat} (hd : 0 < d) :
    roundQuotient (scale (n * d) d ((n.log2 : Int) - 52)).1 (scale (n * d) d ((n.log2 : Int) - 52)).2 =
      mantissaOf n := by
  unfold mantissaOf
  split
  · rename_i h
    rw [show (n.log2 : Int) - 52 = -((52 - n.log2 : Nat) : Int) by omega, scale_neg_natCast,
      Nat.mul_right_comm, roundQuotient_mul_self _ hd]
  · rename_i h
    rw [show (n.log2 : Int) - 52 = ((n.log2 - 52 : Nat) : Int) by omega, scale_natCast, Nat.mul_comm d,
      roundQuotient_mul_right _ _ hd]

/-- The double nearest to a whole number that is written as a quotient. -/
theorem ofQuotient_whole (negative : Bool) {n d : Nat} (hn : 0 < n) (hd : 0 < d) :
    ofQuotient negative (n * d) d = ofMantissa negative (mantissaOf n) ((n.log2 : Int) - 52) := by
  obtain ⟨hlow, hhigh⟩ := log2_mul_bounds hn hd
  have hexponent : ∀ low, low = max (((n * d).log2 : Int) - d.log2 - 53) (-1074) →
      (if (scale (n * d) d low).1 / (scale (n * d) d low).2 < Nat.pow 2 53 then low else low + 1) =
        (n.log2 : Int) - 52 := by
    intro low hlow
    have hiff : (scale (n * d) d low).1 / (scale (n * d) d low).2 < Nat.pow 2 53 ↔ (n.log2 : Int) - 52 ≤ low :=
      scale_div_lt_iff hn hd low
    split
    · rename_i h
      have := hiff.1 h
      omega
    · rename_i h
      have := mt hiff.2 h
      omega
  unfold ofQuotient
  rw [if_neg (by simp [hn.ne', hd.ne'])]
  dsimp only
  rw [hexponent _ rfl, roundQuotient_scale hd]

/-! ## The whole part of the nearest double -/

theorem ofMantissa_of_lt (negative : Bool) {m : Nat} (e : Int) (hm : m < 2 ^ 53) :
    ofMantissa negative m e = if 971 < e then .infinite negative else .finite negative m e := by
  have hne : (m == Nat.pow 2 53) = false := beq_eq_false_iff_ne.2 (Nat.ne_of_lt hm)
  unfold ofMantissa
  rw [hne]
  rfl

theorem ofMantissa_carry (negative : Bool) (e : Int) :
    ofMantissa negative (2 ^ 53) e =
      if 971 < e + 1 then .infinite negative else .finite negative (2 ^ 52) (e + 1) := rfl

theorem truncate?_finite_neg (negative : Bool) (m k : Nat) :
    truncate? (.finite negative m (-(k : Int))) = some (Numeral.withSign negative (m / 2 ^ k)) := by
  cases k with
  | zero =>
    rw [pow_zero, Nat.div_one]
    show some (Numeral.withSign negative (m * 2 ^ 0)) = _
    rw [pow_zero, Nat.mul_one]
  | succ k => rfl

/-- A mantissa of 53 bits at an exponent that is not negative stands for a whole number,
which is finite below `overflow`. -/
theorem truncate?_ofMantissa (negative : Bool) {m : Nat} (k : Nat) (hlow : 2 ^ 52 ≤ m) (hhigh : m ≤ 2 ^ 53) :
    truncate? (ofMantissa negative m k) =
      if m * 2 ^ k < overflow then some (Numeral.withSign negative (m * 2 ^ k)) else none := by
  rcases Nat.lt_or_eq_of_le hhigh with hlt | rfl
  · have hiff : m * 2 ^ k < overflow ↔ ¬(971 : Int) < k := by
      constructor
      · intro h hk
        have hle : overflow ≤ m * 2 ^ k :=
          calc overflow ≤ 2 ^ (52 + k) := overflow_le (by omega)
            _ = 2 ^ 52 * 2 ^ k := pow_add 2 52 k
            _ ≤ m * 2 ^ k := Nat.mul_le_mul_right _ hlow
        exact absurd h (Nat.not_lt.2 hle)
      · intro hk
        calc m * 2 ^ k < 2 ^ 53 * 2 ^ k := (Nat.mul_lt_mul_right (Nat.two_pow_pos k)).2 hlt
          _ = 2 ^ (53 + k) := (pow_add 2 53 k).symm
          _ ≤ overflow := le_overflow (by omega)
    rw [ofMantissa_of_lt negative k hlt]
    by_cases hk : (971 : Int) < k
    · rw [if_pos hk, if_neg fun h => hiff.1 h hk]
      rfl
    · rw [if_neg hk, if_pos (hiff.2 hk)]
      rfl
  · have hpow : 2 ^ 53 * 2 ^ k = 2 ^ 52 * 2 ^ (k + 1) := by
      rw [← pow_add, ← pow_add, show 53 + k = 52 + (k + 1) by omega]
    have hiff : 2 ^ 53 * 2 ^ k < overflow ↔ ¬(971 : Int) < k + 1 := by
      rw [← pow_add, lt_overflow_iff]
      omega
    rw [ofMantissa_carry]
    by_cases hk : (971 : Int) < k + 1
    · rw [if_pos hk, if_neg fun h => hiff.1 h hk]
      rfl
    · rw [if_neg hk, if_pos (hiff.2 hk), hpow]
      rfl

theorem truncate?_ofQuotient (negative : Bool) {n d : Nat} (hn : 0 < n) (hd : 0 < d) :
    truncate? (ofQuotient negative (n * d) d) =
      if nearest n < overflow then some (Numeral.withSign negative (nearest n)) else none := by
  obtain ⟨hlow, hhigh⟩ := mantissaOf_bounds hn
  rw [ofQuotient_whole negative hn hd]
  rcases Nat.lt_or_ge n.log2 52 with h | h
  · -- Below `2 ^ 52` the number is shifted up by whole bits, and nothing is rounded.
    have hmantissa : mantissaOf n = n * 2 ^ (52 - n.log2) := if_pos h.le
    have hlt : n < 2 ^ (n.log2 + 1) := Nat.lt_log2_self
    have hsmall : mantissaOf n < 2 ^ 53 := by
      rw [hmantissa]
      calc n * 2 ^ (52 - n.log2) < 2 ^ (n.log2 + 1) * 2 ^ (52 - n.log2) :=
            (Nat.mul_lt_mul_right (Nat.two_pow_pos _)).2 hlt
        _ = 2 ^ 53 := by
          rw [← pow_add]
          congr 1
          omega
    have hfinite : n < overflow :=
      calc n < 2 ^ (n.log2 + 1) := hlt
        _ ≤ overflow := le_overflow (by omega)
    rw [nearest_of_log2_le h.le, if_pos hfinite, ofMantissa_of_lt negative _ hsmall, if_neg (by omega),
      show (n.log2 : Int) - 52 = -((52 - n.log2 : Nat) : Int) by omega, truncate?_finite_neg, hmantissa,
      Nat.mul_div_cancel _ (Nat.two_pow_pos _)]
  · have hnearest : nearest n = mantissaOf n * 2 ^ (n.log2 - 52) := by
      unfold mantissaOf
      split
      · rename_i hle
        rw [nearest_of_log2_le hle, Nat.le_antisymm hle h, Nat.sub_self, pow_zero, Nat.mul_one, Nat.mul_one]
      · rfl
    rw [show (n.log2 : Int) - 52 = ((n.log2 - 52 : Nat) : Int) by omega, hnearest]
    exact truncate?_ofMantissa negative _ hlow hhigh

theorem ofMantissa_ne_nan (negative : Bool) (m : Nat) (e : Int) : ofMantissa negative m e ≠ .nan := by
  unfold ofMantissa
  dsimp only
  split <;> split <;> exact fun h => by cases h

theorem ofQuotient_ne_nan (negative : Bool) (n d : Nat) : ofQuotient negative n d ≠ .nan := by
  unfold ofQuotient
  split
  · exact fun h => by cases h
  · exact ofMantissa_ne_nan _ _ _

theorem ofDecimal_ne_nan (negative : Bool) (m : Nat) (e : Int) : ofDecimal negative m e ≠ .nan := by
  unfold ofDecimal
  dsimp only
  split
  · exact fun h => by cases h
  split
  · exact fun h => by cases h
  split
  · exact fun h => by cases h
  split
  · exact ofQuotient_ne_nan _ _ _
  · exact ofQuotient_ne_nan _ _ _

/-! ## Decimals that are whole -/

theorem nearest_ge {n : Nat} (hn : 0 < n) : 2 ^ n.log2 ≤ nearest n := by
  rcases Nat.lt_or_ge 52 n.log2 with h | h
  · obtain ⟨hlow, -⟩ := mantissaOf_bounds hn
    rw [mantissaOf, if_neg (Nat.not_le.2 h)] at hlow
    calc 2 ^ n.log2 = 2 ^ 52 * 2 ^ (n.log2 - 52) := by rw [← pow_add, Nat.add_sub_cancel' h.le]
      _ ≤ nearest n := Nat.mul_le_mul_right _ hlow
  · rw [nearest_of_log2_le h]
    exact Nat.log2_self_le hn.ne'

theorem overflow_le_pow_ten : overflow ≤ 10 ^ 310 := by decide +kernel

theorem pow_le_of_digitCount {n k : Nat} (hk : 0 < k) (h : k < digitCount n) : 10 ^ k ≤ n := by
  by_contra hlt
  have hle : digitCount n ≤ k := (Nat.length_toDigits_le_iff (by decide) hk).2 (Nat.not_le.1 hlt)
  omega

/-- A whole number with more than 310 digits is beyond every finite double. -/
theorem nearest_of_digitCount {n : Nat} (h : 310 < digitCount n) : overflow ≤ nearest n := by
  have hten : 10 ^ 310 ≤ n := pow_le_of_digitCount (by decide) h
  have hle : overflow ≤ n := Nat.le_trans overflow_le_pow_ten hten
  have hn : 0 < n := Nat.lt_of_lt_of_le overflow_pos hle
  calc overflow ≤ 2 ^ n.log2 := overflow_le (Nat.not_lt.1 fun h => Nat.not_lt.2 hle ((lt_overflow_iff_log2 hn).2 h))
    _ ≤ nearest n := nearest_ge hn

theorem ofDecimal_of_digitCount (negative : Bool) {n : Nat} (h : 310 < digitCount n) :
    ofDecimal negative n 0 = .infinite negative := by
  have hn : (n == 0) = false := by
    rw [beq_eq_false_iff_ne]
    rintro rfl
    exact absurd h (by decide)
  unfold ofDecimal
  rw [hn]
  dsimp only
  rw [if_neg Bool.false_ne_true, Int.zero_add]
  exact if_pos (Int.ofNat_lt.2 h)

theorem digitCount_mul_ten {n : Nat} (hn : 0 < n) : digitCount (10 * n) = digitCount n + 1 := by
  unfold digitCount
  rw [Nat.toDigits_of_base_le (by decide) (Nat.le_mul_of_pos_right 10 hn), List.length_append,
    Nat.mul_div_cancel_left n (by decide)]
  rfl

/-- The whole part of the double nearest to ten times a whole number over ten. -/
theorem truncate?_tenths (negative : Bool) (n : Nat) :
    truncate? (ofDecimal negative (10 * n) (-1)) =
      if nearest n < overflow then some (Numeral.withSign negative (nearest n)) else none := by
  rcases Nat.eq_zero_or_pos n with rfl | hn
  · rw [nearest_of_log2_le (by decide), if_pos overflow_pos]
    refine (truncate?_finite_neg negative 0 1074).trans ?_
    rw [Nat.zero_div]
  · unfold ofDecimal
    rw [if_neg (by simpa using hn.ne')]
    dsimp only
    rw [digitCount_mul_ten hn]
    by_cases hlong : 310 < digitCount n
    · rw [if_pos (by omega), if_neg (Nat.not_lt.2 (nearest_of_digitCount hlong))]
      rfl
    · rw [if_neg (by omega), if_neg (by omega)]
      have hquotient := truncate?_ofQuotient negative hn (d := 10) (by decide)
      rw [Nat.mul_comm n 10] at hquotient
      exact hquotient

/-! ## Whole numbers that are doubles -/

/-- Whether a finite double equals the integer: it is a mantissa of at most 53 bits
times a power of two that such a double can have. -/
def IsWhole (n : Int) : Prop := ∃ m k, m < 2 ^ 53 ∧ k ≤ 971 ∧ n.natAbs = m * 2 ^ k

theorem nearest_eq_self_iff (n : Nat) : nearest n = n ↔ spacing n ∣ n :=
  roundQuotient_mul_eq_iff n (spacing_pos n)

/-- The nearest double of an integer is finite and equal to it exactly if a double
is. -/
theorem isWhole_iff (n : Int) : IsWhole n ↔ nearest n.natAbs = n.natAbs ∧ nearest n.natAbs < overflow := by
  rw [nearest_eq_self_iff]
  constructor
  · rintro ⟨m, k, hm, hk, habs⟩
    have hlt : n.natAbs < 2 ^ (53 + k) := by
      rw [habs, pow_add]
      exact (Nat.mul_lt_mul_right (Nat.two_pow_pos k)).2 hm
    have hdvd : spacing n.natAbs ∣ n.natAbs := by
      rcases Nat.eq_zero_or_pos n.natAbs with hzero | hpos
      · rw [hzero]
        exact Nat.dvd_zero _
      · have hlog := (Nat.log2_lt hpos.ne').2 hlt
        calc spacing n.natAbs ∣ 2 ^ k := Nat.pow_dvd_pow 2 (by omega)
          _ ∣ n.natAbs := habs ▸ Nat.dvd_mul_left _ _
    refine ⟨hdvd, ?_⟩
    rw [(nearest_eq_self_iff _).2 hdvd]
    calc n.natAbs < 2 ^ (53 + k) := hlt
      _ ≤ overflow := le_overflow (by omega)
  · rintro ⟨hdvd, hlt⟩
    rw [(nearest_eq_self_iff _).2 hdvd] at hlt
    rcases Nat.eq_zero_or_pos n.natAbs with hzero | hpos
    · exact ⟨0, 0, by decide, by decide, by rw [hzero, Nat.zero_mul]⟩
    · obtain ⟨m, hm⟩ := hdvd
      have hlog := (lt_overflow_iff_log2 hpos).1 hlt
      have hproduct : n.natAbs = m * spacing n.natAbs := hm.trans (Nat.mul_comm _ _)
      have hsize : m * spacing n.natAbs < 2 ^ 53 * spacing n.natAbs :=
        calc m * spacing n.natAbs = n.natAbs := hproduct.symm
          _ < 2 ^ (n.natAbs.log2 + 1) := Nat.lt_log2_self
          _ ≤ 2 ^ (53 + (n.natAbs.log2 - 52)) := Nat.pow_le_pow_right (by decide) (by omega)
          _ = 2 ^ 53 * spacing n.natAbs := pow_add 2 53 _
      exact ⟨m, n.natAbs.log2 - 52, Nat.lt_of_mul_lt_mul_right hsize, by omega, hproduct⟩

end Double

namespace Value

/-! ## Integer columns -/

theorem toInt_text (s : Text) : (Value.text s).toInt = match Numeral.toInt? s with
    | some n => .ok n
    | none => .error .badNumber := rfl

theorem toDouble_text (s : Text) : (Value.text s).toDouble = match Numeral.toDouble? s with
    | some x => .ok x
    | none => .error .badNumber := rfl

theorem toInt_float {x : Double} (h : x ≠ .nan) : (Value.float x).toInt = match x.truncate? with
    | some n => .ok n
    | none => .error .tooLarge := by
  cases x with
  | nan => exact absurd rfl h
  | infinite negative => rfl
  | finite negative m e => rfl

theorem toColumnInt_of_toInt? {s : Text} {n : Int} (h : Numeral.toInt? s = some n) :
    (Value.text s).toColumnInt = .ok n := by
  unfold toColumnInt
  rw [toInt_text, h]

/-- Any other numeral is read as a double, and cut to its whole part. -/
theorem toColumnInt_of_toDouble? {s : Text} {x : Double} (h : Numeral.toInt? s = none)
    (hx : Numeral.toDouble? s = some x) (hnan : x ≠ .nan) :
    (Value.text s).toColumnInt = match x.truncate? with
      | some n => .ok n
      | none => .error .tooLarge := by
  unfold toColumnInt
  rw [toInt_text, h]
  dsimp only
  rw [toDouble_text, hx]
  exact toInt_float hnan

theorem toNative_bigint (s : Text) (dialect : Value) :
    (Value.text s).toNative (.text "bigint".toList) dialect =
      ((Value.text s).toColumnInt.mapError Error.fault).map .int := by
  have hcategory : categoryOf (.text "bigint".toList) = .native .int := by decide +kernel
  unfold toNative
  dsimp only
  rw [hcategory]

/-- Digits alone are read exactly as long as there are not too many of them. -/
theorem toColumnInt_ofInt (n : Int) : (Value.text (Text.ofInt n)).toColumnInt =
    if Numeral.digitLimit < (Text.ofNat n.natAbs).length then .error .tooLarge else .ok n := by
  have hint := Numeral.toInt?_ofInt n
  by_cases hlong : Numeral.digitLimit < (Text.ofNat n.natAbs).length
  · rw [if_pos hlong] at hint
    rw [if_pos hlong,
      toColumnInt_of_toDouble? hint (Numeral.toDouble?_ofInt n) (Double.ofDecimal_ne_nan _ _ _),
      Double.ofDecimal_of_digitCount _ (Nat.lt_trans (by decide) hlong)]
    rfl
  · rw [if_neg hlong] at hint
    rw [if_neg hlong, toColumnInt_of_toInt? hint]

/-- Digits with a zero fraction are read as the nearest double. -/
theorem toColumnInt_zeroFraction (n : Int) :
    (Value.text (Numeral.zeroFraction (Text.ofInt n))).toColumnInt =
      if Double.nearest n.natAbs < Double.overflow then
        .ok (Numeral.withSign (decide (n < 0)) (Double.nearest n.natAbs))
      else .error .tooLarge := by
  rw [toColumnInt_of_toDouble? (Numeral.toInt?_zeroFraction n) (Numeral.toDouble?_zeroFraction n)
    (Double.ofDecimal_ne_nan _ _ _), Double.truncate?_tenths]
  by_cases h : Double.nearest n.natAbs < Double.overflow
  · rw [if_pos h, if_pos h]
  · rw [if_neg h, if_neg h]

theorem withSign_eq_iff (n : Int) (m : Nat) : Numeral.withSign (decide (n < 0)) m = n ↔ m = n.natAbs := by
  unfold Numeral.withSign
  split
  · rename_i h
    have := of_decide_eq_true h
    omega
  · rename_i h
    have := of_decide_eq_false (Bool.eq_false_iff.2 h)
    omega

/-- A numeral with a zero fraction in an integer column becomes the nearest double, and
fails beyond the finite ones. So it keeps exactly the integers that are doubles, while
the same numeral without the fraction keeps every integer of at most 4300 digits. -/
theorem toNative_zeroFraction_iff (n : Int) (dialect : Value) :
    ((Value.text (Numeral.zeroFraction (Text.ofInt n))).toNative (.text "bigint".toList) dialect =
      if Double.nearest n.natAbs < Double.overflow then
        .ok (.int (Numeral.withSign (decide (n < 0)) (Double.nearest n.natAbs)))
      else .error (.fault .tooLarge)) ∧
    ((Value.text (Numeral.zeroFraction (Text.ofInt n))).toNative (.text "bigint".toList) dialect = .ok (.int n) ↔
      Double.IsWhole n) ∧
    ((Value.text (Text.ofInt n)).toNative (.text "bigint".toList) dialect = .ok (.int n) ↔
      (Text.ofNat n.natAbs).length ≤ Numeral.digitLimit) := by
  have hfraction : (Value.text (Numeral.zeroFraction (Text.ofInt n))).toNative (.text "bigint".toList) dialect =
      if Double.nearest n.natAbs < Double.overflow then
        .ok (.int (Numeral.withSign (decide (n < 0)) (Double.nearest n.natAbs)))
      else .error (.fault .tooLarge) := by
    rw [toNative_bigint, toColumnInt_zeroFraction]
    split <;> rfl
  refine ⟨hfraction, ?_, ?_⟩
  · rw [hfraction, Double.isWhole_iff]
    by_cases h : Double.nearest n.natAbs < Double.overflow
    · rw [if_pos h, and_iff_left h, ← withSign_eq_iff]
      constructor
      · intro heq
        injection heq with heq
        injection heq
      · exact fun heq => congrArg (fun k => Except.ok (Value.int k)) heq
    · rw [if_neg h]
      exact iff_of_false (fun heq => by cases heq) fun heq => h heq.2
  · rw [toNative_bigint, toColumnInt_ofInt]
    by_cases h : Numeral.digitLimit < (Text.ofNat n.natAbs).length
    · rw [if_pos h]
      exact iff_of_false (fun heq => by cases heq) (Nat.not_le.2 h)
    · rw [if_neg h]
      exact iff_of_true rfl (Nat.not_lt.1 h)

/-- The least whole number that is no double goes to its even neighbour. -/
example : Double.nearest 9007199254740993 = 9007199254740992 := by decide +kernel

end Value
end TableDialects
