import Mathlib.Order.Monotone.Basic
import Mathlib.Tactic.Ring
import PacketTrace.Binary64.Basic

/-!
# Ordinals and rounding

The ordinals of the finite numbers count through their significands and
exponents: the ordinal `exponent * 2 ^ 52 + significand` stands for
`significand * 2 ^ exponent` quanta (`quantaOf_of_isSignificand`), also where
the significand has just carried to `2 ^ 53`.

* `quantaOf_strictMono`: larger ordinals denote more quanta;
* `quantaOf_nearestOrdinal`: the quanta of the rounded ratio;
* `le_nearestOrdinal` and `nearestOrdinal_le`: rounding does not cross a number
  of the format. All that is proved of the rounded operations comes from these
  two; which neighbour is the nearer one is not needed for it.
-/

namespace PacketTrace

namespace Binary64

/-! ## Significands -/

/-- A significand that goes with an exponent: it has 53 bits, or fewer at the
    least exponent. It may have carried to `2 ^ 53`. -/
structure IsSignificand (exponent significand : Nat) : Prop where
  le : significand ≤ 2 ^ 53
  leading : exponent = 0 ∨ 2 ^ 52 ≤ significand

theorem quantaOf_of_isSignificand {x m : Nat} (h : IsSignificand x m) :
    quantaOf (x * 2 ^ 52 + m) = m * 2 ^ x := by
  obtain ⟨hle, hlead⟩ := h
  rcases Nat.lt_or_ge m (2 ^ 52) with hm | hm
  · obtain rfl : x = 0 := by omega
    rw [Nat.zero_mul, Nat.zero_add, quantaOf, if_pos hm, Nat.pow_zero, Nat.mul_one]
  · have hnormal : ¬ x * 2 ^ 52 + m < 2 ^ 52 := by omega
    rw [quantaOf, if_neg hnormal]
    rcases Nat.lt_or_ge m (2 ^ 53) with hm' | hm'
    · have hfraction : (x * 2 ^ 52 + m) % 2 ^ 52 = m - 2 ^ 52 := by omega
      have hexponent : (x * 2 ^ 52 + m) / 2 ^ 52 - 1 = x := by omega
      rw [hfraction, hexponent, Nat.add_sub_cancel' hm]
    · -- The significand has carried: the next exponent, and no fraction.
      obtain rfl : m = 2 ^ 53 := by omega
      have hfraction : (x * 2 ^ 52 + 2 ^ 53) % 2 ^ 52 = 0 := by omega
      have hexponent : (x * 2 ^ 52 + 2 ^ 53) / 2 ^ 52 - 1 = x + 1 := by omega
      rw [hfraction, hexponent]
      ring

/-- Every ordinal has an exponent and a significand below the carry. -/
theorem exists_isSignificand (o : Nat) :
    ∃ x m, o = x * 2 ^ 52 + m ∧ m < 2 ^ 53 ∧ IsSignificand x m := by
  rcases Nat.lt_or_ge o (2 ^ 52) with ho | ho
  · exact ⟨0, o, by omega, by omega, by omega, .inl rfl⟩
  · exact ⟨o / 2 ^ 52 - 1, 2 ^ 52 + o % 2 ^ 52, by omega, by omega, by omega, .inr (by omega)⟩

/-- Larger ordinals denote more quanta. -/
theorem quantaOf_strictMono : StrictMono quantaOf := by
  refine strictMono_nat_of_lt_succ fun o => ?_
  obtain ⟨x, m, rfl, hlt, h⟩ := exists_isSignificand o
  have hsucc : IsSignificand x (m + 1) := ⟨hlt, h.leading.imp_right Nat.le_succ_of_le⟩
  rw [Nat.add_assoc, quantaOf_of_isSignificand h, quantaOf_of_isSignificand hsucc]
  exact Nat.mul_lt_mul_of_pos_right (Nat.lt_succ_self m) (Nat.two_pow_pos x)

/-- The quanta of infinity, had it any: one more exponent than the finite
    numbers have. -/
theorem quantaOf_infinityOrdinal : quantaOf infinityOrdinal = 2 ^ 52 * 2 ^ (2045 + 1) := by
  have h : IsSignificand (2045 + 1) (2 ^ 52) := ⟨by decide, .inr (Nat.le_refl _)⟩
  have hordinal : infinityOrdinal = (2045 + 1) * 2 ^ 52 + 2 ^ 52 := rfl
  rw [hordinal, quantaOf_of_isSignificand h]

theorem significand_mul_lt {m e last : ℕ} (hm : m < 2 ^ 53) (he : e ≤ last) :
    m * 2 ^ e < 2 ^ 52 * 2 ^ (last + 1) :=
  calc m * 2 ^ e < 2 ^ 53 * 2 ^ e := Nat.mul_lt_mul_of_pos_right hm (Nat.two_pow_pos e)
    _ = 2 ^ 52 * 2 ^ (e + 1) := by ring
    _ ≤ 2 ^ 52 * 2 ^ (last + 1) :=
      Nat.mul_le_mul_left _ (Nat.pow_le_pow_right (by decide) (Nat.succ_le_succ he))

/-! ## Rounding -/

/-- Rounding takes the whole part, or the number after it if there is more than
    the whole part. -/
theorem roundHalfEven_cases (num : Nat) {den : Nat} (h : 0 < den) :
    roundHalfEven num den = num / den ∨
      roundHalfEven num den = num / den + 1 ∧ num % den ≠ 0 := by
  simp only [roundHalfEven]
  split
  · exact .inl rfl
  · split
    · exact .inr ⟨rfl, by omega⟩
    · rcases Nat.mod_two_eq_zero_or_one (num / den) with heven | hodd
      · exact .inl (by rw [heven, Nat.add_zero])
      · exact .inr ⟨by rw [hodd], by omega⟩

/-- The exponent of a rounded ratio. -/
def nearestExponent (num den : Nat) : Nat := (num / den).log2 - 52

/-- The significand of a ratio before it is rounded: its whole part is one that
    goes with the exponent, and has not carried. -/
theorem isSignificand_div (num den : Nat) :
    num / (den * 2 ^ nearestExponent num den) < 2 ^ 53 ∧
      IsSignificand (nearestExponent num den) (num / (den * 2 ^ nearestExponent num den)) := by
  rw [← Nat.div_div_eq_div_mul]
  generalize hx : nearestExponent num den = x
  generalize hn : num / den = n at hx
  rw [nearestExponent, hn] at hx
  have hlt : n < 2 ^ 53 * 2 ^ x :=
    calc n < 2 ^ (n.log2 + 1) := Nat.lt_log2_self
      _ ≤ 2 ^ (53 + x) := Nat.pow_le_pow_right (by decide) (by omega)
      _ = 2 ^ 53 * 2 ^ x := Nat.pow_add ..
  have hdiv : n / 2 ^ x < 2 ^ 53 := (Nat.div_lt_iff_lt_mul (Nat.two_pow_pos x)).2 hlt
  refine ⟨hdiv, Nat.le_of_lt hdiv, ?_⟩
  rcases Nat.eq_zero_or_pos x with hzero | hpos
  · exact .inl hzero
  · right
    have hn0 : n ≠ 0 := by
      rintro rfl
      simp at hx
      omega
    have hle : 2 ^ 52 * 2 ^ x ≤ n :=
      calc 2 ^ 52 * 2 ^ x = 2 ^ n.log2 := by rw [← Nat.pow_add]; congr 1; omega
        _ ≤ n := Nat.log2_self_le hn0
    exact (Nat.le_div_iff_mul_le (Nat.two_pow_pos x)).2 hle

theorem nearestOrdinal_eq_add (num den : Nat) :
    nearestOrdinal num den = nearestExponent num den * 2 ^ 52 +
      roundHalfEven num (den * 2 ^ nearestExponent num den) := rfl

variable {num den o : Nat}

theorem isSignificand_roundHalfEven (h : 0 < den) :
    IsSignificand (nearestExponent num den)
      (roundHalfEven num (den * 2 ^ nearestExponent num den)) := by
  obtain ⟨hlt, -, hlead⟩ := isSignificand_div num den
  rcases roundHalfEven_cases num (Nat.mul_pos h (Nat.two_pow_pos (nearestExponent num den))) with
    hr | ⟨hr, -⟩
  · exact ⟨by omega, hlead.imp_right (by omega)⟩
  · exact ⟨by omega, hlead.imp_right (by omega)⟩

/-- The quanta of a rounded ratio. -/
theorem quantaOf_nearestOrdinal (h : 0 < den) :
    quantaOf (nearestOrdinal num den) =
      roundHalfEven num (den * 2 ^ nearestExponent num den) * 2 ^ nearestExponent num den := by
  rw [nearestOrdinal_eq_add, quantaOf_of_isSignificand (isSignificand_roundHalfEven h)]

/-- Rounding does not go below a number of the format. -/
theorem le_nearestOrdinal (h : 0 < den) (ho : quantaOf o * den ≤ num) :
    o ≤ nearestOrdinal num den := by
  obtain ⟨hlt, hsig⟩ := isSignificand_div num den
  have hpos := Nat.mul_pos h (Nat.two_pow_pos (nearestExponent num den))
  have hcases := roundHalfEven_cases num hpos
  have hdiv := Nat.lt_mul_div_succ num hpos
  rw [nearestOrdinal_eq_add]
  generalize nearestExponent num den = x at *
  generalize hfloor : num / (den * 2 ^ x) = floor at *
  by_contra hnot
  -- The number after the whole part is in the format too, and not above `o`.
  have hsucc : IsSignificand x (floor + 1) := ⟨hlt, hsig.leading.imp_right Nat.le_succ_of_le⟩
  have hle : x * 2 ^ 52 + (floor + 1) ≤ o := by omega
  have hquanta := quantaOf_strictMono.monotone hle
  rw [quantaOf_of_isSignificand hsucc] at hquanta
  have hnum : (floor + 1) * 2 ^ x * den ≤ num :=
    Nat.le_trans (Nat.mul_le_mul_right den hquanta) ho
  refine Nat.not_lt.2 hnum (Nat.lt_of_lt_of_eq hdiv ?_)
  ring

/-- Rounding does not go above a number of the format. -/
theorem nearestOrdinal_le (h : 0 < den) (ho : num ≤ quantaOf o * den) :
    nearestOrdinal num den ≤ o := by
  obtain ⟨-, hsig⟩ := isSignificand_div num den
  have hpos := Nat.mul_pos h (Nat.two_pow_pos (nearestExponent num den))
  have hcases := roundHalfEven_cases num hpos
  have hdiv := Nat.div_add_mod num (den * 2 ^ nearestExponent num den)
  rw [nearestOrdinal_eq_add]
  generalize nearestExponent num den = x at *
  generalize hfloor : num / (den * 2 ^ x) = floor at *
  by_contra hnot
  rcases hcases with hr | ⟨hr, hmod⟩
  · -- The whole part is above `o`, but not above the ratio.
    have hlt : o < x * 2 ^ 52 + floor := by omega
    have hquanta := quantaOf_strictMono hlt
    rw [quantaOf_of_isSignificand hsig] at hquanta
    have hnum := Nat.mul_lt_mul_of_pos_right hquanta h
    have hfold : floor * 2 ^ x * den = den * 2 ^ x * floor := by ring
    omega
  · -- The whole part is not below `o`, and the ratio exceeds it.
    have hle : o ≤ x * 2 ^ 52 + floor := by omega
    have hquanta := quantaOf_strictMono.monotone hle
    rw [quantaOf_of_isSignificand hsig] at hquanta
    have hnum := Nat.mul_le_mul_right den hquanta
    have hfold : floor * 2 ^ x * den = den * 2 ^ x * floor := by ring
    omega

/-- A number of the format is rounded to itself. -/
theorem nearestOrdinal_of_eq (h : 0 < den) (ho : num = quantaOf o * den) :
    nearestOrdinal num den = o :=
  Nat.le_antisymm (nearestOrdinal_le h ho.le) (le_nearestOrdinal h ho.ge)

/-- A significand of 53 bits is in the format at every exponent. -/
theorem exists_quantaOf_eq {m : Nat} (x : Nat) (hm : m < 2 ^ 53) :
    ∃ o, quantaOf o = m * 2 ^ x := by
  refine ⟨nearestOrdinal (m * 2 ^ x) 1, (quantaOf_nearestOrdinal Nat.one_pos).trans ?_⟩
  -- Nothing is cut off: the exponent is at most `x`.
  have hexponent : nearestExponent (m * 2 ^ x) 1 ≤ x := by
    rcases Nat.eq_zero_or_pos m with rfl | hpos
    · simp [nearestExponent]
    · have hlt : m * 2 ^ x < 2 ^ (53 + x) := by
        rw [Nat.pow_add]
        exact Nat.mul_lt_mul_of_pos_right hm (Nat.two_pow_pos x)
      have hne : m * 2 ^ x ≠ 0 := Nat.ne_of_gt (Nat.mul_pos hpos (Nat.two_pow_pos x))
      have hlog := (Nat.log2_lt hne).2 hlt
      simp only [nearestExponent, Nat.div_one]
      omega
  generalize nearestExponent (m * 2 ^ x) 1 = y at *
  obtain ⟨z, rfl⟩ := Nat.exists_eq_add_of_le hexponent
  have hnum : m * 2 ^ (y + z) = m * 2 ^ z * 2 ^ y := by ring
  have hexact : m * 2 ^ z * 2 ^ y % 2 ^ y = 0 := Nat.mul_mod_left ..
  rw [Nat.one_mul, hnum]
  rcases roundHalfEven_cases (m * 2 ^ z * 2 ^ y) (Nat.two_pow_pos y) with hr | ⟨-, hmod⟩
  · rw [hr, Nat.mul_div_cancel _ (Nat.two_pow_pos y)]
  · exact absurd hexact hmod

end Binary64

end PacketTrace
