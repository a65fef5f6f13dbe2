import Mathlib.Data.Rat.Floor
import Mathlib.Tactic.FieldSimp
import Mathlib.Tactic.Linarith
import Mathlib.Tactic.Positivity
import PacketTrace.Binary64.Arithmetic
import PacketTrace.Proofs.Binary64.Rounding

/-!
# The values of floating-point numbers

A finite number stands for a rational (`Denotes`), and is known by its sign and
that value (`Denotes.ext`). A rational is *storable* if some number stands for
it (`Storable`), as those with few bits do (`storable_div_two_pow`,
`storable_mul_two_pow`).

What operations make of storable numbers is in
`PacketTrace.Proofs.Binary64.Operation`: `Denotes.add` and `Denotes.sub` where
the exact result is storable, and `Above.mul`, `Below.mul`, `Above.div` and
`Below.div` where it may not be.
-/

namespace PacketTrace

namespace Binary64

/-! ## Denotation -/

/-- `x` is a finite number that stands for `r`. -/
structure Denotes (x : Binary64) (r : ℚ) : Prop where
  finite : x.isFinite = true
  toRat_eq : x.toRat = r

/-- `r` is a number of the format. -/
def Storable (r : ℚ) : Prop := ∃ x : Binary64, x.Denotes r

/-- The factor that a sign stands for. -/
def sign (negative : Bool) : ℚ := if negative then -1 else 1

theorem abs_sign (negative : Bool) : |sign negative| = 1 := by cases negative <;> simp [sign]

theorem cast_quantaPerOne : ((quantaPerOne : ℕ) : ℚ) = 2 ^ 1074 := by
  unfold quantaPerOne
  generalize 1074 = k
  push_cast
  rfl

theorem quantaPerOne_pos : (0 : ℚ) < (quantaPerOne : ℕ) := by
  rw [cast_quantaPerOne]
  exact pow_pos two_pos 1074

theorem quantaPerOne_ne_zero : ((quantaPerOne : ℕ) : ℚ) ≠ 0 := ne_of_gt quantaPerOne_pos

theorem cast_signedQuanta (x : Binary64) : (x.signedQuanta : ℚ) = sign x.negative * x.quanta := by
  cases h : x.negative <;> simp [signedQuanta, sign, h]

theorem toRat_eq_sign_mul (x : Binary64) :
    x.toRat = sign x.negative * (x.quanta / (quantaPerOne : ℕ)) := by
  rw [toRat, cast_signedQuanta, mul_div_assoc]

theorem isFinite_iff {x : Binary64} : x.isFinite = true ↔ x.ordinal < infinityOrdinal := by
  simp [isFinite]

variable {x y : Binary64} {a b r : ℚ}

theorem Denotes.signedQuanta_eq (h : x.Denotes r) :
    (x.signedQuanta : ℚ) = r * (quantaPerOne : ℕ) := by
  rw [← h.toRat_eq, toRat, div_mul_cancel₀ _ quantaPerOne_ne_zero]

theorem Denotes.quanta_eq (h : x.Denotes r) : (x.quanta : ℚ) = |r| * (quantaPerOne : ℕ) := by
  have hquanta : (0 : ℚ) ≤ x.quanta := Nat.cast_nonneg _
  rw [← h.toRat_eq, toRat_eq_sign_mul, abs_mul, abs_sign, one_mul, abs_div,
    abs_of_nonneg hquanta, abs_of_pos quantaPerOne_pos, div_mul_cancel₀ _ quantaPerOne_ne_zero]

theorem Denotes.not_isNaN (h : x.Denotes r) : x.isNaN = false := by
  have hfinite := isFinite_iff.1 h.finite
  simp only [isNaN, decide_eq_false_iff_not]
  omega

theorem Denotes.not_isInfinite (h : x.Denotes r) : x.isInfinite = false := by
  have hfinite := isFinite_iff.1 h.finite
  simp only [isInfinite, beq_eq_false_iff_ne, ne_eq]
  omega

theorem Denotes.not_isZero (h : x.Denotes r) (hr : r ≠ 0) : x.isZero = false := by
  rw [isZero, beq_eq_false_iff_ne]
  intro hzero
  have hquanta := h.quanta_eq
  rw [quanta, hzero, quantaOf, if_pos (Nat.two_pow_pos 52), Nat.cast_zero, eq_comm,
    mul_eq_zero] at hquanta
  exact hquanta.elim (fun h => hr (abs_eq_zero.1 h)) quantaPerOne_ne_zero

/-- A number is known by its sign and its value. -/
theorem Denotes.ext (hx : x.Denotes r) (hy : y.Denotes r) (hsign : x.negative = y.negative) :
    x = y := by
  have hquanta : quantaOf x.ordinal = quantaOf y.ordinal := by
    have heq : (x.quanta : ℚ) = y.quanta := hx.quanta_eq.trans hy.quanta_eq.symm
    exact_mod_cast heq
  have hordinal := quantaOf_strictMono.injective hquanta
  cases x
  cases y
  simp_all

theorem denotes_zero (negative : Bool) : (zero negative).Denotes 0 where
  finite := rfl
  toRat_eq := by
    have hquanta : (zero negative).quanta = 0 := by
      rw [quanta, zero, quantaOf, if_pos (Nat.two_pow_pos 52)]
    rw [toRat_eq_sign_mul, hquanta, Nat.cast_zero, zero_div, mul_zero]

/-! ## What is storable -/

/-- Up to the sign, a storable number is a significand of 53 bits at one of the
    exponents of the format. -/
theorem storable_of_quanta {m e : ℕ} (hm : m < 2 ^ 53) (he : e ≤ 2045)
    (hr : |r| * (quantaPerOne : ℕ) = m * 2 ^ e) : Storable r := by
  obtain ⟨o, ho⟩ := exists_quantaOf_eq e hm
  have hlt : quantaOf o < quantaOf infinityOrdinal :=
    ho.trans_lt ((significand_mul_lt hm he).trans_eq quantaOf_infinityOrdinal.symm)
  have hfinite : o < infinityOrdinal := quantaOf_strictMono.lt_iff_lt.1 hlt
  have hordinal : o < 2 ^ 63 := Nat.lt_trans hfinite (by decide)
  refine ⟨⟨decide (r < 0), o, hordinal⟩, isFinite_iff.2 hfinite, ?_⟩
  have hvalue : (quantaOf o : ℚ) / (quantaPerOne : ℕ) = |r| := by
    rw [ho, div_eq_iff quantaPerOne_ne_zero, hr, Nat.cast_mul, Nat.cast_pow, Nat.cast_ofNat]
  rw [toRat_eq_sign_mul, quanta, hvalue]
  rcases lt_or_ge r 0 with hneg | hpos
  · simp [sign, hneg, abs_of_neg hneg]
  · simp [sign, not_lt.2 hpos, abs_of_nonneg hpos]

/-- A fraction with few bits is storable. -/
theorem storable_div_two_pow {m : ℤ} (k : ℕ) (hm : |m| < 2 ^ 53) (hk : k ≤ 1074) :
    Storable (m / 2 ^ k) := by
  have hnat : m.natAbs < 2 ^ 53 := by
    rw [Int.abs_eq_natAbs] at hm
    omega
  refine storable_of_quanta hnat (show 1074 - k ≤ 2045 by omega) ?_
  have hsplit : ((quantaPerOne : ℕ) : ℚ) = 2 ^ (1074 - k) * 2 ^ k := by
    rw [← pow_add, Nat.sub_add_cancel hk, cast_quantaPerOne]
  rw [hsplit, abs_div, abs_of_pos (by positivity : (0 : ℚ) < 2 ^ k), Nat.cast_natAbs, Int.cast_abs]
  field_simp

/-- A whole number with few bits before its trailing zeros is storable. -/
theorem storable_mul_two_pow {m : ℕ} (k : ℕ) (hm : m < 2 ^ 53) (hk : k ≤ 971) :
    Storable (m * 2 ^ k) := by
  refine storable_of_quanta hm (show k + 1074 ≤ 2045 by omega) ?_
  rw [abs_of_nonneg (by positivity), cast_quantaPerOne, pow_add, mul_assoc]

theorem Storable.exists_ordinal (h : Storable r) :
    ∃ o < infinityOrdinal, (quantaOf o : ℚ) = |r| * (quantaPerOne : ℕ) := by
  obtain ⟨x, hx⟩ := h
  exact ⟨x.ordinal, isFinite_iff.1 hx.finite, hx.quanta_eq⟩

/-- A number that is not small is a multiple of the width of its exponent. -/
theorem Denotes.exists_eq_div (h : x.Denotes r) {j k : ℕ} (hjk : j + k = 52) (hr : 2 ^ k ≤ r) :
    ∃ m : ℕ, r = m / 2 ^ j := by
  obtain ⟨e, m, ho, hm, hsig⟩ := exists_isSignificand x.ordinal
  have hquanta : (m * 2 ^ e : ℚ) = r * 2 ^ 1074 := by
    have hx := h.quanta_eq
    rwa [quanta, ho, quantaOf_of_isSignificand hsig, cast_quantaPerOne,
      abs_of_nonneg (le_trans (by positivity) hr), Nat.cast_mul, Nat.cast_pow,
      Nat.cast_ofNat] at hx
  -- The significand alone is not enough for `2 ^ k`.
  have hexponent : 1074 - j ≤ e := by
    by_contra hnot
    have hlow : (2 : ℚ) ^ k * 2 ^ 1074 ≤ m * 2 ^ e := by
      rw [hquanta]
      exact mul_le_mul_of_nonneg_right hr (by positivity)
    have hhigh : (m * 2 ^ e : ℚ) < 2 ^ 53 * 2 ^ (1073 - j) := by
      have hm' : (m : ℚ) < 2 ^ 53 := by exact_mod_cast hm
      have he : (2 : ℚ) ^ e ≤ 2 ^ (1073 - j) := pow_le_pow_right₀ (by norm_num) (by omega)
      exact mul_lt_mul hm' he (by positivity) (by positivity)
    rw [← pow_add] at hlow hhigh
    rw [show k + 1074 = 53 + (1073 - j) by omega] at hlow
    exact absurd hlow (not_le.2 hhigh)
  obtain ⟨z, rfl⟩ := Nat.exists_eq_add_of_le hexponent
  refine ⟨m * 2 ^ z, ?_⟩
  have hsplit : (2 : ℚ) ^ 1074 = 2 ^ (1074 - j) * 2 ^ j := by
    rw [← pow_add, Nat.sub_add_cancel (by omega)]
  rw [hsplit, pow_add] at hquanta
  have hne : (2 : ℚ) ^ (1074 - j) ≠ 0 := by positivity
  rw [eq_div_iff (by positivity)]
  push_cast
  apply mul_left_cancel₀ hne
  linarith

end Binary64

end PacketTrace
