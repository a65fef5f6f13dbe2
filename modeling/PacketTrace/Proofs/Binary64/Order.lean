import PacketTrace.Proofs.Binary64.Operation

/-!
# Operations that keep the order

Rounding keeps the order of the numbers that are rounded (`nearestOrdinal_mono`): at
one exponent because the significands do, and from a lower exponent to a higher one
because the least significand at the higher exponent is between them.

Hence the operations keep the order of numbers without a sign (`Precedes`), among
them infinity: to convert from a natural number, to multiply by a number, to round
to a whole number, and to count the whole ones.
-/

namespace PacketTrace

namespace Binary64

/-! ## Rounding -/

variable {num num' den : ℕ}

theorem roundHalfEven_mono (hden : 0 < den) (h : num ≤ num') :
    roundHalfEven num den ≤ roundHalfEven num' den := by
  have hfloor : num / den ≤ num' / den := Nat.div_le_div_right h
  have hdiv := Nat.div_add_mod num den
  have hdiv' := Nat.div_add_mod num' den
  rcases Nat.lt_or_eq_of_le hfloor with hlt | heq
  · rcases roundHalfEven_cases num hden with hr | ⟨hr, -⟩ <;>
      rcases roundHalfEven_cases num' hden with hr' | ⟨hr', -⟩ <;> omega
  · have hmod : num % den ≤ num' % den := by
      rw [heq] at hdiv
      omega
    simp only [roundHalfEven, heq]
    split_ifs <;> omega

theorem nearestExponent_mono (den : ℕ) (h : num ≤ num') :
    nearestExponent num den ≤ nearestExponent num' den := by
  refine Nat.sub_le_sub_right ?_ 52
  have hfloor : num / den ≤ num' / den := Nat.div_le_div_right h
  rcases Nat.eq_zero_or_pos (num / den) with hzero | hpos
  · rw [hzero]
    exact Nat.zero_le _
  · have hne : num' / den ≠ 0 := Nat.ne_of_gt (Nat.lt_of_lt_of_le hpos hfloor)
    exact (Nat.le_log2 hne).2 (Nat.le_trans (Nat.log2_self_le (Nat.ne_of_gt hpos)) hfloor)

/-- Rounding keeps the order of ratios. -/
theorem nearestOrdinal_mono (hden : 0 < den) (h : num ≤ num') :
    nearestOrdinal num den ≤ nearestOrdinal num' den := by
  rw [nearestOrdinal_eq_add, nearestOrdinal_eq_add]
  have hpos (x : ℕ) : 0 < den * 2 ^ x := Nat.mul_pos hden (Nat.two_pow_pos x)
  rcases Nat.lt_or_eq_of_le (nearestExponent_mono den h) with hlt | heq
  · -- Between the two are the carried significand at the lower exponent and the
    -- least one at the higher.
    have hlow : roundHalfEven num (den * 2 ^ nearestExponent num den) ≤ 2 ^ 53 :=
      (isSignificand_roundHalfEven hden).le
    have hhigh : 2 ^ 52 ≤ roundHalfEven num' (den * 2 ^ nearestExponent num' den) := by
      refine (isSignificand_roundHalfEven hden).leading.resolve_left ?_
      exact Nat.ne_of_gt (Nat.zero_lt_of_lt hlt)
    omega
  · rw [heq]
    exact Nat.add_le_add_left (roundHalfEven_mono (hpos _) h) _

/-- A count fits in 64 bits. -/
theorem toCount_le_max (x : Binary64) : x.toCount ≤ 2 ^ 64 - 1 := by
  rw [toCount]
  split_ifs
  · exact Nat.zero_le _
  · exact Nat.le_refl _
  · exact Nat.min_le_right _ _

/-! ## Numbers without a sign -/

/-- Neither number has a sign, and the one is not above the other. -/
structure Precedes (x y : Binary64) : Prop where
  positive : x.negative = false
  positive' : y.negative = false
  number : y.isNaN = false
  le : x.ordinal ≤ y.ordinal

variable {x y z : Binary64}

theorem precedes_nearest (hden : 0 < den) (h : num ≤ num') :
    (nearest false num den).Precedes (nearest false num' den) where
  positive := rfl
  positive' := rfl
  number := by simp [isNaN, nearest]
  le := by
    have hle := nearestOrdinal_mono hden h
    simp only [nearest]
    omega

theorem precedes_ofNat {m n : ℕ} (h : m ≤ n) : (ofNat m).Precedes (ofNat n) :=
  precedes_nearest Nat.one_pos (Nat.mul_le_mul_right _ h)

namespace Precedes

theorem isFinite (h : x.Precedes y) (hy : y.isFinite = true) : x.isFinite = true :=
  isFinite_iff.2 (Nat.lt_of_le_of_lt h.le (isFinite_iff.1 hy))

theorem number_left (h : x.Precedes y) : x.isNaN = false := by
  have hnumber := h.number
  have hle := h.le
  simp only [isNaN, decide_eq_false_iff_not] at hnumber ⊢
  omega

theorem quanta_le (h : x.Precedes y) : x.quanta ≤ y.quanta := quantaOf_strictMono.monotone h.le

/-- A finite factor keeps the order of finite numbers. -/
theorem mul (h : x.Precedes y) (hy : y.isFinite = true) (hz : z.isFinite = true)
    (hpositive : z.negative = false) : (x * z).Precedes (y * z) := by
  have hz : z.Denotes z.toRat := ⟨hz, rfl⟩
  rw [mul_eq_nearest ⟨h.isFinite hy, rfl⟩ hz, mul_eq_nearest ⟨hy, rfl⟩ hz, h.positive, h.positive',
    hpositive]
  exact precedes_nearest (by exact_mod_cast quantaPerOne_pos) (Nat.mul_le_mul_right _ h.quanta_le)

theorem round (h : x.Precedes y) : x.round.Precedes y.round := by
  by_cases hy : y.isFinite = true
  · have hwhole : (2 * x.quanta + quantaPerOne) / (2 * quantaPerOne) ≤
        (2 * y.quanta + quantaPerOne) / (2 * quantaPerOne) := by
      have hle := h.quanta_le
      exact Nat.div_le_div_right (by omega)
    rw [Binary64.round, Binary64.round, hy, h.isFinite hy, h.positive, h.positive']
    exact precedes_ofNat hwhole
  · have hround : y.round = y := by simp [Binary64.round, hy]
    rw [hround]
    by_cases hx : x.isFinite = true
    · rw [Binary64.round, hx, h.positive]
      refine ⟨rfl, h.positive', h.number, ?_⟩
      rw [isFinite_iff, Nat.not_lt] at hy
      exact Nat.le_trans (Nat.min_le_right _ _) hy
    · have hround : x.round = x := by simp [Binary64.round, hx]
      rwa [hround]

theorem toCount_le (h : x.Precedes y) : x.toCount ≤ y.toCount := by
  have hquanta : x.quanta / quantaPerOne ≤ y.quanta / quantaPerOne :=
    Nat.div_le_div_right h.quanta_le
  by_cases hy : y.isInfinite = true
  · have hcount : y.toCount = 2 ^ 64 - 1 := by simp [toCount, h.number, h.positive', hy]
    rw [hcount]
    exact toCount_le_max x
  · have hx : ¬ x.isInfinite = true := by
      have hnumber := h.number
      have hle := h.le
      simp only [isInfinite, beq_iff_eq, isNaN, decide_eq_false_iff_not] at hy hnumber ⊢
      omega
    simp only [toCount, h.number_left, h.number, h.positive, h.positive', hx, hy, Bool.or_self,
      Bool.false_eq_true, if_false]
    exact min_le_min_right _ hquanta

end Precedes

/-! ## Infinity -/

/-- Of the numbers without a sign, only infinity is not finite. -/
theorem Above.eq_infinity {a : ℚ} (h : x.Above a) (hx : x.isFinite = false) :
    x = infinity false := by
  have hinfinite := h.isInfinite hx
  have hpositive := h.positive
  obtain ⟨negative, ordinal, hlt⟩ := x
  rw [Binary64.isInfinite, beq_iff_eq] at hinfinite
  subst hinfinite hpositive
  rfl

/-- The product of a natural number and infinity is infinite, but for zero. -/
theorem ofNat_mul_infinity {n : ℕ} (hn : 0 < n) : ofNat n * infinity false = infinity false := by
  have hone := precedes_ofNat hn
  have hzero : (ofNat n).isZero = false := by
    have hpos : 0 < (ofNat 1).ordinal := by decide +kernel
    rw [isZero, beq_eq_false_iff_ne]
    exact Nat.ne_of_gt (Nat.lt_of_lt_of_le hpos hone.le)
  have hpositive : (ofNat n).negative = false := rfl
  have hinfinity : (infinity false).isNaN = false ∧ (infinity false).isInfinite = true ∧
      (infinity false).isZero = false ∧ (infinity false).negative = false := by decide
  change Binary64.mul _ _ = _
  simp [Binary64.mul, hone.number, hzero, hpositive, hinfinity]

end Binary64

end PacketTrace
