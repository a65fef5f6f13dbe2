import PacketTrace.Proofs.Binary64.Value

/-!
# Exact and rounded operations

An operation whose exact result is storable has that result (`Denotes.add`,
`Denotes.sub`, `Denotes.ceil`), and numbers are compared by their values
(`Denotes.lt_iff`). Where the exact result is not storable, rounding stays
between the storable numbers below and above it: `Above` and `Below` bound a
positive number from either side, the first of them also when it is infinite.
-/

namespace PacketTrace

namespace Binary64

variable {x y : Binary64} {a b c r : ℚ} {num den : ℕ}

/-! ## Sums -/

/-- A ratio of quanta that is storable is rounded to itself. -/
theorem denotes_nearest {negative : Bool} (hden : 0 < den) (hr : Storable r)
    (hsign : r = sign negative * |r|) (h : (num : ℚ) = |r| * (quantaPerOne : ℕ) * den) :
    (nearest negative num den).Denotes r := by
  obtain ⟨o, ho, hquanta⟩ := hr.exists_ordinal
  have hnum : num = quantaOf o * den := by
    rw [← hquanta] at h
    exact_mod_cast h
  have hordinal : (nearest negative num den).ordinal = o := by
    simp only [nearest]
    rw [nearestOrdinal_of_eq hden hnum, Nat.min_eq_left ho.le]
  refine ⟨isFinite_iff.2 (by rwa [hordinal]), ?_⟩
  rw [toRat_eq_sign_mul, quanta, hordinal, hquanta, mul_div_cancel_right₀ _ quantaPerOne_ne_zero]
  exact hsign.symm

theorem add_eq_nearest (hx : x.Denotes a) (hy : y.Denotes b) :
    x + y =
      if x.signedQuanta + y.signedQuanta = 0 then zero (x.negative && y.negative)
      else nearest (x.signedQuanta + y.signedQuanta < 0)
        (x.signedQuanta + y.signedQuanta).natAbs 1 := by
  change Binary64.add x y = _
  simp [Binary64.add, hx.not_isNaN, hy.not_isNaN, hx.not_isInfinite, hy.not_isInfinite]

theorem Denotes.cast_signedQuanta_add (hx : x.Denotes a) (hy : y.Denotes b) :
    ((x.signedQuanta + y.signedQuanta : ℤ) : ℚ) = (a + b) * (quantaPerOne : ℕ) := by
  rw [Int.cast_add, hx.signedQuanta_eq, hy.signedQuanta_eq, add_mul]

theorem Denotes.add (hx : x.Denotes a) (hy : y.Denotes b) (h : Storable (a + b)) :
    (x + y).Denotes (a + b) := by
  have hsum := hx.cast_signedQuanta_add hy
  rw [add_eq_nearest hx hy]
  generalize x.signedQuanta + y.signedQuanta = sum at *
  split
  next hzero =>
    rw [hzero, Int.cast_zero, zero_eq_mul, or_iff_left quantaPerOne_ne_zero] at hsum
    rw [hsum]
    exact denotes_zero _
  next =>
    refine denotes_nearest Nat.one_pos h ?_ ?_
    · rcases lt_or_ge sum 0 with hneg | hpos
      · have hlt : a + b < 0 := by
          have : ((sum : ℤ) : ℚ) < 0 := by exact_mod_cast hneg
          rw [hsum] at this
          exact neg_of_mul_neg_left this quantaPerOne_pos.le
        simp [sign, hneg, abs_of_neg hlt]
      · have hle : 0 ≤ a + b := by
          have : (0 : ℚ) ≤ ((sum : ℤ) : ℚ) := by exact_mod_cast hpos
          rw [hsum] at this
          exact nonneg_of_mul_nonneg_left this quantaPerOne_pos
        simp [sign, not_lt.2 hpos, abs_of_nonneg hle]
    · rw [Nat.cast_natAbs, Int.cast_abs, hsum, abs_mul, abs_of_pos quantaPerOne_pos, Nat.cast_one,
        mul_one]

/-- A sum that is not negative has no sign if the first number has none. -/
theorem Denotes.add_positive (hx : x.Denotes a) (hy : y.Denotes b) (hpositive : x.negative = false)
    (h : 0 ≤ a + b) : (x + y).negative = false := by
  have hsum : 0 ≤ x.signedQuanta + y.signedQuanta := by
    have hnonneg : (0 : ℚ) ≤ ((x.signedQuanta + y.signedQuanta : ℤ) : ℚ) := by
      rw [hx.cast_signedQuanta_add hy]
      exact mul_nonneg h quantaPerOne_pos.le
    exact_mod_cast hnonneg
  rw [add_eq_nearest hx hy]
  split
  · simp [zero, hpositive]
  · simp [nearest, hsum]

theorem Denotes.neg (hx : x.Denotes a) : (-x).Denotes (-a) := by
  change (Binary64.neg x).Denotes (-a)
  refine ⟨hx.finite, ?_⟩
  have hsign : sign (!x.negative) = -sign x.negative := by
    cases x.negative <;> simp [sign]
  rw [← hx.toRat_eq, toRat_eq_sign_mul, toRat_eq_sign_mul, ← neg_mul, ← hsign]
  rfl

theorem Denotes.sub (hx : x.Denotes a) (hy : y.Denotes b) (h : Storable (a - b)) :
    (x - y).Denotes (a - b) := by
  change (x + -y).Denotes (a - b)
  rw [sub_eq_add_neg] at h ⊢
  exact hx.add hy.neg h

/-! ## Order -/

/-- Numbers are compared by their values. -/
theorem Denotes.lt_iff (hx : x.Denotes a) (hy : y.Denotes b) : x.lt y = true ↔ a < b := by
  have hplace : x.lt y = true ↔ x.place < y.place := by
    simp [lt, hx.not_isNaN, hy.not_isNaN]
  have hvalue : x.signedQuanta < y.signedQuanta ↔ a < b := by
    rw [← Int.cast_lt (R := ℚ), hx.signedQuanta_eq, hy.signedQuanta_eq]
    exact mul_lt_mul_iff_left₀ quantaPerOne_pos
  rw [hplace, ← hvalue]
  -- The ordinals and the quanta of one sign are in the same order, and zero
  -- stands for none.
  have hzero (o : ℕ) : o = 0 ↔ quantaOf o = 0 := by
    have h0 : quantaOf 0 = 0 := by rw [quantaOf, if_pos (Nat.two_pow_pos 52)]
    refine ⟨fun h => h ▸ h0, fun h => quantaOf_strictMono.injective (h.trans h0.symm)⟩
  have hx0 := hzero x.ordinal
  have hy0 := hzero y.ordinal
  have hxy := quantaOf_strictMono.lt_iff_lt (a := x.ordinal) (b := y.ordinal)
  have hyx := quantaOf_strictMono.lt_iff_lt (a := y.ordinal) (b := x.ordinal)
  simp only [place, signedQuanta, quanta]
  generalize quantaOf x.ordinal = p at *
  generalize quantaOf y.ordinal = q at *
  cases x.negative <;> cases y.negative <;>
    simp only [if_true, Bool.false_eq_true, if_false] <;> omega

/-! ## Whole numbers -/

theorem denotes_whole {negative : Bool} {n : ℕ} (h : Storable (sign negative * n)) :
    (whole negative n).Denotes (sign negative * n) := by
  have habs : |sign negative * (n : ℚ)| = n := by rw [abs_mul, abs_sign, one_mul, Nat.abs_cast]
  refine denotes_nearest Nat.one_pos h (by rw [habs]) ?_
  rw [habs, Nat.cast_mul, Nat.cast_one, mul_one]

theorem ceil_natCast_div (n : ℕ) {d : ℕ} (h : 0 < d) :
    ⌈(n / d : ℚ)⌉ = ((n + (d - 1)) / d : ℕ) := by
  have hd : (0 : ℚ) < d := by exact_mod_cast h
  have hdiv := Nat.div_add_mod (n + (d - 1)) d
  have hmod := Nat.mod_lt (n + (d - 1)) h
  rw [Int.ceil_eq_iff, lt_div_iff₀ hd, div_le_iff₀ hd]
  generalize (n + (d - 1)) / d = k at *
  have hlow : k * d < n + d := by rw [Nat.mul_comm]; omega
  have hhigh : n ≤ k * d := by rw [Nat.mul_comm]; omega
  refine ⟨?_, by exact_mod_cast hhigh⟩
  have hlow' : (k * d : ℚ) < n + d := by exact_mod_cast hlow
  rw [sub_mul, one_mul, Int.cast_natCast]
  linarith

theorem Denotes.ceil (hx : x.Denotes r) (h : Storable ⌈r⌉) : x.ceil.Denotes ⌈r⌉ := by
  have hpos : 0 < quantaPerOne := by exact_mod_cast quantaPerOne_pos
  have hvalue := toRat_eq_sign_mul x
  rw [hx.toRat_eq] at hvalue
  rw [Binary64.ceil, hx.finite]
  simp only [Bool.not_true, Bool.false_eq_true, if_false]
  cases hn : x.negative with
  | true =>
    have hceil : ((⌈r⌉ : ℤ) : ℚ) = sign true * ((x.quanta / quantaPerOne : ℕ) : ℚ) := by
      rw [hvalue, hn, sign, if_pos rfl, neg_one_mul, Int.ceil_neg, Rat.floor_natCast_div_natCast,
        ← Int.natCast_div, Int.cast_neg, Int.cast_natCast, neg_one_mul]
    rw [hceil] at h ⊢
    exact denotes_whole h
  | false =>
    have hceil : ((⌈r⌉ : ℤ) : ℚ) =
        sign false * (((x.quanta + (quantaPerOne - 1)) / quantaPerOne : ℕ) : ℚ) := by
      rw [hvalue, hn, sign, if_neg (by decide), one_mul, one_mul, ceil_natCast_div _ hpos,
        Int.cast_natCast]
    rw [hceil] at h ⊢
    exact denotes_whole h

/-- A number that is not negative counts the whole ones below it. -/
theorem Denotes.toCount (hx : x.Denotes r) (hr : 0 ≤ r) :
    x.toCount = min ⌊r⌋₊ (2 ^ 64 - 1) := by
  have hvalue := toRat_eq_sign_mul x
  rw [hx.toRat_eq] at hvalue
  rw [Binary64.toCount, hx.not_isNaN, hx.not_isInfinite]
  cases hn : x.negative with
  | true =>
    have hzero : r = 0 := by
      refine le_antisymm ?_ hr
      rw [hvalue, hn, sign, if_pos rfl, neg_one_mul, neg_nonpos]
      positivity
    simp [hzero]
  | false =>
    rw [hn, sign, if_neg (by decide), one_mul] at hvalue
    rw [hvalue, Rat.natFloor_natCast_div_natCast]
    simp

/-! ## Bounds on rounded results -/

/-- `x` is a positive number from `a` up, or positive infinity. -/
structure Above (x : Binary64) (a : ℚ) : Prop where
  positive : x.negative = false
  number : x.isNaN = false
  le : x.isFinite = true → a ≤ x.toRat

/-- `x` is a positive number up to `b`. -/
structure Below (x : Binary64) (b : ℚ) : Prop where
  positive : x.negative = false
  finite : x.isFinite = true
  le : x.toRat ≤ b

theorem toRat_of_positive (h : x.negative = false) : x.toRat = x.quanta / (quantaPerOne : ℕ) := by
  rw [toRat_eq_sign_mul, h, sign, if_neg (by decide), one_mul]

theorem toRat_nonneg (h : x.negative = false) : 0 ≤ x.toRat := by
  rw [toRat_of_positive h]
  positivity

theorem above_nearest (hden : 0 < den) (ha : Storable a)
    (h : a * (quantaPerOne : ℕ) * den ≤ num) : (nearest false num den).Above a where
  positive := rfl
  number := by simp [isNaN, nearest]
  le hfinite := by
    rcases lt_or_ge a 0 with hneg | hpos
    · exact hneg.le.trans (toRat_nonneg rfl)
    · obtain ⟨o, -, hquanta⟩ := ha.exists_ordinal
      rw [abs_of_nonneg hpos] at hquanta
      have hnum : quantaOf o * den ≤ num := by
        rw [← hquanta] at h
        exact_mod_cast h
      have hordinal := isFinite_iff.1 hfinite
      have hle := le_nearestOrdinal hden hnum
      simp only [nearest] at hordinal
      have hmono : quantaOf o ≤ (nearest false num den).quanta := by
        refine quantaOf_strictMono.monotone ?_
        simp only [nearest]
        omega
      rw [toRat_of_positive rfl, le_div_iff₀ quantaPerOne_pos, ← hquanta]
      exact_mod_cast hmono

theorem below_nearest (hden : 0 < den) (hb : Storable b)
    (h : num ≤ b * (quantaPerOne : ℕ) * den) : (nearest false num den).Below b := by
  obtain ⟨o, ho, hquanta⟩ := hb.exists_ordinal
  have hpos : 0 ≤ b := by
    have hden' : (0 : ℚ) < den := by exact_mod_cast hden
    have hle : 0 ≤ b * (quantaPerOne : ℕ) * den := le_trans (Nat.cast_nonneg num) h
    exact nonneg_of_mul_nonneg_left (nonneg_of_mul_nonneg_left hle hden') quantaPerOne_pos
  rw [abs_of_nonneg hpos] at hquanta
  have hnum : num ≤ quantaOf o * den := by
    rw [← hquanta] at h
    exact_mod_cast h
  have hle := nearestOrdinal_le hden hnum
  have hordinal : (nearest false num den).ordinal ≤ o := by
    simp only [nearest]
    omega
  refine ⟨rfl, isFinite_iff.2 (by omega), ?_⟩
  have hmono : (nearest false num den).quanta ≤ quantaOf o := quantaOf_strictMono.monotone hordinal
  rw [toRat_of_positive rfl, div_le_iff₀ quantaPerOne_pos, ← hquanta]
  exact_mod_cast hmono

theorem above_ofNat {n : ℕ} (ha : Storable a) (h : a ≤ n) : (ofNat n).Above a := by
  refine above_nearest Nat.one_pos ha ?_
  rw [Nat.cast_mul, Nat.cast_one, mul_one]
  exact mul_le_mul_of_nonneg_right h quantaPerOne_pos.le

theorem below_ofNat {n : ℕ} (hb : Storable b) (h : n ≤ b) : (ofNat n).Below b := by
  refine below_nearest Nat.one_pos hb ?_
  rw [Nat.cast_mul, Nat.cast_one, mul_one]
  exact mul_le_mul_of_nonneg_right h quantaPerOne_pos.le

/-- A number between two equal bounds is known. -/
theorem Above.denotes (h : x.Above r) (h' : x.Below r) : x.Denotes r :=
  ⟨h'.finite, le_antisymm h'.le (h.le h'.finite)⟩

theorem Below.denotes_toRat (h : x.Below b) : x.Denotes x.toRat := ⟨h.finite, rfl⟩

theorem Above.isInfinite (h : x.Above a) (hx : x.isFinite = false) : x.isInfinite = true := by
  have hnumber := h.number
  simp only [isNaN, isFinite, decide_eq_false_iff_not] at hnumber hx
  rw [Binary64.isInfinite, beq_iff_eq]
  omega

/-! ### Infinity -/

theorem ceil_of_not_finite (h : x.isFinite = false) : x.ceil = x := by
  simp [ceil, h]

theorem Above.toCount_of_not_finite (hx : x.Above a) (h : x.isFinite = false) :
    x.toCount = 2 ^ 64 - 1 := by
  simp [toCount, hx.number, hx.positive, hx.isInfinite h]

theorem Above.sub_of_not_finite (hx : x.Above a) (h : x.isFinite = false) (hy : y.Denotes b) :
    x - y = x := by
  change Binary64.add x (-y) = x
  simp [Binary64.add, hx.number, hx.isInfinite h, hy.neg.not_isNaN, hy.neg.not_isInfinite]

theorem above_infinity (a : ℚ) : (infinity false).Above a where
  positive := rfl
  number := by decide
  le h := absurd h (by decide)

/-! ### Products and quotients -/

theorem mul_eq_nearest (hx : x.Denotes a) (hy : y.Denotes b) :
    x * y = nearest (x.negative != y.negative) (x.quanta * y.quanta) quantaPerOne := by
  change Binary64.mul x y = _
  simp [Binary64.mul, hx.not_isNaN, hy.not_isNaN, hx.not_isInfinite, hy.not_isInfinite]

theorem div_eq_nearest (hx : x.Denotes a) (hy : y.Denotes b) (hb : b ≠ 0) :
    x / y = nearest (x.negative != y.negative) (x.quanta * quantaPerOne) y.quanta := by
  change Binary64.div x y = _
  simp [Binary64.div, hx.not_isNaN, hy.not_isNaN, hx.not_isInfinite, hy.not_isInfinite,
    hy.not_isZero hb]

theorem Denotes.quanta_of_nonneg (h : x.Denotes r) (hr : 0 ≤ r) :
    (x.quanta : ℚ) = r * (quantaPerOne : ℕ) := by
  rw [h.quanta_eq, abs_of_nonneg hr]

section Bounds

variable (hy : y.Denotes b) (hpos : y.negative = false) (hb : 0 < b) (hc : Storable c)
include hy hpos hb hc

theorem Above.mul (hx : x.Above a) (h : c ≤ a * b) : (x * y).Above c := by
  by_cases hfinite : x.isFinite = true
  · have hx' : x.Denotes x.toRat := ⟨hfinite, rfl⟩
    have hnum : c * (quantaPerOne : ℕ) * (quantaPerOne : ℕ) ≤ ((x.quanta * y.quanta : ℕ) : ℚ) := by
      rw [Nat.cast_mul, hx'.quanta_of_nonneg (toRat_nonneg hx.positive),
        hy.quanta_of_nonneg hb.le, mul_mul_mul_comm, mul_assoc c]
      have hle : a * b ≤ x.toRat * b := mul_le_mul_of_nonneg_right (hx.le hfinite) hb.le
      exact mul_le_mul_of_nonneg_right (h.trans hle) (mul_self_nonneg _)
    rw [mul_eq_nearest hx' hy, hx.positive, hpos]
    exact above_nearest (by exact_mod_cast quantaPerOne_pos) hc hnum
  · have hinfinite := hx.isInfinite (by simpa using hfinite)
    have hresult : x * y = infinity false := by
      have hzero : x.isZero = false := by
        rw [Binary64.isInfinite, beq_iff_eq] at hinfinite
        rw [isZero, hinfinite]
        decide
      change Binary64.mul x y = _
      simp [Binary64.mul, hx.number, hy.not_isNaN, hinfinite, hzero, hy.not_isZero hb.ne',
        hx.positive, hpos]
    rw [hresult]
    exact above_infinity c

theorem Below.mul (hx : x.Below a) (h : a * b ≤ c) : (x * y).Below c := by
  have hx' := hx.denotes_toRat
  have hnum : ((x.quanta * y.quanta : ℕ) : ℚ) ≤ c * (quantaPerOne : ℕ) * (quantaPerOne : ℕ) := by
    rw [Nat.cast_mul, hx'.quanta_of_nonneg (toRat_nonneg hx.positive),
      hy.quanta_of_nonneg hb.le, mul_mul_mul_comm, mul_assoc c]
    have hle : x.toRat * b ≤ a * b := mul_le_mul_of_nonneg_right hx.le hb.le
    exact mul_le_mul_of_nonneg_right (hle.trans h) (mul_self_nonneg _)
  rw [mul_eq_nearest hx' hy, hx.positive, hpos]
  exact below_nearest (by exact_mod_cast quantaPerOne_pos) hc hnum

theorem Above.div (hx : x.Above a) (h : c * b ≤ a) : (x / y).Above c := by
  have hquanta := hy.quanta_of_nonneg hb.le
  by_cases hfinite : x.isFinite = true
  · have hx' : x.Denotes x.toRat := ⟨hfinite, rfl⟩
    have hnum : c * (quantaPerOne : ℕ) * (y.quanta : ℕ) ≤ ((x.quanta * quantaPerOne : ℕ) : ℚ) := by
      rw [Nat.cast_mul, hx'.quanta_of_nonneg (toRat_nonneg hx.positive), hquanta,
        mul_mul_mul_comm, mul_assoc x.toRat]
      exact mul_le_mul_of_nonneg_right (h.trans (hx.le hfinite)) (mul_self_nonneg _)
    have hden : (0 : ℚ) < y.quanta := by
      rw [hquanta]
      exact mul_pos hb quantaPerOne_pos
    rw [div_eq_nearest hx' hy hb.ne', hx.positive, hpos]
    exact above_nearest (by exact_mod_cast hden) hc hnum
  · have hresult : x / y = infinity false := by
      change Binary64.div x y = _
      simp [Binary64.div, hx.number, hy.not_isNaN, hx.isInfinite (by simpa using hfinite),
        hy.not_isInfinite, hx.positive, hpos]
    rw [hresult]
    exact above_infinity c

theorem Below.div (hx : x.Below a) (h : a ≤ c * b) : (x / y).Below c := by
  have hquanta := hy.quanta_of_nonneg hb.le
  have hx' := hx.denotes_toRat
  have hnum : ((x.quanta * quantaPerOne : ℕ) : ℚ) ≤ c * (quantaPerOne : ℕ) * (y.quanta : ℕ) := by
    rw [Nat.cast_mul, hx'.quanta_of_nonneg (toRat_nonneg hx.positive), hquanta,
      mul_mul_mul_comm, mul_assoc x.toRat]
    exact mul_le_mul_of_nonneg_right (hx.le.trans h) (mul_self_nonneg _)
  have hden : (0 : ℚ) < y.quanta := by
    rw [hquanta]
    exact mul_pos hb quantaPerOne_pos
  rw [div_eq_nearest hx' hy hb.ne', hx.positive, hpos]
  exact below_nearest (by exact_mod_cast hden) hc hnum

end Bounds

end Binary64

end PacketTrace
