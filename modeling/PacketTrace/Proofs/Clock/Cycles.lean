import PacketTrace.Clock.Departure
import PacketTrace.Proofs.Binary64.Operation

/-!
# The cycles of a gap

A gap of `n` nanoseconds has `5 * n / 32` cycles, which 53 bits can hold for
every gap that a replay record admits. The product on the way there has more
bits: it is exact up to `922337203` nanoseconds, and beyond that only if enough
of its low bits are zero (`denotes_nanosToCycles`). A cycle count that is not
exact is off by the width of its exponent.

* `deviation`: what rounding adds to the cycles of a gap;
* `onGrid_cycles`: computed cycles are multiples of `2 ^ -25`, whether
  they are exact or not, which is why the quantizer can add them up exactly;
* `abs_deviation_le`: up to `2 ^ 28` cycles, an odd gap is off by `2 ^ -25` at
  most, and an even one is exact.
-/

namespace PacketTrace

open Binary64

/-- The cycles of a gap as they are computed. -/
def cycles (nanos : ℕ) : ℚ := (nanosToCycles nanos).toRat

/-- The cycles of a gap as they are. -/
def exactCycles (nanos : ℕ) : ℚ := 5 * nanos / 32

/-- The cycles that rounding adds to a gap. -/
def deviation (nanos : ℕ) : ℚ := cycles nanos - exactCycles nanos

/-- The longest gap whose product with the frequency always fits in 53 bits. -/
def exactGap : ℕ := 922337203

theorem storable_natCast {n : ℕ} (h : n < 2 ^ 53) : Storable n := by
  simpa using storable_mul_two_pow 0 h (by omega)

theorem denotes_ofNat {n : ℕ} (h : n < 2 ^ 53) : (ofNat n).Denotes n :=
  (above_ofNat (storable_natCast h) le_rfl).denotes (below_ofNat (storable_natCast h) le_rfl)

theorem denotes_clockFrequency : (ofNat clockFrequency).Denotes 156250000 := by
  have h := denotes_ofNat (n := clockFrequency) (by decide)
  rwa [clockFrequency, Nat.cast_ofNat] at h

theorem denotes_nanosPerSecond : (ofNat nanosPerSecond).Denotes 1000000000 := by
  have h := denotes_ofNat (n := nanosPerSecond) (by decide)
  rwa [nanosPerSecond, Nat.cast_ofNat] at h

/-! ## Bounds -/

/-- Storable bounds on a gap, on its product with the frequency and on its
    cycles carry over to the computed cycles, from below and from above. -/
theorem above_nanosToCycles {nanos : ℕ} {gap product c : ℚ} (hgap : Storable gap)
    (hproduct : Storable product) (hc : Storable c) (h₁ : gap ≤ nanos)
    (h₂ : product ≤ gap * 156250000) (h₃ : c * 1000000000 ≤ product) :
    (nanosToCycles nanos).Above c :=
  ((above_ofNat hgap h₁).mul denotes_clockFrequency rfl (by norm_num) hproduct h₂).div
    denotes_nanosPerSecond rfl (by norm_num) hc h₃

theorem below_nanosToCycles {nanos : ℕ} {gap product c : ℚ} (hgap : Storable gap)
    (hproduct : Storable product) (hc : Storable c) (h₁ : nanos ≤ gap)
    (h₂ : gap * 156250000 ≤ product) (h₃ : product ≤ c * 1000000000) :
    (nanosToCycles nanos).Below c :=
  ((below_ofNat hgap h₁).mul denotes_clockFrequency rfl (by norm_num) hproduct h₂).div
    denotes_nanosPerSecond rfl (by norm_num) hc h₃

theorem storable_exactCycles {nanos : ℕ} (h : 5 * nanos < 2 ^ 53) :
    Storable (exactCycles nanos) := by
  have hlt : |((5 * nanos : ℕ) : ℤ)| < 2 ^ 53 := by
    rw [Nat.abs_cast]
    exact_mod_cast h
  have hstorable := storable_div_two_pow 5 hlt (by omega)
  rw [exactCycles]
  norm_num at hstorable ⊢
  exact hstorable

/-- The computed cycles are exact if the odd part of the product has 53 bits. -/
theorem denotes_nanosToCycles {nanos m k : ℕ} (hm : m < 2 ^ 53) (hk : k ≤ 900)
    (h : 9765625 * nanos = m * 2 ^ k) (hnanos : 5 * nanos < 2 ^ 53) :
    (nanosToCycles nanos).Denotes (exactCycles nanos) := by
  have hgap : Storable nanos := storable_natCast (by omega)
  have hvalue : (nanos : ℚ) * 156250000 = m * 2 ^ (k + 4) := by
    have hcast : (9765625 * nanos : ℚ) = m * 2 ^ k := by exact_mod_cast h
    rw [pow_add, ← mul_assoc, ← hcast]
    ring
  have hproduct : Storable ((nanos : ℚ) * 156250000) :=
    hvalue ▸ storable_mul_two_pow (k + 4) hm (by omega)
  have hquotient : exactCycles nanos * 1000000000 = nanos * 156250000 := by
    rw [exactCycles]
    ring
  have hc := storable_exactCycles hnanos
  exact (above_nanosToCycles hgap hproduct hc le_rfl le_rfl hquotient.le).denotes
    (below_nanosToCycles hgap hproduct hc le_rfl le_rfl hquotient.ge)

theorem denotes_nanosToCycles_of_le {nanos : ℕ} (h : nanos ≤ exactGap) :
    (nanosToCycles nanos).Denotes (exactCycles nanos) := by
  rw [exactGap] at h
  exact denotes_nanosToCycles (m := 9765625 * nanos) (k := 0) (by omega) (by omega) (by ring)
    (by omega)

/-- A gap whose product may not fit has many cycles, if not infinitely many. -/
theorem above_nanosToCycles_of_lt {nanos : ℕ} (h : exactGap < nanos) :
    (nanosToCycles nanos).Above (2 ^ 27) := by
  have hgap : Storable ((922337204 : ℕ) : ℚ) := storable_natCast (by norm_num)
  have hproduct : Storable (((5 ^ 9 : ℕ) : ℚ) * 2 ^ 36) :=
    storable_mul_two_pow 36 (by norm_num) (by omega)
  have hc : Storable (((1 : ℕ) : ℚ) * 2 ^ 27) := storable_mul_two_pow 27 (by norm_num) (by omega)
  have hle : ((922337204 : ℕ) : ℚ) ≤ nanos := by
    rw [exactGap] at h
    exact_mod_cast h
  have habove := above_nanosToCycles hgap hproduct hc hle (by norm_num) (by norm_num)
  rwa [Nat.cast_one, one_mul] at habove

/-- A gap of 64 bits has finitely many cycles. -/
theorem below_nanosToCycles_of_lt {nanos : ℕ} (h : nanos < 2 ^ 64) :
    (nanosToCycles nanos).Below (2 ^ 62) := by
  have hgap : Storable (((1 : ℕ) : ℚ) * 2 ^ 64) := storable_mul_two_pow 64 (by norm_num) (by omega)
  have hproduct : Storable (((9765625 : ℕ) : ℚ) * 2 ^ 68) :=
    storable_mul_two_pow 68 (by norm_num) (by omega)
  have hc : Storable (((1 : ℕ) : ℚ) * 2 ^ 62) := storable_mul_two_pow 62 (by norm_num) (by omega)
  have hle : (nanos : ℚ) ≤ ((1 : ℕ) : ℚ) * 2 ^ 64 := by
    rw [Nat.cast_one, one_mul]
    exact_mod_cast h.le
  have hbelow := below_nanosToCycles hgap hproduct hc hle (by norm_num) (by norm_num)
  rwa [Nat.cast_one, one_mul] at hbelow

/-! ## The grid -/

/-- A multiple of `2 ^ -25`. -/
def OnGrid (r : ℚ) : Prop := ∃ m : ℤ, r = m / 2 ^ 25

theorem onGrid_intCast (m : ℤ) : OnGrid m := by
  refine ⟨m * 2 ^ 25, ?_⟩
  rw [Int.cast_mul, Int.cast_pow, Int.cast_ofNat, mul_div_cancel_right₀ _ (by positivity)]

theorem OnGrid.add {r s : ℚ} (hr : OnGrid r) (hs : OnGrid s) : OnGrid (r + s) := by
  obtain ⟨m, rfl⟩ := hr
  obtain ⟨n, rfl⟩ := hs
  exact ⟨m + n, by rw [Int.cast_add, add_div]⟩

theorem OnGrid.sub {r s : ℚ} (hr : OnGrid r) (hs : OnGrid s) : OnGrid (r - s) := by
  obtain ⟨m, rfl⟩ := hr
  obtain ⟨n, rfl⟩ := hs
  exact ⟨m - n, by rw [Int.cast_sub, sub_div]⟩

/-- A small number on the grid is storable. -/
theorem OnGrid.storable {r : ℚ} (h : OnGrid r) (hr : |r| < 2 ^ 28) : Storable r := by
  obtain ⟨m, rfl⟩ := h
  refine storable_div_two_pow 25 ?_ (by omega)
  rw [abs_div, abs_of_pos (by positivity : (0 : ℚ) < 2 ^ 25), div_lt_iff₀ (by positivity)] at hr
  have hm : ((|m| : ℤ) : ℚ) < 2 ^ 53 := by
    rw [Int.cast_abs]
    calc |(m : ℚ)| < 2 ^ 28 * 2 ^ 25 := hr
      _ = 2 ^ 53 := by norm_num
  exact_mod_cast hm

/-- The computed cycles are no fewer than none, and a number unless infinite. -/
theorem above_zero_nanosToCycles (nanos : ℕ) : (nanosToCycles nanos).Above 0 := by
  have hzero : Storable 0 := ⟨_, denotes_zero false⟩
  exact above_nanosToCycles hzero hzero hzero (Nat.cast_nonneg nanos) (by norm_num) (by norm_num)

theorem cycles_nonneg (nanos : ℕ) : 0 ≤ cycles nanos :=
  toRat_nonneg (above_zero_nanosToCycles nanos).positive

/-- The computed cycles are a multiple of `2 ^ -25`. -/
theorem onGrid_cycles {nanos : ℕ} (h : (nanosToCycles nanos).isFinite = true) :
    OnGrid (cycles nanos) := by
  rcases Nat.lt_or_ge exactGap nanos with hlong | hshort
  · have hdenotes : (nanosToCycles nanos).Denotes (cycles nanos) := ⟨h, rfl⟩
    obtain ⟨m, hm⟩ := hdenotes.exists_eq_div (show 25 + 27 = 52 by rfl)
      ((above_nanosToCycles_of_lt hlong).le h)
    exact ⟨m, by rw [hm, Int.cast_natCast]⟩
  · refine ⟨5 * nanos * 2 ^ 20, ?_⟩
    rw [cycles, (denotes_nanosToCycles_of_le hshort).toRat_eq, exactCycles]
    push_cast
    ring

/-! ## The deviation -/

theorem cycles_eq_add (nanos : ℕ) : cycles nanos = exactCycles nanos + deviation nanos := by
  rw [deviation]
  ring

theorem deviation_of_denotes {nanos : ℕ}
    (h : (nanosToCycles nanos).Denotes (exactCycles nanos)) : deviation nanos = 0 := by
  rw [deviation, cycles, h.toRat_eq, sub_self]

theorem deviation_of_le {nanos : ℕ} (h : nanos ≤ exactGap) : deviation nanos = 0 :=
  deviation_of_denotes (denotes_nanosToCycles_of_le h)

/-- Gaps that follow one another have the cycles of all their time, and what is
    added to each. -/
theorem sum_map_cycles (gaps : List ℕ) :
    (gaps.map cycles).sum = exactCycles gaps.sum + (gaps.map deviation).sum := by
  induction gaps with
  | nil => simp [exactCycles]
  | cons nanos gaps ih =>
    rw [List.map_cons, List.sum_cons, ih, cycles_eq_add, List.map_cons, List.sum_cons,
      List.sum_cons, exactCycles, exactCycles, exactCycles]
    push_cast
    ring

theorem sum_map_deviation_of_le {gaps : List ℕ} (h : ∀ n ∈ gaps, n ≤ exactGap) :
    (gaps.map deviation).sum = 0 := by
  refine List.sum_eq_zero fun d hd => ?_
  obtain ⟨n, hn, rfl⟩ := List.mem_map.1 hd
  exact deviation_of_le (h n hn)

/-- Twice as long a gap is exact if it is even: the product has a bit to
    spare. -/
theorem deviation_of_even {nanos : ℕ} (h : nanos ≤ 2 * exactGap) (heven : nanos % 2 = 0) :
    deviation nanos = 0 := by
  rw [exactGap] at h
  exact deviation_of_denotes (denotes_nanosToCycles (m := 9765625 * (nanos / 2)) (k := 1)
    (by omega) (by omega) (by omega) (by omega))

/-- Up to `2 ^ 28` cycles, a gap is off by `2 ^ -25` at most. -/
theorem abs_deviation_le {nanos : ℕ} (h : 5 * nanos < 2 ^ 33) :
    |deviation nanos| ≤ 1 / 2 ^ 25 := by
  rcases Nat.mod_two_eq_zero_or_one nanos with heven | hodd
  · rw [deviation_of_even (by rw [exactGap]; omega) heven, abs_zero]
    positivity
  · have hgap : Storable nanos := storable_natCast (by omega)
    -- The product is halfway between two numbers of the format, or in it.
    obtain ⟨j, hj⟩ : ∃ j, 9765625 * nanos = 2 * j + 1 := ⟨9765625 * nanos / 2, by omega⟩
    have hvalue : (nanos : ℚ) * 156250000 = j * 2 ^ 5 + 16 := by
      have hcast : (9765625 * nanos : ℚ) = 2 * j + 1 := by exact_mod_cast hj
      linarith
    have hlow : Storable ((j : ℚ) * 2 ^ 5) := storable_mul_two_pow 5 (by omega) (by omega)
    have hhigh : Storable (((j + 1 : ℕ) : ℚ) * 2 ^ 5) :=
      storable_mul_two_pow 5 (by omega) (by omega)
    have hstep (d : ℤ) (hd : |d| = 1) :
        Storable (((5 * nanos * 2 ^ 20 + d : ℤ) : ℚ) / 2 ^ 25) := by
      refine storable_div_two_pow 25 ?_ (by omega)
      have hnat : (5 * nanos : ℤ) < 2 ^ 33 := by exact_mod_cast h
      have hd' := abs_le.1 hd.le
      rw [abs_lt]
      omega
    have habove : (nanosToCycles nanos).Above (((5 * nanos * 2 ^ 20 + -1 : ℤ) : ℚ) / 2 ^ 25) := by
      refine above_nanosToCycles hgap hlow (hstep (-1) (by norm_num)) le_rfl ?_ ?_
      · linarith
      · push_cast
        linarith
    have hbelow : (nanosToCycles nanos).Below (((5 * nanos * 2 ^ 20 + 1 : ℤ) : ℚ) / 2 ^ 25) := by
      refine below_nanosToCycles hgap hhigh (hstep 1 (by norm_num)) le_rfl ?_ ?_
      · push_cast
        linarith
      · push_cast
        linarith
    have hle := habove.le hbelow.finite
    have hge := hbelow.le
    push_cast at hle hge
    rw [deviation, cycles, exactCycles, abs_le]
    constructor <;> linarith

end PacketTrace
