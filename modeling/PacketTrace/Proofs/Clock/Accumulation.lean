import PacketTrace.Proofs.Clock.Quantizer

/-!
# What the quantizer accumulates

Of the floating-point operations that a gap goes through, only those that
compute its cycles are rounded. From there on, all that the quantizer does to
them and to its error is exact (`Quantizer.Passes`), whatever the gap. A gap of
more than `exactGap` nanoseconds has at least `2 ^ 27` cycles, of which no bit
stands for less than `2 ^ -25`; and where they are too many to leave room for
the fraction, they have none.

* `Quantizer.Keeps.passes`: what one gap does;
* `Quantizer.Keeps.after`: the error after any number of gaps;
* `Quantizer.accumulates`: hence what a new quantizer keeps and emits.
-/

namespace PacketTrace

open Binary64

namespace Quantizer

/-- The next gap, in a quantizer whose error is `a` cycles. Nothing is rounded on
    the way to its count and to the new error, and the gap is rounded up just if
    that leaves the error below one. -/
structure Passes (q : Quantizer) (a : ℚ) (nanos : ℕ) : Prop where
  finite : (nanosToCycles nanos).isFinite = true
  up : (nanosToCycles nanos).ceil.Denotes ⌈cycles nanos⌉
  /-- The conversion of the count to 64 bits does not cut it off. -/
  up_lt : ⌈cycles nanos⌉ < 2 ^ 64
  excess : ((nanosToCycles nanos).ceil - nanosToCycles nanos).Denotes
    (⌈cycles nanos⌉ - cycles nanos)
  raised : (q.error + ((nanosToCycles nanos).ceil - nanosToCycles nanos)).Denotes
    (a + (⌈cycles nanos⌉ - cycles nanos))
  /-- One less is not negative, wherever it is computed. -/
  down : 1 ≤ a + (⌈cycles nanos⌉ - cycles nanos) → 0 ≤ ⌈cycles nanos⌉ - 1 ∧
    ((nanosToCycles nanos).ceil - ofNat 1).Denotes (⌈cycles nanos⌉ - 1) ∧
    (q.error + ((nanosToCycles nanos).ceil - nanosToCycles nanos) - ofNat 1).Denotes
      (a + (⌈cycles nanos⌉ - cycles nanos) - 1)
  count : if a + (⌈cycles nanos⌉ - cycles nanos) < 1 then
      ((q.quantize nanos).1 : ℤ) = ⌈cycles nanos⌉
    else
      ((q.quantize nanos).1 : ℤ) = ⌈cycles nanos⌉ - 1 ∧
        ((q.quantize nanos).1 : ℤ) = ⌊cycles nanos⌋

variable {q : Quantizer} {a : ℚ} {nanos : ℕ}

/-- Where the error would be a whole cycle, the cycles are rounded down to one
    less than up. -/
theorem Keeps.floor_eq (hq : q.Keeps a) (h : 1 ≤ a + (⌈cycles nanos⌉ - cycles nanos)) :
    ⌊cycles nanos⌋ = ⌈cycles nanos⌉ - 1 := by
  have hlt := hq.lt_one
  have hhigh := Int.ceil_lt_add_one (cycles nanos)
  rw [Int.floor_eq_iff]
  push_cast
  constructor <;> linarith

theorem Keeps.passes (hq : q.Keeps a) (h : nanos < 2 ^ 64) : q.Passes a nanos where
  finite := (below_nanosToCycles_of_lt h).finite
  up := by
    have hx := (below_nanosToCycles_of_lt h).denotes_toRat
    exact hx.ceil (storable_ceil hx (cycles_nonneg nanos))
  up_lt := by
    have hceil : ⌈cycles nanos⌉ ≤ 2 ^ 62 :=
      Int.ceil_le.2 (by exact_mod_cast (below_nanosToCycles_of_lt h).le)
    omega
  excess := denotes_ceil_sub (below_nanosToCycles_of_lt h).finite
  raised := hq.denotes_add (below_nanosToCycles_of_lt h).finite
  down hmore := by
    obtain ⟨n, hn, hcount, hlowered⟩ :=
      hq.exists_denotes_sub_one (below_nanosToCycles_of_lt h).finite hmore
    have hcast : (⌈cycles nanos⌉ : ℚ) - 1 = n := by
      rw [← hn]
      push_cast
      ring
    rw [hcast]
    exact ⟨by omega, hcount, hlowered⟩
  count := by
    -- The error stays in its bounds, which leaves no choice.
    obtain ⟨hcases, hkeeps⟩ := hq.quantize h
    have hnonneg := hkeeps.nonneg
    have hlt := hkeeps.lt_one
    generalize (q.quantize nanos).1 = n at *
    split
    next hless =>
      refine hcases.resolve_right fun hdown => ?_
      have hcast : (n : ℚ) + 1 = ⌈cycles nanos⌉ := by exact_mod_cast hdown
      linarith
    next hmore =>
      have hdown : (n : ℤ) = ⌈cycles nanos⌉ - 1 := by
        refine eq_sub_of_add_eq (hcases.resolve_left fun hup => hmore ?_)
        have hcast : (n : ℚ) = ⌈cycles nanos⌉ := by exact_mod_cast hup
        linarith
      exact ⟨hdown, hdown.trans (hq.floor_eq (not_lt.1 hmore)).symm⟩

/-- The error grows by the cycles that are emitted, less those that are
    computed. -/
theorem Keeps.after (hq : q.Keeps a) {gaps : List ℕ} (h : ∀ n ∈ gaps, n < 2 ^ 64) :
    (q.after gaps).Keeps (a + ((q.run gaps).sum - (gaps.map cycles).sum)) := by
  induction gaps generalizing q a with
  | nil => simpa [Quantizer.after, run] using hq
  | cons nanos gaps ih =>
    rw [List.forall_mem_cons] at h
    have hrest := ih (hq.quantize h.1).2 h.2
    rw [run, List.sum_cons, List.map_cons, List.sum_cons, Nat.cast_add]
    have hsum : a + ((q.quantize nanos).1 + (run (q.quantize nanos).2 gaps).sum -
        (cycles nanos + (gaps.map cycles).sum)) = a + (q.quantize nanos).1 - cycles nanos +
          ((run (q.quantize nanos).2 gaps).sum - (gaps.map cycles).sum) := by ring
    rw [hsum]
    exact hrest

/-- Whatever gaps of 64 bits a new quantizer has been given, its error is at least
    zero and less than one, a multiple of `2 ^ -25`, and as many cycles as it has
    emitted beyond those that were computed; and the next gap passes without
    rounding. Gaps of up to `exactGap` nanoseconds have the cycles that are
    computed for them, so that those emitted are the exact ones, rounded up
    once. -/
theorem accumulates {gaps : List ℕ} (h : ∀ n ∈ gaps, n < 2 ^ 64) :
    (({} : Quantizer).after gaps).Keeps
        ((({} : Quantizer).run gaps).sum - (gaps.map cycles).sum) ∧
      (∀ nanos < 2 ^ 64, (({} : Quantizer).after gaps).Passes
        ((({} : Quantizer).run gaps).sum - (gaps.map cycles).sum) nanos) ∧
      (∀ nanos ≤ 922337203, (nanosToCycles nanos).Denotes (5 * nanos / 32)) ∧
      ((∀ n ∈ gaps, n ≤ 922337203) →
        ((({} : Quantizer).run gaps).sum : ℤ) = ⌈(5 * gaps.sum / 32 : ℚ)⌉) := by
  have hkeeps := keeps_zero.after h
  rw [zero_add] at hkeeps
  refine ⟨hkeeps, fun nanos hnanos => hkeeps.passes hnanos,
    fun nanos hnanos => denotes_nanosToCycles_of_le hnanos, fun hshort => ?_⟩
  have hsum : (gaps.map cycles).sum = 5 * gaps.sum / 32 := by
    rw [sum_map_cycles, sum_map_deviation_of_le hshort, exactCycles, add_zero]
  have hnonneg := hkeeps.nonneg
  have hlt := hkeeps.lt_one
  rw [eq_comm, Int.ceil_eq_iff, Int.cast_natCast, ← hsum]
  constructor <;> linarith

/-- The last of these gaps has more nanoseconds than 53 bits can hold, and the
    first of them leaves the error at three quarters of a cycle. -/
theorem accumulates_of_longGap :
    ({} : Quantizer).run [1000, 922337207, 2 ^ 64 - 1] = [157, 144115188, 2882303761517117440] ∧
      (({} : Quantizer).after [1000, 922337207, 2 ^ 64 - 1]).Keeps
        ((({} : Quantizer).run [1000, 922337207, 2 ^ 64 - 1]).sum -
          ([1000, 922337207, 2 ^ 64 - 1].map cycles).sum) ∧
      (({} : Quantizer).after [1000]).Passes
        ((({} : Quantizer).run [1000]).sum - ([1000].map cycles).sum) 922337207 ∧
      ((({} : Quantizer).run [1000, 922337203, 1000]).sum : ℤ) =
        ⌈(5 * ([1000, 922337203, 1000] : List ℕ).sum / 32 : ℚ)⌉ :=
  ⟨by decide +kernel, (accumulates (by decide)).1,
    (@accumulates [1000] (by decide)).2.1 922337207 (by decide),
    (@accumulates [1000, 922337203, 1000] (by decide)).2.2.2 (by decide)⟩

end Quantizer

end PacketTrace
