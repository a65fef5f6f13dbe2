import PacketTrace.Proofs.Clock.Quantizer

/-!
# From cycles to nanoseconds and back

A captured gap has up to `2 ^ 28` cycles. Its nanoseconds are cut off, which
takes at most four fifths of a nanosecond, an eighth of a cycle, and whatever
the deviation of the computed cycles, these are no more than the captured ones
and no fewer by more than that eighth (`cycles_cyclesToNanos`). Rounded up they
are the captured cycles again.

* `Quantizer.run_map_cyclesToNanos`: so every gap is emitted as it was captured
  or with one cycle less, and the sums fall behind by an eighth of a cycle for
  each gap at most.
-/

namespace PacketTrace

theorem cycles_cyclesToNanos {d : ℕ} (h : d < 2 ^ 28) :
    (d : ℚ) - 1 / 8 ≤ cycles (cyclesToNanos d) ∧ cycles (cyclesToNanos d) ≤ d := by
  rw [cyclesToNanos_eq (by omega)]
  -- What is cut off, in fifths of a nanosecond.
  obtain ⟨nanos, r, hnanos, hr, hlt⟩ : ∃ nanos r, 32 * d / 5 = nanos ∧ 32 * d = 5 * nanos + r ∧
      r < 5 := ⟨32 * d / 5, 32 * d % 5, rfl, by omega, by omega⟩
  rw [hnanos, cycles_eq_add, exactCycles]
  have hcast : 32 * (d : ℚ) = 5 * nanos + r := by exact_mod_cast hr
  rcases Nat.mod_two_eq_zero_or_one nanos with heven | hodd
  · have hr' : (r : ℚ) ≤ 4 := by exact_mod_cast Nat.le_of_lt_succ hlt
    have hr0 : (0 : ℚ) ≤ r := Nat.cast_nonneg r
    rw [deviation_of_even (by rw [exactGap]; omega) heven]
    constructor <;> linarith
  · -- An odd gap may deviate, but cuts off one fifth or three.
    have hr' : (r : ℚ) ≤ 3 := by exact_mod_cast (show r ≤ 3 by omega)
    have hr0 : (1 : ℚ) ≤ r := by exact_mod_cast (show 1 ≤ r by omega)
    have hshort : 5 * nanos < 2 ^ 33 := by omega
    have hdeviation := abs_le.1 (abs_deviation_le hshort)
    norm_num at hdeviation
    constructor <;> linarith

theorem ceil_cycles_cyclesToNanos {d : ℕ} (h : d < 2 ^ 28) :
    ⌈cycles (cyclesToNanos d)⌉ = (d : ℤ) := by
  obtain ⟨hlow, hhigh⟩ := cycles_cyclesToNanos h
  rw [Int.ceil_eq_iff, Int.cast_natCast]
  constructor <;> linarith

theorem sum_cycles_cyclesToNanos {gaps : List ℕ} (h : ∀ d ∈ gaps, d < 2 ^ 28) :
    (gaps.sum : ℚ) - gaps.length / 8 ≤ ((gaps.map cyclesToNanos).map cycles).sum ∧
      ((gaps.map cyclesToNanos).map cycles).sum ≤ gaps.sum := by
  induction gaps with
  | nil => simp
  | cons d gaps ih =>
    rw [List.forall_mem_cons] at h
    obtain ⟨hlow, hhigh⟩ := cycles_cyclesToNanos h.1
    obtain ⟨hlows, hhighs⟩ := ih h.2
    rw [List.map_cons, List.map_cons, List.sum_cons, List.sum_cons, List.length_cons, Nat.cast_add,
      Nat.cast_succ]
    generalize cycles (cyclesToNanos d) = c at *
    generalize ((gaps.map cyclesToNanos).map cycles).sum = total at *
    constructor <;> linarith

namespace Quantizer

/-- A captured gap is emitted with no more cycles than it had. -/
theorem quantize_cyclesToNanos_le {q : Quantizer} {a : ℚ} {d : ℕ} (hq : q.Keeps a)
    (h : d < 2 ^ 28) :
    (q.quantize (cyclesToNanos d)).1 ≤ d ∧ ∃ b, (q.quantize (cyclesToNanos d)).2.Keeps b := by
  have hlt : cyclesToNanos d < 2 ^ 64 := Nat.mod_lt _ (Nat.two_pow_pos 64)
  obtain ⟨hcases, hkeeps⟩ := hq.quantize hlt
  refine ⟨?_, _, hkeeps⟩
  rw [ceil_cycles_cyclesToNanos h] at hcases
  omega

/-- So are any number of them, which a tag can hold. -/
theorem run_map_cyclesToNanos_lt {q : Quantizer} {a : ℚ} (hq : q.Keeps a) {gaps : List ℕ}
    (hgaps : ∀ d ∈ gaps, d < 2 ^ 28) : ∀ n ∈ q.run (gaps.map cyclesToNanos), n < 2 ^ 28 := by
  induction gaps generalizing q a with
  | nil =>
    intro n hn
    cases hn
  | cons d gaps ih =>
    rw [List.forall_mem_cons] at hgaps
    obtain ⟨hle, b, hkeeps⟩ := quantize_cyclesToNanos_le hq hgaps.1
    rw [List.map_cons, run, List.forall_mem_cons]
    exact ⟨Nat.lt_of_le_of_lt hle hgaps.1, ih hkeeps hgaps.2⟩

/-- Captured gaps, emitted again after they were cut off to nanoseconds. -/
theorem run_map_cyclesToNanos {gaps : List ℕ} (hgaps : ∀ d ∈ gaps, d < 2 ^ 28)
    (h : ∀ n ∈ ({} : Quantizer).run (gaps.map cyclesToNanos), n < 2 ^ 32) :
    List.Forall₂ (fun d n => n = d ∨ n + 1 = d) gaps
        (({} : Quantizer).run (gaps.map cyclesToNanos)) ∧
      ∀ k, 8 * (gaps.take k).sum ≤
          8 * ((({} : Quantizer).run (gaps.map cyclesToNanos)).take k).sum + k ∧
        ((({} : Quantizer).run (gaps.map cyclesToNanos)).take k).sum ≤ (gaps.take k).sum := by
  constructor
  · have hrun := forall₂_run keeps_zero _ h
    rw [List.forall₂_map_left_iff] at hrun
    refine ((List.forall₂_and_left _ _).2 ⟨hgaps, hrun⟩).imp fun d n ⟨hd, hn⟩ => ?_
    rw [ceil_cycles_cyclesToNanos hd] at hn
    omega
  · intro k
    have hsum := sum_take_run h k
    rw [← List.map_take] at hsum
    obtain ⟨hlow, hhigh⟩ := sum_cycles_cyclesToNanos
      fun d (hd : d ∈ gaps.take k) => hgaps d (List.mem_of_mem_take hd)
    have hlength : ((gaps.take k).length : ℚ) ≤ k := by
      exact_mod_cast List.length_take_le k gaps
    generalize (((gaps.take k).map cyclesToNanos).map cycles).sum = total at *
    generalize ((({} : Quantizer).run (gaps.map cyclesToNanos)).take k).sum = sum at *
    generalize (gaps.take k).sum = captured at *
    have hceil : total ≤ (sum : ℤ) := by
      rw [hsum]
      exact Int.le_ceil total
    have hle : (sum : ℤ) ≤ captured := by
      rw [hsum, Int.ceil_le, Int.cast_natCast]
      exact hhigh
    rw [Int.cast_natCast] at hceil
    have hbound : 8 * (captured : ℚ) ≤ 8 * sum + k := by linarith
    exact ⟨by exact_mod_cast hbound, by exact_mod_cast hle⟩

end Quantizer

end PacketTrace
