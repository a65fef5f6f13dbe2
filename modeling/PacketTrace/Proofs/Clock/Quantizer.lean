import PacketTrace.Proofs.Clock.Cycles

/-!
# The error of the quantizer

The error that a quantizer keeps is the number of cycles that it has emitted
beyond the computed ones (`Quantizer.Keeps`). It is a multiple of `2 ^ -25`
below one, so that none of its updates is rounded, and every gap moves it by
what the gap was rounded up or down (`Quantizer.quantize_of_finite`). After any
number of gaps the emitted cycles are therefore the computed ones, rounded up
once (`Quantizer.sum_take_run`). Only a gap whose computed cycles are whole
leaves the error as it was (`Quantizer.IsExact.quantize_snd_eq_iff`).
-/

namespace PacketTrace

open Binary64

namespace Quantizer

/-- The error is `a` cycles: less than a whole one, and on the grid of the
    computed cycles. -/
structure Keeps (q : Quantizer) (a : ℚ) : Prop where
  denotes : q.error.Denotes a
  nonneg : 0 ≤ a
  lt_one : a < 1
  grid : OnGrid a

/-- A new quantizer has no error. -/
theorem keeps_zero : ({} : Quantizer).Keeps 0 :=
  ⟨denotes_zero false, le_rfl, one_pos, onGrid_intCast 0⟩

theorem storable_intCast {m : ℤ} (h : |m| < 2 ^ 53) : Storable m := by
  simpa using storable_div_two_pow 0 h (by omega)

theorem denotes_one : (ofNat 1).Denotes 1 := by
  simpa using denotes_ofNat (n := 1) (by norm_num)

/-! ## One gap -/

variable {q : Quantizer} {a : ℚ} {nanos : ℕ}

/-- Cycles that are no whole number are few enough for their exponent to leave
    room for a fraction. -/
theorem lt_of_ne_ceil {x : Binary64} {c : ℚ} (hx : x.Denotes c) (h : c ≠ ⌈c⌉) : c < 2 ^ 52 := by
  by_contra hnot
  obtain ⟨m, hm⟩ := hx.exists_eq_div (show 0 + 52 = 52 by rfl) (not_lt.1 hnot)
  have hwhole : c = m := by simpa using hm
  exact h (by rw [hwhole, Int.ceil_natCast, Int.cast_natCast])

theorem storable_ceil {x : Binary64} {c : ℚ} (hx : x.Denotes c) (hc : 0 ≤ c) :
    Storable ⌈c⌉ := by
  by_cases h : c = ⌈c⌉
  · exact ⟨x, by rwa [← h]⟩
  · have hle : ⌈c⌉ ≤ 2 ^ 52 := Int.ceil_le.2 (by exact_mod_cast (lt_of_ne_ceil hx h).le)
    have hge : 0 ≤ ⌈c⌉ := Int.ceil_nonneg hc
    exact storable_intCast (by rw [abs_of_nonneg hge]; omega)

/-- Cycles that are no whole number leave a whole number below them. -/
theorem exists_succ_eq_ceil {x : Binary64} {c : ℚ} (hx : x.Denotes c) (hc : 0 ≤ c)
    (h : c ≠ ⌈c⌉) : ∃ n : ℕ, n < 2 ^ 53 ∧ (n : ℤ) + 1 = ⌈c⌉ := by
  have hpos : (0 : ℚ) < ⌈c⌉ := lt_of_le_of_lt hc (lt_of_le_of_ne (Int.le_ceil c) h)
  have hpos' : 0 < ⌈c⌉ := by exact_mod_cast hpos
  have hle : ⌈c⌉ ≤ 2 ^ 52 := Int.ceil_le.2 (by exact_mod_cast (lt_of_ne_ceil hx h).le)
  obtain ⟨n, hn⟩ := Int.eq_ofNat_of_zero_le (show 0 ≤ ⌈c⌉ - 1 by omega)
  exact ⟨n, by omega, by omega⟩

/-- What rounding up adds to a gap with computed cycles. -/
theorem denotes_ceil_sub (h : (nanosToCycles nanos).isFinite = true) :
    ((nanosToCycles nanos).ceil - nanosToCycles nanos).Denotes (⌈cycles nanos⌉ - cycles nanos) := by
  have hx : (nanosToCycles nanos).Denotes (cycles nanos) := ⟨h, rfl⟩
  have hup := hx.ceil (storable_ceil hx (cycles_nonneg nanos))
  have hlow := Int.le_ceil (cycles nanos)
  have hhigh := Int.ceil_lt_add_one (cycles nanos)
  have hgrid := (onGrid_intCast ⌈cycles nanos⌉).sub (onGrid_cycles h)
  exact hup.sub hx (hgrid.storable (by rw [abs_lt]; constructor <;> linarith))

/-- Rounding up leaves the error on the grid. -/
theorem Keeps.grid_raised (hq : q.Keeps a) (h : (nanosToCycles nanos).isFinite = true) :
    OnGrid (a + (⌈cycles nanos⌉ - cycles nanos)) :=
  hq.grid.add ((onGrid_intCast _).sub (onGrid_cycles h))

/-- The error, if a gap with computed cycles is rounded up. -/
theorem Keeps.denotes_add (hq : q.Keeps a) (h : (nanosToCycles nanos).isFinite = true) :
    (q.error + ((nanosToCycles nanos).ceil - nanosToCycles nanos)).Denotes
      (a + (⌈cycles nanos⌉ - cycles nanos)) := by
  have hnonneg := hq.nonneg
  have hlt := hq.lt_one
  have hlow := Int.le_ceil (cycles nanos)
  have hhigh := Int.ceil_lt_add_one (cycles nanos)
  exact hq.denotes.add (denotes_ceil_sub h)
    ((hq.grid_raised h).storable (by rw [abs_lt]; constructor <;> linarith))

/-- The count and the error, if a gap with computed cycles is rounded down. -/
theorem Keeps.exists_denotes_sub_one (hq : q.Keeps a) (h : (nanosToCycles nanos).isFinite = true)
    (hmore : 1 ≤ a + (⌈cycles nanos⌉ - cycles nanos)) :
    ∃ n : ℕ, (n : ℤ) + 1 = ⌈cycles nanos⌉ ∧
      ((nanosToCycles nanos).ceil - ofNat 1).Denotes n ∧
      (q.error + ((nanosToCycles nanos).ceil - nanosToCycles nanos) - ofNat 1).Denotes
        (a + (⌈cycles nanos⌉ - cycles nanos) - 1) := by
  have hx : (nanosToCycles nanos).Denotes (cycles nanos) := ⟨h, rfl⟩
  have hc := cycles_nonneg nanos
  have hlt := hq.lt_one
  have hhigh := Int.ceil_lt_add_one (cycles nanos)
  -- Whole cycles do not raise the error, so there is one to take away.
  have hne : cycles nanos ≠ ⌈cycles nanos⌉ := fun heq => by linarith
  obtain ⟨n, hn53, hn⟩ := exists_succ_eq_ceil hx hc hne
  have hcast : (⌈cycles nanos⌉ : ℚ) - 1 = n := by
    rw [← hn]
    push_cast
    ring
  have hdown : Storable (⌈cycles nanos⌉ - 1 : ℚ) := by
    rw [hcast]
    exact storable_natCast hn53
  have hcount := (hx.ceil (storable_ceil hx hc)).sub denotes_one hdown
  rw [hcast] at hcount
  have hgrid := (hq.grid_raised h).sub (onGrid_intCast 1)
  rw [Int.cast_one] at hgrid
  have hstorable := hgrid.storable (by rw [abs_lt]; constructor <;> linarith)
  exact ⟨n, hn, hcount, (hq.denotes_add h).sub denotes_one hstorable⟩

/-- A gap with computed cycles is rounded up, or down if rounding up would make
    the error a whole cycle; either way the error moves by as much. -/
theorem quantize_of_finite (hq : q.Keeps a) (h : (nanosToCycles nanos).isFinite = true) :
    ∃ n : ℕ, ((n : ℤ) = ⌈cycles nanos⌉ ∨ (n : ℤ) + 1 = ⌈cycles nanos⌉) ∧
      (q.quantize nanos).1 = min n (2 ^ 64 - 1) ∧
      (q.quantize nanos).2.Keeps (a + n - cycles nanos) := by
  have hx : (nanosToCycles nanos).Denotes (cycles nanos) := ⟨h, rfl⟩
  have hc := cycles_nonneg nanos
  have hlow := Int.le_ceil (cycles nanos)
  have hhigh := Int.ceil_lt_add_one (cycles nanos)
  have hnonneg := hq.nonneg
  have hlt := hq.lt_one
  have hgrid := hq.grid_raised h
  have herror := hq.denotes_add h
  simp only [quantize]
  split
  next hless =>
    have hup := hx.ceil (storable_ceil hx hc)
    rw [herror.lt_iff denotes_one] at hless
    obtain ⟨n, hn⟩ := Int.eq_ofNat_of_zero_le (Int.ceil_nonneg hc)
    rw [hn, Int.cast_natCast] at hup herror hless hgrid hlow
    refine ⟨n, .inl hn.symm, ?_, ?_⟩
    · rw [hup.toCount (Nat.cast_nonneg n), Nat.floor_natCast]
    · rw [add_sub_assoc]
      exact ⟨herror, by linarith, hless, hgrid⟩
  next hmore =>
    rw [herror.lt_iff denotes_one, not_lt] at hmore
    obtain ⟨n, hn, hcount, hlowered⟩ := hq.exists_denotes_sub_one h hmore
    refine ⟨n, .inr hn, ?_, ?_⟩
    · rw [hcount.toCount (Nat.cast_nonneg n), Nat.floor_natCast]
    · have hgrid' := hgrid.sub (onGrid_intCast 1)
      rw [Int.cast_one] at hgrid'
      have hmoved : a + n - cycles nanos = a + (⌈cycles nanos⌉ - cycles nanos) - 1 := by
        rw [← hn]
        push_cast
        ring
      rw [hmoved]
      exact ⟨hlowered, by linarith, by linarith, hgrid'⟩

/-- A gap with infinitely many computed cycles is given as many as there can
    be. -/
theorem quantize_of_not_finite (h : (nanosToCycles nanos).isFinite = false) :
    (q.quantize nanos).1 = 2 ^ 64 - 1 := by
  have habove := above_zero_nanosToCycles nanos
  rw [quantize]
  generalize nanosToCycles nanos = x at *
  have hsub := habove.sub_of_not_finite h denotes_one
  have hcount := habove.toCount_of_not_finite h
  simp only [ceil_of_not_finite h]
  split
  · exact hcount
  · simpa only [hsub] using hcount

/-- A count that a record can hold is the cycles of the gap, rounded up or
    down, and moves the error by as much. -/
theorem quantize_of_lt (hq : q.Keeps a) (h : (q.quantize nanos).1 < 2 ^ 32) :
    ((q.quantize nanos).1 = ⌈cycles nanos⌉ ∨ ((q.quantize nanos).1 : ℤ) + 1 = ⌈cycles nanos⌉) ∧
      (q.quantize nanos).2.Keeps (a + (q.quantize nanos).1 - cycles nanos) := by
  cases hfinite : (nanosToCycles nanos).isFinite with
  | true =>
    obtain ⟨n, hn, hcount, hkeeps⟩ := quantize_of_finite hq hfinite
    have heq : (q.quantize nanos).1 = n := by omega
    rw [heq]
    exact ⟨hn, hkeeps⟩
  | false =>
    rw [quantize_of_not_finite hfinite] at h
    omega

/-- So is the count of any gap of 64 bits, which has fewer cycles than that. -/
theorem Keeps.quantize (hq : q.Keeps a) (h : nanos < 2 ^ 64) :
    ((q.quantize nanos).1 = ⌈cycles nanos⌉ ∨ ((q.quantize nanos).1 : ℤ) + 1 = ⌈cycles nanos⌉) ∧
      (q.quantize nanos).2.Keeps (a + (q.quantize nanos).1 - cycles nanos) := by
  have hbelow := below_nanosToCycles_of_lt h
  obtain ⟨n, hn, hcount, hkeeps⟩ := quantize_of_finite hq hbelow.finite
  have hceil : ⌈cycles nanos⌉ ≤ 2 ^ 62 := Int.ceil_le.2 (by exact_mod_cast hbelow.le)
  have heq : (q.quantize nanos).1 = n := by omega
  rw [heq]
  exact ⟨hn, hkeeps⟩

/-! ## Gaps that leave no trace -/

/-- The error is known by its value: it is kept, and it is not the negative
    zero. -/
structure IsExact (q : Quantizer) : Prop where
  positive : q.error.negative = false
  keeps : ∃ a, q.Keeps a

theorem isExact_new : ({} : Quantizer).IsExact := ⟨rfl, 0, keeps_zero⟩

theorem quantize_positive (hq : q.Keeps a) (hpositive : q.error.negative = false)
    (h : (nanosToCycles nanos).isFinite = true) :
    (q.quantize nanos).2.error.negative = false := by
  have hnonneg := hq.nonneg
  have hlow := Int.le_ceil (cycles nanos)
  have herror := hq.denotes_add h
  have hraised := hq.denotes.add_positive (denotes_ceil_sub h) hpositive (by linarith)
  simp only [quantize]
  split
  · exact hraised
  next hmore =>
    rw [herror.lt_iff denotes_one, not_lt] at hmore
    exact herror.add_positive denotes_one.neg hraised (by linarith)

theorem IsExact.quantize (hq : q.IsExact) (h : nanos < 2 ^ 64) : (q.quantize nanos).2.IsExact := by
  obtain ⟨a, ha⟩ := hq.keeps
  have hfinite := (below_nanosToCycles_of_lt h).finite
  exact ⟨quantize_positive ha hq.positive hfinite, _, (ha.quantize h).2⟩

/-- A gap leaves the error as it is just if its computed cycles are the whole
    number that is emitted. -/
theorem IsExact.quantize_snd_eq_iff (hq : q.IsExact) (h : nanos < 2 ^ 64) :
    (q.quantize nanos).2 = q ↔ ((q.quantize nanos).1 : ℚ) = cycles nanos := by
  obtain ⟨a, ha⟩ := hq.keeps
  obtain ⟨-, hkeeps⟩ := ha.quantize h
  constructor
  · intro hsame
    have hvalue := hkeeps.denotes.toRat_eq
    rw [hsame, ha.denotes.toRat_eq] at hvalue
    linarith
  · intro hwhole
    have hpositive := (hq.quantize h).positive
    rw [hwhole, add_sub_cancel_right] at hkeeps
    have herror := hkeeps.denotes.ext ha.denotes (hpositive.trans hq.positive.symm)
    exact congrArg Quantizer.mk herror

/-! ## Many gaps -/

/-- The cycles for gaps that follow one another. -/
def run (q : Quantizer) : List ℕ → List ℕ
  | [] => []
  | nanos :: gaps => (q.quantize nanos).1 :: run (q.quantize nanos).2 gaps

@[simp]
theorem length_run (q : Quantizer) (gaps : List ℕ) : (q.run gaps).length = gaps.length := by
  induction gaps generalizing q with
  | nil => rfl
  | cons nanos gaps ih => simp [run, ih]

/-- The quantizer after gaps that follow one another. -/
def after (q : Quantizer) (gaps : List ℕ) : Quantizer :=
  gaps.foldl (fun q nanos => (q.quantize nanos).2) q

theorem run_append (q : Quantizer) (gaps more : List ℕ) :
    q.run (gaps ++ more) = q.run gaps ++ (q.after gaps).run more := by
  induction gaps generalizing q with
  | nil => rfl
  | cons nanos gaps ih => simp [run, after, ih]

theorem after_append (q : Quantizer) (gaps more : List ℕ) :
    q.after (gaps ++ more) = (q.after gaps).after more := List.foldl_append

/-- After some of the gaps, the emitted cycles exceed the computed ones by the
    error that has come about. -/
theorem sum_take_run_eq_add (hq : q.Keeps a) (gaps : List ℕ) (h : ∀ n ∈ q.run gaps, n < 2 ^ 32)
    (k : ℕ) : ∃ b : ℚ, 0 ≤ b ∧ b < 1 ∧
      (((q.run gaps).take k).sum : ℚ) = ((gaps.take k).map cycles).sum + b - a := by
  induction gaps generalizing q a k with
  | nil => exact ⟨a, hq.nonneg, hq.lt_one, by simp [run]⟩
  | cons nanos gaps ih =>
    cases k with
    | zero => exact ⟨a, hq.nonneg, hq.lt_one, by simp⟩
    | succ k =>
      rw [run, List.forall_mem_cons] at h
      obtain ⟨-, hkeeps⟩ := quantize_of_lt hq h.1
      obtain ⟨b, hb, hb', hsum⟩ := ih hkeeps h.2 k
      refine ⟨b, hb, hb', ?_⟩
      rw [run, List.take_succ_cons, List.take_succ_cons, List.map_cons, List.sum_cons,
        List.sum_cons, Nat.cast_add, hsum]
      ring

/-- Each gap is rounded up or down. -/
theorem forall₂_run (hq : q.Keeps a) (gaps : List ℕ) (h : ∀ n ∈ q.run gaps, n < 2 ^ 32) :
    List.Forall₂ (fun nanos n : ℕ => (n : ℤ) = ⌈cycles nanos⌉ ∨ (n : ℤ) + 1 = ⌈cycles nanos⌉) gaps
      (q.run gaps) := by
  induction gaps generalizing q a with
  | nil => exact .nil
  | cons nanos gaps ih =>
    rw [run, List.forall_mem_cons] at h
    obtain ⟨hcases, hkeeps⟩ := quantize_of_lt hq h.1
    exact .cons hcases (ih hkeeps h.2)

/-- The emitted cycles are the computed ones, rounded up once. -/
theorem sum_take_run {gaps : List ℕ} (h : ∀ n ∈ ({} : Quantizer).run gaps, n < 2 ^ 32) (k : ℕ) :
    (((({} : Quantizer).run gaps).take k).sum : ℤ) = ⌈((gaps.take k).map cycles).sum⌉ := by
  obtain ⟨b, hb, hb', hsum⟩ := sum_take_run_eq_add keeps_zero gaps h k
  rw [eq_comm, Int.ceil_eq_iff, Int.cast_natCast, hsum]
  constructor <;> linarith

end Quantizer

end PacketTrace
