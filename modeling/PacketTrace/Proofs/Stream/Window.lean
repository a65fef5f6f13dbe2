import PacketTrace.Proofs.Bytes.Decoder
import PacketTrace.Proofs.Stream.Delivery
import PacketTrace.Stream.Window

/-!
# What a window fetches

What is ahead of a window is what is unread in it, followed by what its source
is to deliver (`Window.Ahead`). A fetch with a stable decoder comes to what the
decoder makes of all that is ahead at once, in whatever pieces the source
delivers it, unless the window is too small (`Fetches`,
`Window.fetches_fetch`). Nor do the pieces decide between the failures, as long
as the source has not been found at its end before (`Window.outcome`,
`Window.fetch_eq_outcome`). A value that asks for more than fits is known not to
fit from any part of it that says so (`Window.outcome_of_large`).
-/

namespace PacketTrace

variable {σ α : Type} [ByteSource σ]

/-- The bytes that are ahead of a window: those in it, and then those that its
    source delivers. -/
def Window.Ahead (w : Window) (s : σ) (rest : Bytes) : Prop :=
  ∃ later, rest = w.unread ++ later ∧ Delivers later s ∧ (w.exhausted = true → later = []) ∧
    w.unread.length ≤ w.capacity

/-- What may come of fetching from a window of some capacity with `rest` ahead
    of it. -/
inductive Fetches (decoder : Decoder α) (capacity : ℕ) (rest : Bytes) :
    Fetched α → Window → σ → Prop where
  /-- What is decoded fits in the window, and what is after it is ahead. -/
  | value {a : α} {rest' : Bytes} {w : Window} {s : σ} : decoder rest = .value a rest' →
      rest.length ≤ rest'.length + capacity → w.capacity = capacity → w.Ahead s rest' →
      Fetches decoder capacity rest (.value a) w s
  | ended {w : Window} {s : σ} : rest = [] → Fetches decoder capacity rest .ended w s
  | refused {failure : Failure} {w : Window} {s : σ} : decoder rest = .refused failure →
      Fetches decoder capacity rest (.failed failure) w s
  | truncated {missing : ℕ} {w : Window} {s : σ} : decoder rest = .short missing → rest ≠ [] →
      Fetches decoder capacity rest (.failed .truncatedInput) w s
  /-- Some of what is ahead, with what it lacks, is longer than the window. -/
  | tooSmall {unread more : Bytes} {missing : ℕ} {w : Window} {s : σ} : rest = unread ++ more →
      decoder unread = .short missing → capacity < unread.length + missing →
      Fetches decoder capacity rest (.failed .windowTooSmall) w s

namespace Window

variable {decoder : Decoder α} {w : Window} {s : σ} {rest : Bytes}

/-- A window is opened on what its source delivers. -/
theorem ahead_of_delivers (h : Delivers rest s) (capacity : ℕ) :
    ({ capacity } : Window).Ahead s rest :=
  ⟨rest, rfl, h, by simp, Nat.zero_le _⟩

theorem Ahead.length_le (h : w.Ahead s rest) :
    rest.length ≤ w.unread.length + ByteSource.bound s := by
  obtain ⟨later, rfl, hlater, -⟩ := h
  rw [List.length_append]
  exact Nat.add_le_add_left hlater.length_le _

/-- A fetch comes to what the decoder makes of all that is ahead. -/
theorem fetches_fetch (hd : decoder.Stable) (h : w.Ahead s rest) :
    Fetches decoder w.capacity rest (w.fetch decoder s).1 (w.fetch decoder s).2.1
      (w.fetch decoder s).2.2 := by
  obtain ⟨later, rfl, hlater, hexhausted, hcapacity⟩ := h
  fun_induction fetch decoder w s generalizing later with
  | case1 w s hover =>
    rw [Bool.and_eq_true, List.isEmpty_iff] at hover
    exact .ended (by rw [hover.1, hexhausted hover.2, List.append_nil])
  | case2 w s _ a unread hvalue =>
    have hsuffix := (hd.suffix hvalue).length_le
    refine .value (hd.value hvalue later) ?_ rfl ⟨later, rfl, hlater, hexhausted, ?_⟩
    · rw [List.length_append, List.length_append]
      omega
    · exact Nat.le_trans hsuffix hcapacity
  | case3 w s _ failure hrefused => exact .refused (hd.refused hrefused later)
  | case4 w s hmore missing hshort hend =>
    -- The source is at its end: what is unread is all that is ahead.
    rw [hexhausted hend, List.append_nil]
    refine .truncated hshort fun hnil => hmore ?_
    rw [hnil, hend]
    rfl
  | case5 w s _ missing hshort _ hlarge => exact .tooSmall rfl hshort hlarge
  | case6 w s _ missing hshort _ hroom cause s' hread =>
    have hpos := hd.short_pos hshort
    obtain ⟨bytes, later', s'', hread', -⟩ := hlater.read (n := w.room) (by rw [room]; omega)
    rw [hread] at hread'
    cases hread'
  | case7 w s _ missing hshort _ hroom bytes s' hread ih =>
    have hpos := hd.short_pos hshort
    obtain ⟨bytes', later', s'', hread', rfl, hend, hlater'⟩ :=
      hlater.read (n := w.room) (by rw [room]; omega)
    rw [hread] at hread'
    cases hread'
    have hlength := ByteSource.length_read_le hread
    rw [room] at hlength
    rw [← List.append_assoc]
    refine ih later' hlater' (fun hempty => ?_) ?_
    · have hnil := hend (List.isEmpty_iff.1 hempty)
      exact (List.append_eq_nil_iff.1 hnil).2
    · change (w.unread ++ bytes).length ≤ w.capacity
      rw [List.length_append]
      omega

/-- A fetch leaves a window its capacity. -/
theorem capacity_fetch (decoder : Decoder α) (w : Window) (s : σ) :
    (w.fetch decoder s).2.1.capacity = w.capacity := by
  fun_induction fetch decoder w s with
  | case7 w s _ missing hshort _ hroom bytes s' hread ih => exact ih
  | _ => rfl

/-! ## Where it comes from -/

/-- A value is what the decoder has made of some bytes. -/
theorem exists_of_fetch_eq_value {a : α} (h : (w.fetch decoder s).1 = .value a) :
    ∃ unread rest, decoder unread = .value a rest := by
  fun_induction fetch decoder w s with
  | case2 w s _ a' rest hvalue =>
    cases h
    exact ⟨_, rest, hvalue⟩
  | case7 w s _ missing hshort _ hroom bytes s' hread ih => exact ih h
  | _ => cases h

/-- A failure is one of those that a window has, or the decoder's. -/
theorem exists_of_fetch_eq_failed {failure : Failure}
    (h : (w.fetch decoder s).1 = .failed failure) :
    failure = .truncatedInput ∨ failure = .windowTooSmall ∨
      ∃ unread, decoder unread = .refused failure := by
  fun_induction fetch decoder w s with
  | case3 w s _ failure' hrefused =>
    cases h
    exact .inr (.inr ⟨_, hrefused⟩)
  | case4 w s _ missing _ _ =>
    cases h
    exact .inl rfl
  | case5 w s _ missing _ _ _ =>
    cases h
    exact .inr (.inl rfl)
  | case7 w s _ missing hshort _ hroom bytes s' hread ih => exact ih h
  | _ => cases h

/-! ## A new window -/

section New

variable {capacity missing : ℕ} {s' : σ}

theorem not_over_new (capacity : ℕ) :
    ¬ (({ capacity } : Window).unread.isEmpty && ({ capacity } : Window).exhausted) = true := by
  simp

/-- A window without room for what a value lacks at first is not read into. -/
theorem fetch_new_of_lt (hshort : decoder [] = .short missing) (hsmall : capacity < missing)
    (s : σ) : fetch decoder { capacity } s = (.failed .windowTooSmall, { capacity }, s) := by
  have hshort : decoder ({ capacity } : Window).unread = .short missing := hshort
  rw [fetch, if_neg (not_over_new capacity), hshort]
  exact (dif_neg Bool.false_ne_true).trans (if_pos (by simpa using hsmall))

variable (hshort : decoder [] = .short missing) (hroom : missing ≤ capacity)

include hshort hroom

/-- The first read fails. -/
theorem fetch_new_of_read_error {cause : DeviceFailure}
    (h : ByteSource.read capacity s = (.error cause, s')) :
    fetch decoder { capacity } s = (.interrupted cause, { capacity }, s') :=
  fetch_of_read_error (not_over_new capacity) hshort Bool.false_ne_true
    (by simpa using hroom) h

/-- The first read brings nothing. -/
theorem fetch_new_of_read_nil (h : ByteSource.read capacity s = (.ok [], s')) :
    fetch decoder { capacity } s = (.ended, { capacity, exhausted := true }, s') := by
  rw [fetch_of_read (not_over_new capacity) hshort Bool.false_ne_true (by simpa using hroom) h,
    fetch]
  exact if_pos rfl

end New

/-! ## Which of the failures comes first -/

/-- What a fetch comes to that has `rest` ahead of it, all of which the source
    still holds: a value that does not fit in the window is reported, whether
    it is there whole or cut off. -/
def outcome (decoder : Decoder α) (capacity : ℕ) (rest : Bytes) : Fetched α :=
  match decoder rest with
  | .value a rest' =>
    if rest.length ≤ rest'.length + capacity then .value a else .failed .windowTooSmall
  | .refused failure => .failed failure
  | .short missing =>
    if capacity < rest.length + missing then .failed .windowTooSmall
    else if rest = [] then .ended
    else .failed .truncatedInput

theorem outcome_of_value {capacity : ℕ} {a : α} {rest' : Bytes} (h : decoder rest = .value a rest')
    (hroom : rest.length ≤ rest'.length + capacity) : outcome decoder capacity rest = .value a := by
  rw [outcome, h]
  exact if_pos hroom

theorem exists_of_outcome_eq_value {capacity : ℕ} {a : α}
    (h : outcome decoder capacity rest = .value a) : ∃ rest', decoder rest = .value a rest' := by
  cases hdecoder : decoder rest with
  | value b rest' =>
    simp only [outcome, hdecoder] at h
    split at h <;> cases h
    exact ⟨rest', rfl⟩
  | refused failure =>
    simp only [outcome, hdecoder] at h
    cases h
  | short missing =>
    simp only [outcome, hdecoder] at h
    repeat' split at h
    all_goals cases h

theorem outcome_ne_interrupted (decoder : Decoder α) (capacity : ℕ) (rest : Bytes)
    (cause : DeviceFailure) : outcome decoder capacity rest ≠ .interrupted cause := by
  intro h
  rw [outcome] at h
  repeat' split at h
  all_goals cases h

theorem outcome_of_refused {capacity : ℕ} {failure : Failure}
    (h : decoder rest = .refused failure) : outcome decoder capacity rest = .failed failure := by
  rw [outcome, h]

theorem outcome_of_short {capacity missing : ℕ} (h : decoder rest = .short missing)
    (hroom : rest.length + missing ≤ capacity) :
    outcome decoder capacity rest = if rest = [] then .ended else .failed .truncatedInput := by
  rw [outcome, h]
  exact if_neg (Nat.not_lt.2 hroom)

/-- A value that lacks more than the window has room for does not fit, whatever
    comes after what there is of it. -/
theorem outcome_of_large {capacity : ℕ} (hd : decoder.Insists) {unread : Bytes} {missing : ℕ}
    (hpart : unread <+: rest) (hshort : decoder unread = .short missing)
    (hlarge : capacity < unread.length + missing)
    (hrefused : ∀ failure, decoder rest ≠ .refused failure) :
    outcome decoder capacity rest = .failed .windowTooSmall := by
  obtain ⟨more, rfl⟩ := hpart
  rw [outcome]
  cases hdecoder : decoder (unread ++ more) with
  | value a rest' =>
    have hvalue := hd.value_of_short hshort hdecoder
    exact if_neg (by omega)
  | refused failure => exact absurd hdecoder (hrefused failure)
  | short missing' =>
    have hshort' := hd.short_of_short hshort hdecoder
    exact if_pos (by omega)

/-- If the end of the source has been found, then with room for what is missing
    to the value that is cut off. -/
def IsSettled (decoder : Decoder α) (w : Window) : Prop :=
  w.exhausted = true → ∃ missing, decoder w.unread = .short missing ∧
    w.unread.length + missing ≤ w.capacity

theorem isSettled_of_open (h : w.exhausted = false) : w.IsSettled decoder := by
  intro hend
  rw [h] at hend
  cases hend

theorem IsSettled.open_of_value (h : w.IsSettled decoder) {a : α}
    (hvalue : decoder w.unread = .value a rest) : w.exhausted = false := by
  cases hend : w.exhausted with
  | false => rfl
  | true =>
    obtain ⟨missing, hshort, -⟩ := h hend
    rw [hshort] at hvalue
    cases hvalue

/-- A fetch comes to its outcome, if a value that lacks more than the window has
    room for is one that does not fit. After a value, the end of the source has
    not been found. -/
theorem fetch_eq_outcome (hd : decoder.Stable) (hsettled : w.IsSettled decoder)
    (h : w.Ahead s rest)
    (hlarge : ∀ {unread missing}, unread <+: rest → decoder unread = .short missing →
      w.capacity < unread.length + missing →
        outcome decoder w.capacity rest = .failed .windowTooSmall) :
    ∃ w' s', w.fetch decoder s = (outcome decoder w.capacity rest, w', s') ∧
      ∀ {a}, outcome decoder w.capacity rest = .value a →
        w'.exhausted = false ∧ w'.capacity = w.capacity ∧
          ∃ rest', decoder rest = .value a rest' ∧ w'.Ahead s' rest' := by
  obtain ⟨later, rfl, hlater, hexhausted, hcapacity⟩ := h
  fun_induction fetch decoder w s generalizing later with
  | case1 w s hover =>
    rw [Bool.and_eq_true, List.isEmpty_iff] at hover
    obtain ⟨missing, hshort, hroom⟩ := hsettled hover.2
    rw [hexhausted hover.2, List.append_nil, outcome_of_short hshort hroom, if_pos hover.1]
    exact ⟨w, s, rfl, nofun⟩
  | case2 w s _ a unread hvalue =>
    have hsuffix := (hd.suffix hvalue).length_le
    have hvalue' := hd.value hvalue later
    rw [outcome_of_value hvalue' (by rw [List.length_append, List.length_append]; omega)]
    refine ⟨_, s, rfl, ?_⟩
    rintro _ ⟨⟩
    exact ⟨hsettled.open_of_value hvalue, rfl, _, hvalue', later, rfl, hlater, hexhausted,
      Nat.le_trans hsuffix hcapacity⟩
  | case3 w s _ failure hrefused =>
    rw [outcome_of_refused (hd.refused hrefused later)]
    exact ⟨w, s, rfl, nofun⟩
  | case4 w s hmore missing hshort hend =>
    -- What is unread is all that is ahead, and there was room for what it lacks.
    obtain ⟨missing, hshort', hroom⟩ := hsettled hend
    have hne : w.unread ≠ [] := fun hnil => hmore (by rw [hnil, hend]; rfl)
    rw [hexhausted hend, List.append_nil, outcome_of_short hshort' hroom, if_neg hne]
    exact ⟨w, s, rfl, nofun⟩
  | case5 w s _ missing hshort _ hroom =>
    rw [hlarge (List.prefix_append ..) hshort hroom]
    exact ⟨w, s, rfl, nofun⟩
  | case6 w s _ missing hshort _ hroom cause s' hread =>
    have hpos := hd.short_pos hshort
    obtain ⟨bytes, later', s'', hread', -⟩ := hlater.read (n := w.room) (by rw [room]; omega)
    rw [hread] at hread'
    cases hread'
  | case7 w s _ missing hshort _ hroom bytes s' hread ih =>
    have hpos := hd.short_pos hshort
    obtain ⟨bytes', later', s'', hread', rfl, hend, hlater'⟩ :=
      hlater.read (n := w.room) (by rw [room]; omega)
    rw [hread] at hread'
    cases hread'
    have hlength := ByteSource.length_read_le hread
    rw [room] at hlength
    rw [← List.append_assoc] at hlarge ⊢
    refine ih (fun hempty => ?_) later' hlarge hlater' (fun hempty => ?_) ?_
    · -- Nothing was read: the value lacks what it lacked before.
      have hnil : bytes = [] := List.isEmpty_iff.1 hempty
      have hsame : (w.fill bytes).unread = w.unread := by rw [hnil]; exact List.append_nil _
      rw [hsame]
      exact ⟨missing, hshort, Nat.le_of_not_lt hroom⟩
    · have hnil := hend (List.isEmpty_iff.1 hempty)
      exact (List.append_eq_nil_iff.1 hnil).2
    · change (w.unread ++ bytes).length ≤ w.capacity
      rw [List.length_append]
      omega

end Window

end PacketTrace
