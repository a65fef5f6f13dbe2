import PacketTrace.Bytes.Decoder

/-!
# Decoders do not change their mind

A decoder that is given more input after what it had comes to the same result,
unless it had asked for more (`Decoder.Stable`). All decoders that are built
from the basic ones are stable, and what they yield is followed by a suffix of
their input.

* `Decoder.Stable.bind`: sequencing keeps stability;
* `Decoder.Spans`: all that the decoder decodes takes up the same number of
  bytes, and it asks for nothing beyond them;
* `Decoder.Insists`: what a decoder has asked for once, it takes up or asks for
  with any more input;
* `Decoder.eq_append_of_word`: the bytes of a word that is read are those that
  it is written as.
-/

namespace PacketTrace

namespace Decoder

variable {α β : Type}

/-- More input does not change what a decoder has decoded or refused, and if it
    asks for more, it asks for at least a byte. -/
structure Stable (d : Decoder α) : Prop where
  value : ∀ {input a rest}, d input = .value a rest →
    ∀ more, d (input ++ more) = .value a (rest ++ more)
  refused : ∀ {input failure}, d input = .refused failure →
    ∀ more, d (input ++ more) = .refused failure
  short_pos : ∀ {input missing}, d input = .short missing → 0 < missing
  suffix : ∀ {input a rest}, d input = .value a rest → rest <:+ input

theorem stable_pure (a : α) : Stable (pure a : Decoder α) where
  value := by
    intro input b rest h more
    cases h
    rfl
  refused h := by cases h
  short_pos h := by cases h
  suffix h := by
    cases h
    exact List.suffix_refl _

theorem stable_refuse (failure : Failure) : Stable (refuse failure : Decoder α) where
  value h := by cases h
  refused := by
    intro input failure h more
    cases h
    rfl
  short_pos h := by cases h
  suffix h := by cases h

theorem take_cases (n : Nat) (input : Bytes) :
    input.length < n ∧ take n input = .short (n - input.length) ∨
      n ≤ input.length ∧ take n input = .value (input.take n) (input.drop n) := by
  rcases Nat.lt_or_ge input.length n with hn | hn
  · exact .inl ⟨hn, take_of_lt hn⟩
  · exact .inr ⟨hn, take_of_le hn⟩

theorem stable_take (n : Nat) : Stable (take n) where
  value := by
    intro input bytes rest h more
    obtain ⟨hlength, rfl⟩ := take_eq_value h
    rw [List.append_assoc, take_append hlength]
  refused := by
    intro input failure h
    rcases take_cases n input with ⟨-, htake⟩ | ⟨-, htake⟩ <;> rw [htake] at h <;> cases h
  short_pos := by
    intro input missing h
    rcases take_cases n input with ⟨hn, htake⟩ | ⟨-, htake⟩ <;> rw [htake] at h <;> cases h
    exact Nat.sub_pos_of_lt hn
  suffix := by
    intro input bytes rest h
    rw [(take_eq_value h).2]
    exact List.suffix_append ..

theorem demand_cases (n : Nat) (input : Bytes) :
    input.length < n ∧ demand n input = .short (n - input.length) ∨
      n ≤ input.length ∧ demand n input = .value () input := by
  rcases Nat.lt_or_ge input.length n with hn | hn
  · exact .inl ⟨hn, demand_of_lt hn⟩
  · exact .inr ⟨hn, demand_of_le hn⟩

theorem stable_demand (n : Nat) : Stable (demand n) where
  value := by
    intro input a rest h more
    rcases demand_cases n input with ⟨-, hdemand⟩ | ⟨hn, hdemand⟩ <;> rw [hdemand] at h <;> cases h
    exact demand_of_le (by rw [List.length_append]; omega)
  refused := by
    intro input failure h
    rcases demand_cases n input with ⟨-, hdemand⟩ | ⟨-, hdemand⟩ <;> rw [hdemand] at h <;> cases h
  short_pos := by
    intro input missing h
    rcases demand_cases n input with ⟨hn, hdemand⟩ | ⟨-, hdemand⟩ <;> rw [hdemand] at h <;> cases h
    exact Nat.sub_pos_of_lt hn
  suffix := by
    intro input a rest h
    rcases demand_cases n input with ⟨-, hdemand⟩ | ⟨-, hdemand⟩ <;> rw [hdemand] at h <;> cases h
    exact List.suffix_refl _

theorem bind_eq_short {d : Decoder α} {f : α → Decoder β} {input : Bytes} {missing : Nat} :
    (d >>= f) input = .short missing ↔
      d input = .short missing ∨ ∃ a mid, d input = .value a mid ∧ f a mid = .short missing := by
  rw [bind_apply]
  cases d input <;> simp [and_assoc]

theorem bind_eq_refused {d : Decoder α} {f : α → Decoder β} {input : Bytes} {failure : Failure} :
    (d >>= f) input = .refused failure ↔
      d input = .refused failure ∨
        ∃ a mid, d input = .value a mid ∧ f a mid = .refused failure := by
  rw [bind_apply]
  cases d input <;> simp [and_assoc]

/-- A decoder that goes on after a stable one with stable ones is stable. -/
theorem Stable.bind {d : Decoder α} {f : α → Decoder β} (hd : d.Stable) (hf : ∀ a, (f a).Stable) :
    Stable (d >>= f) where
  value := by
    intro input b rest h more
    obtain ⟨a, mid, ha, hb⟩ := bind_eq_value.1 h
    exact bind_eq_value.2 ⟨a, mid ++ more, hd.value ha more, (hf a).value hb more⟩
  refused := by
    intro input failure h more
    rcases bind_eq_refused.1 h with h | ⟨a, mid, ha, hb⟩
    · exact bind_eq_refused.2 (.inl (hd.refused h more))
    · exact bind_eq_refused.2 (.inr ⟨a, mid ++ more, hd.value ha more, (hf a).refused hb more⟩)
  short_pos := by
    intro input missing h
    rcases bind_eq_short.1 h with h | ⟨a, mid, -, hb⟩
    · exact hd.short_pos h
    · exact (hf a).short_pos hb
  suffix := by
    intro input b rest h
    obtain ⟨a, mid, ha, hb⟩ := bind_eq_value.1 h
    exact ((hf a).suffix hb).trans (hd.suffix ha)

theorem stable_word (n : Nat) : Stable (word n) := (stable_take n).bind fun _ => stable_pure _

theorem stable_uint16 : Stable uint16 := (stable_word 2).bind fun _ => stable_pure _

theorem stable_uint32 : Stable uint32 := (stable_word 4).bind fun _ => stable_pure _

theorem stable_int32 : Stable int32 := stable_uint32.bind fun _ => stable_pure _

/-! ## Words are not refused -/

@[simp]
theorem take_ne_refused (n : Nat) (input : Bytes) (failure : Failure) :
    take n input ≠ .refused failure := by
  rcases take_cases n input with ⟨-, htake⟩ | ⟨-, htake⟩ <;> simp [htake]

@[simp]
theorem word_ne_refused (n : Nat) (input : Bytes) (failure : Failure) :
    word n input ≠ .refused failure := by
  simp [word, bind_eq_refused]

@[simp]
theorem uint16_ne_refused (input : Bytes) (failure : Failure) :
    uint16 input ≠ .refused failure := by
  simp [uint16, bind_eq_refused]

@[simp]
theorem uint32_ne_refused (input : Bytes) (failure : Failure) :
    uint32 input ≠ .refused failure := by
  simp [uint32, bind_eq_refused]

@[simp]
theorem int32_ne_refused (input : Bytes) (failure : Failure) :
    int32 input ≠ .refused failure := by
  simp [int32, bind_eq_refused]

/-! ## Decoders of a fixed size -/

/-- What the decoder decodes takes up `n` bytes, and nothing beyond them is
    asked for. -/
structure Spans (d : Decoder α) (n : Nat) : Prop where
  value : ∀ {input a rest}, d input = .value a rest → input.length = n + rest.length
  short : ∀ {input missing}, d input = .short missing → input.length + missing ≤ n

theorem spans_pure (a : α) : Spans (pure a : Decoder α) 0 where
  value h := by
    cases h
    exact (Nat.zero_add _).symm
  short h := by cases h

theorem spans_refuse (failure : Failure) (n : Nat) : Spans (refuse failure : Decoder α) n where
  value h := by cases h
  short h := by cases h

theorem spans_take (n : Nat) : Spans (take n) n where
  value := by
    intro input bytes rest h
    obtain ⟨hlength, rfl⟩ := take_eq_value h
    rw [List.length_append, hlength]
  short := by
    intro input missing h
    rcases take_cases n input with ⟨hn, htake⟩ | ⟨-, htake⟩ <;> rw [htake] at h <;> cases h
    omega

theorem Spans.bind {d : Decoder α} {f : α → Decoder β} {m n : Nat} (hd : d.Spans m)
    (hf : ∀ a, (f a).Spans n) : Spans (d >>= f) (m + n) where
  value := by
    intro input b rest h
    obtain ⟨a, mid, ha, hb⟩ := bind_eq_value.1 h
    rw [hd.value ha, (hf a).value hb, Nat.add_assoc]
  short := by
    intro input missing h
    rcases bind_eq_short.1 h with h | ⟨a, mid, ha, hb⟩
    · exact Nat.le_trans (hd.short h) (Nat.le_add_right m n)
    · rw [hd.value ha, Nat.add_assoc]
      exact Nat.add_le_add_left ((hf a).short hb) m

theorem spans_word (n : Nat) : Spans (word n) n := (spans_take n).bind fun _ => spans_pure _

theorem spans_uint16 : Spans uint16 2 := (spans_word 2).bind fun _ => spans_pure _

theorem spans_uint32 : Spans uint32 4 := (spans_word 4).bind fun _ => spans_pure _

theorem spans_int32 : Spans int32 4 := spans_uint32.bind fun _ => spans_pure _

/-! ## Decoders that insist -/

/-- The bytes that a stable decoder asks for, it takes up when it is given more
    input, unless it still asks for as many. -/
structure Insists (d : Decoder α) : Prop extends Stable d where
  value_of_short : ∀ {input more a rest missing}, d input = .short missing →
    d (input ++ more) = .value a rest →
      input.length + missing + rest.length ≤ (input ++ more).length
  short_of_short : ∀ {input more missing missing'}, d input = .short missing →
    d (input ++ more) = .short missing' → input.length + missing ≤ (input ++ more).length + missing'

theorem insists_pure (a : α) : Insists (pure a : Decoder α) where
  toStable := stable_pure a
  value_of_short h := by cases h
  short_of_short h := by cases h

theorem insists_refuse (failure : Failure) : Insists (refuse failure : Decoder α) where
  toStable := stable_refuse failure
  value_of_short h := by cases h
  short_of_short h := by cases h

theorem insists_take (n : Nat) : Insists (take n) where
  toStable := stable_take n
  value_of_short := by
    intro input more bytes rest missing h hmore
    obtain ⟨hlength, happend⟩ := take_eq_value hmore
    rcases take_cases n input with ⟨hn, htake⟩ | ⟨-, htake⟩ <;> rw [htake] at h <;> cases h
    rw [happend, List.length_append]
    omega
  short_of_short := by
    intro input more missing missing' h hmore
    rcases take_cases n input with ⟨hn, htake⟩ | ⟨-, htake⟩ <;> rw [htake] at h <;> cases h
    rcases take_cases n (input ++ more) with ⟨hn', htake⟩ | ⟨-, htake⟩ <;>
      rw [htake] at hmore <;> cases hmore
    omega

/-- If a decoder goes on after another one, either may be the one that asks. -/
theorem Insists.bind {d : Decoder α} {f : α → Decoder β} (hd : d.Insists)
    (hf : ∀ a, (f a).Insists) : Insists (d >>= f) where
  toStable := hd.toStable.bind fun a => (hf a).toStable
  value_of_short := by
    intro input more b rest missing h hmore
    rcases bind_eq_short.1 h with h | ⟨a, mid, ha, h⟩
    · obtain ⟨a, mid, ha, hb⟩ := bind_eq_value.1 hmore
      have hvalue := hd.value_of_short h ha
      have hsuffix := ((hf a).suffix hb).length_le
      omega
    · have hsuffix := (hd.suffix ha).length_le
      rw [bind_of_eq_value (hd.value ha more)] at hmore
      have hvalue := (hf a).value_of_short h hmore
      rw [List.length_append] at hvalue ⊢
      omega
  short_of_short := by
    intro input more missing missing' h hmore
    rcases bind_eq_short.1 h with h | ⟨a, mid, ha, h⟩
    · rcases bind_eq_short.1 hmore with hmore | ⟨a, mid, ha, -⟩
      · exact hd.short_of_short h hmore
      · have hvalue := hd.value_of_short h ha
        omega
    · have hsuffix := (hd.suffix ha).length_le
      rw [bind_of_eq_value (hd.value ha more)] at hmore
      have hshort := (hf a).short_of_short h hmore
      rw [List.length_append] at hshort ⊢
      omega

theorem insists_word (n : Nat) : Insists (word n) := (insists_take n).bind fun _ => insists_pure _

theorem insists_uint16 : Insists uint16 := (insists_word 2).bind fun _ => insists_pure _

theorem insists_uint32 : Insists uint32 := (insists_word 4).bind fun _ => insists_pure _

theorem insists_uint64 : Insists uint64 := (insists_word 8).bind fun _ => insists_pure _

theorem insists_int32 : Insists int32 := insists_uint32.bind fun _ => insists_pure _

/-! ## What is read is written as it was -/

section Written

variable {n v : Nat} {input rest : Bytes}

theorem eq_append_of_word (h : word n input = .value v rest) :
    v < 256 ^ n ∧ input = Bytes.littleEndian n v ++ rest := by
  obtain ⟨bytes, rfl, rfl, rfl⟩ := word_eq_value h
  exact ⟨Bytes.toNat_lt bytes, by rw [Bytes.littleEndian_toNat]⟩

theorem eq_append_of_uint16 {w : UInt16} (h : uint16 input = .value w rest) :
    input = Bytes.ofUInt16 w ++ rest := by
  obtain ⟨v, mid, hword, hpure⟩ := bind_eq_value.1 h
  obtain ⟨hlt, rfl⟩ := eq_append_of_word hword
  cases hpure
  rw [Bytes.ofUInt16, UInt16.toNat_ofNat', Nat.mod_eq_of_lt hlt]

theorem eq_append_of_uint32 {w : UInt32} (h : uint32 input = .value w rest) :
    input = Bytes.ofUInt32 w ++ rest := by
  obtain ⟨v, mid, hword, hpure⟩ := bind_eq_value.1 h
  obtain ⟨hlt, rfl⟩ := eq_append_of_word hword
  cases hpure
  rw [Bytes.ofUInt32, UInt32.toNat_ofNat', Nat.mod_eq_of_lt hlt]

theorem eq_append_of_uint64 {w : UInt64} (h : uint64 input = .value w rest) :
    input = Bytes.ofUInt64 w ++ rest := by
  obtain ⟨v, mid, hword, hpure⟩ := bind_eq_value.1 h
  obtain ⟨hlt, rfl⟩ := eq_append_of_word hword
  cases hpure
  rw [Bytes.ofUInt64, UInt64.toNat_ofNat', Nat.mod_eq_of_lt hlt]

theorem eq_append_of_int32 {w : Int32} (h : int32 input = .value w rest) :
    input = Bytes.ofInt32 w ++ rest := by
  obtain ⟨v, mid, hword, hpure⟩ := bind_eq_value.1 h
  cases hpure
  rw [Bytes.ofInt32, UInt32.toUInt32_toInt32]
  exact eq_append_of_uint32 hword

end Written

/-- Four bytes that are there are read as a word. -/
theorem uint32_of_le {input : Bytes} (h : 4 ≤ input.length) :
    uint32 input = .value (UInt32.ofNat (Bytes.toNat (input.take 4))) (input.drop 4) := by
  rw [uint32, bind_apply, word, bind_apply, take_of_le h]
  rfl

end Decoder

end PacketTrace
