import Mathlib.Data.Nat.Find
import PacketTrace.Proofs.Trace.Layout
import PacketTrace.Proofs.Trace.Record

/-!
# The offsets of records

Nothing frames the records of a trace but the chain of their offsets: the word
at the offset of a record tells its length, and the record after it starts at
the next multiple of eight (`Trace.offset`). In a trace of whole blocks the
chain comes to a stop, at the end of the bytes, at the word of all ones, or at a
record that is cut off (`Trace.exists_stop`).

* `Trace.Walk.next_of_isRecordAt`, `Trace.Walk.isOver_of_isEndAt`,
  `Trace.Walk.next_of_isCutAt`: what a walk makes of each of these;
* `Trace.endOf_offset_le`: the records do not overlap.
-/

namespace PacketTrace

namespace Trace

/-- The number that the eight bytes at an offset denote, lowest first. -/
def wordAt (trace : Bytes) (o : ℕ) : ℕ := Bytes.toNat ((trace.drop o).take 8)

/-- Where a record ends that starts at an offset and has so many bytes after its
    word: at the next multiple of eight. -/
def endOf (o length : ℕ) : ℕ := 8 * ((o + 8 + length + 7) / 8)

/-- Where the records start, by their numbers, if `length` tells how many bytes
    are in the record at an offset. -/
def offset (length : ℕ → ℕ) : ℕ → ℕ
  | 0 => 0
  | i + 1 => endOf (offset length i) (length (offset length i))

/-- There is a whole record at the offset. -/
structure IsRecordAt (length : ℕ → ℕ) (trace : Bytes) (o : ℕ) : Prop where
  word_le : o + 8 ≤ trace.length
  word_ne : wordAt trace o ≠ 2 ^ 64 - 1
  data_le : o + 8 + length o ≤ trace.length

/-- The trace ends at the offset, with its bytes or by a word of all ones. -/
def IsEndAt (trace : Bytes) (o : ℕ) : Prop :=
  o = trace.length ∨ o + 8 ≤ trace.length ∧ wordAt trace o = 2 ^ 64 - 1

/-- The record at the offset runs past the end of the bytes. Its word is there
    whole. -/
structure IsCutAt (length : ℕ → ℕ) (trace : Bytes) (o : ℕ) : Prop where
  word_le : o + 8 ≤ trace.length
  word_ne : wordAt trace o ≠ 2 ^ 64 - 1
  lt_data : trace.length < o + 8 + length o

/-- The record at an offset, if it has so many bytes after its word. -/
def recordAt (length : ℕ → ℕ) (trace : Bytes) (o : ℕ) : Record where
  tag := UInt64.ofNat (wordAt trace o)
  data := (trace.drop (o + 8)).take (length o)

variable {length : ℕ → ℕ} {trace : Bytes} {o i j : ℕ}

theorem wordAt_lt (trace : Bytes) (o : ℕ) : wordAt trace o < 2 ^ 64 := by
  have hlength : ((trace.drop o).take 8).length ≤ 8 := List.length_take_le ..
  exact Nat.lt_of_lt_of_le (Bytes.toNat_lt _) (Nat.pow_le_pow_right (by decide) hlength)

@[simp]
theorem toNat_ofNat_wordAt (trace : Bytes) (o : ℕ) :
    (UInt64.ofNat (wordAt trace o)).toNat = wordAt trace o := by
  rw [UInt64.toNat_ofNat', Nat.mod_eq_of_lt (wordAt_lt trace o)]

theorem ofNat_wordAt_eq_endTag : UInt64.ofNat (wordAt trace o) = endTag ↔
    wordAt trace o = 2 ^ 64 - 1 := by
  rw [← UInt64.toNat_inj, toNat_ofNat_wordAt]
  rfl

/-! ## The chain -/

theorem add_eight_le_endOf (o length : ℕ) : o + 8 + length ≤ endOf o length := by
  rw [endOf]
  omega

theorem eight_dvd_offset (length : ℕ → ℕ) (i : ℕ) : 8 ∣ offset length i := by
  cases i with
  | zero => exact Nat.dvd_zero 8
  | succ i => exact Nat.dvd_mul_right ..

/-- Between multiples of eight, a record and its padding end as soon as its
    bytes do. -/
theorem endOf_le_iff (htrace : 8 ∣ trace.length) (length : ℕ) :
    endOf o length ≤ trace.length ↔ o + 8 + length ≤ trace.length := by
  rw [endOf]
  omega

/-- A record ends before a later one starts. -/
theorem endOf_offset_le (length : ℕ → ℕ) (h : i < j) :
    endOf (offset length i) (length (offset length i)) ≤ offset length j := by
  induction h with
  | refl => exact Nat.le_refl _
  | @step j _ ih =>
    have hend := add_eight_le_endOf (offset length j) (length (offset length j))
    rw [offset]
    omega

theorem offset_add_eight_le (length : ℕ → ℕ) (h : i < j) :
    offset length i + 8 ≤ offset length j := by
  have hle := endOf_offset_le length h
  have hend := add_eight_le_endOf (offset length i) (length (offset length i))
  omega

theorem eight_mul_le_offset (length : ℕ → ℕ) (i : ℕ) : 8 * i ≤ offset length i := by
  induction i with
  | zero => exact Nat.zero_le _
  | succ i ih =>
    have hnext := offset_add_eight_le length (Nat.lt_add_one i)
    omega

theorem offset_le_length (htrace : 8 ∣ trace.length)
    (h : ∀ j < i, IsRecordAt length trace (offset length j)) :
    offset length i ≤ trace.length := by
  cases i with
  | zero => exact Nat.zero_le _
  | succ i => exact (endOf_le_iff htrace _).2 (h i (Nat.lt_succ_self i)).data_le

/-- After some records the bytes end, or there is a word that ends the trace, or
    a record is cut off. -/
theorem exists_stop (length : ℕ → ℕ) (htrace : 8 ∣ trace.length) :
    ∃ n, (∀ i < n, IsRecordAt length trace (offset length i)) ∧
      (IsEndAt trace (offset length n) ∨ IsCutAt length trace (offset length n)) := by
  classical
  -- Every record takes up bytes, so there are not more records than bytes.
  have hexists : ∃ n, ¬ IsRecordAt length trace (offset length n) := by
    refine ⟨trace.length, fun hrecord => ?_⟩
    have hle := eight_mul_le_offset length trace.length
    have hword := hrecord.word_le
    omega
  have hrecords : ∀ i < Nat.find hexists, IsRecordAt length trace (offset length i) :=
    fun i hi => not_not.1 (Nat.find_min hexists hi)
  refine ⟨Nat.find hexists, hrecords, ?_⟩
  have hstop := Nat.find_spec hexists
  have hle := offset_le_length htrace hrecords
  have hoffset := eight_dvd_offset length (Nat.find hexists)
  generalize offset length (Nat.find hexists) = o at *
  by_cases hword : o + 8 ≤ trace.length
  · by_cases hones : wordAt trace o = 2 ^ 64 - 1
    · exact .inl (.inr ⟨hword, hones⟩)
    · exact .inr ⟨hword, hones, Nat.lt_of_not_le fun hdata => hstop ⟨hword, hones, hdata⟩⟩
  · exact .inl (.inl (by omega))

/-! ## Walking it -/

theorem headTag_drop (trace : Bytes) (o : ℕ) :
    Record.headTag (trace.drop o) = UInt64.ofNat (wordAt trace o) := rfl

/-- From a multiple of eight, a record and its padding take up the bytes up to
    its end. -/
theorem add_span (ho : 8 ∣ o) (stored : UInt64 → ℕ) (tag : UInt64) :
    o + Record.span stored tag = endOf o (stored tag) := by
  rw [Record.span, padding_eq_mod isPowerOfTwo_recordBoundary, recordBoundary, endOf]
  omega

namespace Walk

variable {stored : UInt64 → ℕ}

/-- A whole record is the next one, and what is after it is where the next
    record starts. -/
theorem next_of_isRecordAt (hlength : stored (UInt64.ofNat (wordAt trace o)) = length o)
    (htrace : 8 ∣ trace.length) (ho : 8 ∣ o) (h : IsRecordAt length trace o) :
    next stored { rest := trace.drop o } =
      (some (.ok (recordAt length trace o)), { rest := trace.drop (endOf o (length o)) }) := by
  have hword := h.word_le
  have htag : Record.headTag (trace.drop o) ≠ endTag :=
    mt ofNat_wordAt_eq_endTag.1 h.word_ne
  have hspan := add_span ho stored (UInt64.ofNat (wordAt trace o))
  rw [hlength] at hspan
  have hend := (endOf_le_iff htrace _).2 h.data_le
  have hdecoder : Record.decoder stored (trace.drop o) =
      .value (some (recordAt length trace o)) (trace.drop (endOf o (length o))) := by
    rw [Record.decoder_of_le (by rw [List.length_drop]; omega) htag
      (by rw [headTag_drop, List.length_drop]; omega), headTag_drop, hlength, List.drop_drop,
      List.drop_drop, hspan, recordAt]
  have hne : trace.drop o ≠ [] := by
    rw [Ne, List.drop_eq_nil_iff]
    omega
  simp [next, hne, hdecoder]

/-- There is nothing to come where the trace ends. -/
theorem isOver_of_isEndAt (stored : UInt64 → ℕ) (h : IsEndAt trace o) :
    ({ rest := trace.drop o } : Walk).IsOver stored := by
  rcases h with rfl | ⟨hword, hones⟩
  · exact .inr (.inl (List.drop_length ..))
  · exact .inr (.inr ⟨_, Record.decoder_of_eq_endTag (by rw [List.length_drop]; omega)
      (ofNat_wordAt_eq_endTag.2 hones)⟩)

/-- A record that is cut off is reported, and there is nothing to come after
    it. -/
theorem next_of_isCutAt (hlength : stored (UInt64.ofNat (wordAt trace o)) = length o)
    (h : IsCutAt length trace o) :
    next stored { rest := trace.drop o } =
      (some (.error .truncatedInput), { rest := trace.drop o, done := true }) := by
  have hword := h.word_le
  have hdata := h.lt_data
  have htag : Record.headTag (trace.drop o) ≠ endTag :=
    mt ofNat_wordAt_eq_endTag.1 h.word_ne
  obtain ⟨missing, -, hdecoder⟩ := @Record.decoder_of_span_gt stored (trace.drop o)
    (by rw [List.length_drop]; omega) htag
    (by rw [headTag_drop, List.length_drop, Record.span, hlength]; omega)
  have hne : trace.drop o ≠ [] := by
    rw [Ne, List.drop_eq_nil_iff]
    omega
  simp [next, hne, hdecoder]

end Walk

end Trace

end PacketTrace
