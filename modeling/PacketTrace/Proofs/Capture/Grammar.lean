import PacketTrace.Proofs.Capture.Streaming
import PacketTrace.Proofs.Trace.Offset

/-!
# What a capture trace says

The packets of a capture trace are read off the words at the offsets of its
records (`Capture.packetAt`): the highest eleven bits of a word are the length
on the wire, the 28 below them the gap. The walk over a trace answers with the
packets of its records in turn, up to where the trace ends or a record is cut
off (`Capture.Reads`).

Much of a trace says nothing (`Capture.IsIdle`): the padding of its records,
what is after the word of all ones, and the low 25 bits of other words.

* `Capture.Walk.next_of_isRecordAt`, `Capture.Walk.stateAfter_walkAt`: what one
  call and any number of calls of a walk do at the offsets of records;
* `Capture.DiffersIdly.reaches`: two traces that differ only in what says
  nothing have their records at the same offsets;
* `Capture.reads_trace`: what is read of a trace, and of every trace that
  differs from it only in what says nothing.
-/

namespace PacketTrace

namespace Capture

open Trace (wordAt offset endOf recordAt IsRecordAt IsEndAt IsCutAt)

/-! ## The fields of a word -/

/-- The length on the wire of a packet, in bits 53 to 63 of the word at the
    offset of its record. -/
def wireLengthAt (trace : Bytes) (o : ℕ) : ℕ := wordAt trace o / 2 ^ 53

/-- The clock cycles since the packet before, in bits 25 to 52. -/
def gapAt (trace : Bytes) (o : ℕ) : ℕ := wordAt trace o / 2 ^ 25 % 2 ^ 28

/-- The number of bytes captured of the packet, at most `limit`. -/
def capturedAt (limit : UInt16) (trace : Bytes) (o : ℕ) : ℕ :=
  min (wireLengthAt trace o) limit.toNat

/-- The offset of a record, by its number. -/
def recordOffset (limit : UInt16) (trace : Bytes) (i : ℕ) : ℕ := offset (capturedAt limit trace) i

/-- The records before this one are all there. -/
def Reaches (limit : UInt16) (trace : Bytes) (i : ℕ) : Prop :=
  ∀ j < i, IsRecordAt (capturedAt limit trace) trace (recordOffset limit trace j)

/-- When the packet of a record arrives, by its number: after the gaps of all
    records but the first, each cut off to whole nanoseconds. -/
def arrivalAt (limit : UInt16) (trace : Bytes) : ℕ → ℕ
  | 0 => 0
  | i + 1 => arrivalAt limit trace i + 32 * gapAt trace (recordOffset limit trace (i + 1)) / 5

/-- The packet of a record, by its number. -/
def packetAt (limit : UInt16) (trace : Bytes) (i : ℕ) : Packet :=
  let o := recordOffset limit trace i
  { timestamp := arrivalAt limit trace i
    wireLength := UInt32.ofNat (wireLengthAt trace o)
    data := (trace.drop (o + 8)).take (capturedAt limit trace o) }

/-- The answers are the packets of `n` records in turn, all of which are there.
    After them the trace ends, and there is nothing more, or the next record is
    cut off, which is reported once. -/
def Reads (limit : UInt16) (trace : Bytes) (n : ℕ)
    (answers : ℕ → Option (Except Failure Packet)) : Prop :=
  Reaches limit trace n ∧ (∀ i < n, answers i = some (.ok (packetAt limit trace i))) ∧
    (IsEndAt trace (recordOffset limit trace n) ∧ (∀ j ≥ n, answers j = none) ∨
      IsCutAt (capturedAt limit trace) trace (recordOffset limit trace n) ∧
        answers n = some (.error .truncatedInput) ∧ ∀ j > n, answers j = none)

variable {limit : UInt16} {trace other : Bytes} {o p i n : ℕ}

theorem Reaches.of_le {j : ℕ} (h : Reaches limit trace i) (hj : j ≤ i) : Reaches limit trace j :=
  fun k hk => h k (Nat.lt_of_lt_of_le hk hj)

/-- The fields are those that the tag of a record has. -/
theorem stored_wordAt (limit : UInt16) (trace : Bytes) (o : ℕ) :
    stored limit (UInt64.ofNat (wordAt trace o)) = capturedAt limit trace o := by
  rw [stored, Tag.captured, Tag.toNat_wireLength, Trace.toNat_ofNat_wordAt]
  rfl

theorem cyclesBefore_recordAt (length : ℕ → ℕ) (trace : Bytes) (o : ℕ) :
    cyclesBefore (recordAt length trace o) = gapAt trace o := by
  rw [cyclesBefore, Tag.toNat_gap, recordAt, Trace.toNat_ofNat_wordAt]
  rfl

theorem wireLength_recordAt (length : ℕ → ℕ) (trace : Bytes) (o : ℕ) :
    (Tag.mk (recordAt length trace o).tag).wireLength.toUInt32 =
      UInt32.ofNat (wireLengthAt trace o) := by
  have hword := Trace.wordAt_lt trace o
  apply UInt32.toNat_inj.1
  rw [UInt16.toNat_toUInt32, Tag.toNat_wireLength, recordAt, Trace.toNat_ofNat_wordAt,
    UInt32.toNat_ofNat', wireLengthAt, Nat.mod_eq_of_lt (by omega)]

/-! ## Walking the records -/

/-- The clock when some records have been read. -/
def clockAt (limit : UInt16) (trace : Bytes) : ℕ → ArrivalClock
  | 0 => {}
  | i + 1 => { now := arrivalAt limit trace i, started := true }

/-- A walk that has come to the record of this number. -/
def walkAt (limit : UInt16) (trace : Bytes) (i : ℕ) : Walk where
  trace := trace
  limit := limit
  place := { rest := trace.drop (recordOffset limit trace i) }
  clock := clockAt limit trace i

theorem arrive_clockAt (limit : UInt16) (trace : Bytes) (i : ℕ) :
    arrive (clockAt limit trace i)
        (recordAt (capturedAt limit trace) trace (recordOffset limit trace i)) =
      clockAt limit trace (i + 1) := by
  have hnow := now_arrive (clockAt limit trace i)
    (recordAt (capturedAt limit trace) trace (recordOffset limit trace i))
  rw [nanosBefore, cyclesBefore_recordAt] at hnow
  cases i with
  | zero => exact congrArg (ArrivalClock.mk · true) hnow
  | succ i => exact congrArg (ArrivalClock.mk · true) hnow

namespace Walk

/-- A whole record is answered with its packet. -/
theorem next_of_isRecordAt (htrace : 8 ∣ trace.length)
    (h : IsRecordAt (capturedAt limit trace) trace (recordOffset limit trace i)) :
    (walkAt limit trace i).next =
      (some (.ok (packetAt limit trace i)), walkAt limit trace (i + 1)) := by
  have hplace := Trace.Walk.next_of_isRecordAt (stored_wordAt limit trace _) htrace
    (Trace.eight_dvd_offset _ i) h
  have hclock := arrive_clockAt limit trace i
  rw [next, walkAt]
  simp only [recordOffset] at hplace hclock ⊢
  simp only [hplace, hclock, packet, wireLength_recordAt]
  cases i <;> rfl

theorem stateAfter_walkAt (htrace : 8 ∣ trace.length) (h : Reaches limit trace i) :
    stateAfter next (walkAt limit trace 0) i = walkAt limit trace i := by
  induction i with
  | zero => rfl
  | succ i ih =>
    rw [stateAfter_succ, ih (h.of_le (Nat.le_succ i)),
      next_of_isRecordAt htrace (h i (Nat.lt_succ_self i))]

theorem answer_of_isRecordAt (htrace : 8 ∣ trace.length) (h : Reaches limit trace (i + 1)) :
    answer next (walkAt limit trace 0) i = some (.ok (packetAt limit trace i)) := by
  rw [answer, stateAfter_walkAt htrace (h.of_le (Nat.le_succ i)),
    next_of_isRecordAt htrace (h i (Nat.lt_succ_self i))]

/-- Where the trace ends there is no answer. -/
theorem next_of_isEndAt (h : IsEndAt trace (recordOffset limit trace i)) :
    (walkAt limit trace i).next.1 = none := by
  have hplace := (Trace.Walk.next_of_isOver
    (Trace.Walk.isOver_of_isEndAt (stored limit) h)).1
  rw [next]
  split
  next hnext => cases hplace.symm.trans (congrArg Prod.fst hnext)
  next hnext => cases hplace.symm.trans (congrArg Prod.fst hnext)
  next => rfl

theorem next_of_isCutAt
    (h : IsCutAt (capturedAt limit trace) trace (recordOffset limit trace i)) :
    (walkAt limit trace i).next.1 = some (.error .truncatedInput) := by
  have hplace := Trace.Walk.next_of_isCutAt (stored_wordAt limit trace _) h
  rw [next, walkAt]
  simp only [hplace]

theorem answer_add_of_reaches (htrace : 8 ∣ trace.length) (h : Reaches limit trace n) (k : ℕ) :
    answer next (walkAt limit trace 0) (n + k) = answer next (walkAt limit trace n) k := by
  rw [answer_add, stateAfter_walkAt htrace h]

theorem answer_of_isEndAt (htrace : 8 ∣ trace.length) (h : Reaches limit trace n)
    (hend : IsEndAt trace (recordOffset limit trace n)) {j : ℕ} (hj : n ≤ j) :
    answer next (walkAt limit trace 0) j = none := by
  have hnext := next_of_isEndAt hend
  obtain ⟨k, rfl⟩ := Nat.exists_eq_add_of_le hj
  rw [answer_add_of_reaches htrace h]
  cases k with
  | zero => exact hnext
  | succ k => exact answer_of_next_ne (by simp [hnext]) k

/-- A record that is cut off is reported once. -/
theorem answer_of_isCutAt (htrace : 8 ∣ trace.length) (h : Reaches limit trace n)
    (hcut : IsCutAt (capturedAt limit trace) trace (recordOffset limit trace n)) {j : ℕ}
    (hj : n ≤ j) : answer next (walkAt limit trace 0) j =
      if j = n then some (.error .truncatedInput) else none := by
  have hnext := next_of_isCutAt hcut
  obtain ⟨k, rfl⟩ := Nat.exists_eq_add_of_le hj
  rw [answer_add_of_reaches htrace h]
  cases k with
  | zero => exact hnext.trans (if_pos rfl).symm
  | succ k => exact (answer_of_next_ne (by simp [hnext]) k).trans (if_neg (by omega)).symm

end Walk

/-- A walk over a trace of whole blocks reads its records. -/
theorem exists_reads (htrace : 8 ∣ trace.length) (limit : UInt16) :
    ∃ n, Reads limit trace n (answer Walk.next (walkAt limit trace 0)) := by
  obtain ⟨n, hreaches, hstop⟩ := Trace.exists_stop (capturedAt limit trace) htrace
  have hreaches : Reaches limit trace n := hreaches
  refine ⟨n, hreaches, fun i hi => Walk.answer_of_isRecordAt htrace (hreaches.of_le hi), ?_⟩
  rcases hstop with hend | hcut
  · exact .inl ⟨hend, fun j hj => Walk.answer_of_isEndAt htrace hreaches hend hj⟩
  · refine .inr ⟨hcut, ?_, fun j hj => ?_⟩
    · rw [Walk.answer_of_isCutAt htrace hreaches hcut (Nat.le_refl n), if_pos rfl]
    · rw [Walk.answer_of_isCutAt htrace hreaches hcut (Nat.le_of_lt hj), if_neg (by omega)]

/-! ## What says nothing -/

/-- Byte strings that have the same bytes at some positions have the same part
    there. -/
theorem take_drop_eq {bytes bytes' : Bytes} {length : ℕ}
    (h : ∀ p, o ≤ p → p < o + length → bytes'[p]? = bytes[p]?) :
    (bytes'.drop o).take length = (bytes.drop o).take length := by
  apply List.ext_getElem?
  intro k
  rw [List.getElem?_take, List.getElem?_take, List.getElem?_drop, List.getElem?_drop]
  split
  · exact h (o + k) (Nat.le_add_right o k) (by omega)
  · rfl

/-- Whatever byte `other` has at this position, a walk over the trace does not
    tell it from the byte there. -/
inductive IsIdle (limit : UInt16) (trace other : Bytes) (p : ℕ) : Prop where
  /-- The position is in the padding of a record. -/
  | padding {i : ℕ} : Reaches limit trace (i + 1) →
      recordOffset limit trace i + 8 + capturedAt limit trace (recordOffset limit trace i) ≤ p →
      p < recordOffset limit trace (i + 1) → IsIdle limit trace other p
  /-- The position is after the word of all ones. -/
  | afterEnd {i : ℕ} : Reaches limit trace i →
      wordAt trace (recordOffset limit trace i) = 2 ^ 64 - 1 →
      recordOffset limit trace i + 8 ≤ p → IsIdle limit trace other p
  /-- The position is in the word of a record, which is not all ones in either,
      and in which the two differ in the reserved bits only. -/
  | reserved {i : ℕ} : Reaches limit trace i →
      recordOffset limit trace i ≤ p → p < recordOffset limit trace i + 8 →
      wordAt trace (recordOffset limit trace i) ≠ 2 ^ 64 - 1 →
      wordAt other (recordOffset limit trace i) ≠ 2 ^ 64 - 1 →
      wordAt other (recordOffset limit trace i) / 2 ^ 25 =
        wordAt trace (recordOffset limit trace i) / 2 ^ 25 → IsIdle limit trace other p

/-- The two traces are of one length, and differ only in what says nothing. -/
structure DiffersIdly (limit : UInt16) (trace other : Bytes) : Prop where
  length_eq : other.length = trace.length
  idle : ∀ p, other[p]? ≠ (trace)[p]? → IsIdle limit trace other p

/-- The words say the same: both end the trace, or neither does and they differ
    in the reserved bits only. -/
structure SaysSame (trace other : Bytes) (o : ℕ) : Prop where
  ones : wordAt other o = 2 ^ 64 - 1 ↔ wordAt trace o = 2 ^ 64 - 1
  fields : wordAt other o / 2 ^ 25 = wordAt trace o / 2 ^ 25

namespace SaysSame

variable (h : SaysSame trace other o)

include h

theorem wireLengthAt_eq : wireLengthAt other o = wireLengthAt trace o := by
  have hfields := h.fields
  rw [wireLengthAt, wireLengthAt]
  omega

theorem gapAt_eq : gapAt other o = gapAt trace o := by
  rw [gapAt, gapAt, h.fields]

theorem capturedAt_eq : capturedAt limit other o = capturedAt limit trace o := by
  rw [capturedAt, capturedAt, h.wireLengthAt_eq]

end SaysSame

theorem recordOffset_succ (limit : UInt16) (trace : Bytes) (i : ℕ) :
    recordOffset limit trace (i + 1) =
      endOf (recordOffset limit trace i) (capturedAt limit trace (recordOffset limit trace i)) :=
  rfl

theorem recordOffset_mono (limit : UInt16) (trace : Bytes) {j : ℕ} (h : i ≤ j) :
    recordOffset limit trace i ≤ recordOffset limit trace j := by
  rcases Nat.eq_or_lt_of_le h with rfl | hlt
  · exact Nat.le_refl _
  · exact Nat.le_trans (Nat.le_add_right _ 8) (Trace.offset_add_eight_le _ hlt)

/-- An idle byte before the end of the data of a record is in its word. -/
theorem IsIdle.saysSame (h : IsIdle limit trace other p) (hreach : Reaches limit trace i)
    (hle : recordOffset limit trace i ≤ p)
    (hlt : p < recordOffset limit trace i + 8 ∨ Reaches limit trace (i + 1) ∧
      p < recordOffset limit trace i + 8 + capturedAt limit trace (recordOffset limit trace i)) :
    p < recordOffset limit trace i + 8 ∧ SaysSame trace other (recordOffset limit trace i) := by
  -- The byte is before the record after this one.
  have hend := Trace.add_eight_le_endOf (recordOffset limit trace i)
    (capturedAt limit trace (recordOffset limit trace i))
  rw [← recordOffset_succ] at hend
  have hlater {j : ℕ} (hj : recordOffset limit trace j ≤ p) : j ≤ i := by
    by_contra hij
    have hmono := recordOffset_mono limit trace (show i + 1 ≤ j by omega)
    rcases hlt with hlt | ⟨-, hlt⟩ <;> omega
  -- The record it is idle for is this one or one before, whose padding and word end
  -- before this one starts, and whose word is not the end.
  cases h with
  | @padding j hj hpadding hnext =>
    have hji : j = i := by
      refine Nat.le_antisymm (hlater (by omega)) (Nat.le_of_not_lt fun hji => ?_)
      have hmono := recordOffset_mono limit trace (show j + 1 ≤ i from hji)
      omega
    subst hji
    rcases hlt with hlt | ⟨-, hlt⟩ <;> omega
  | @afterEnd j hj hones hafter =>
    rcases Nat.eq_or_lt_of_le (hlater (Nat.le_trans (Nat.le_add_right _ 8) hafter)) with rfl | hji
    · rcases hlt with hlt | ⟨hreach', -⟩
      · omega
      · exact absurd hones (hreach' j (Nat.lt_succ_self j)).word_ne
    · exact absurd hones (hreach j hji).word_ne
  | @reserved j hj hle' hlt' hne hne' hfields =>
    rcases Nat.eq_or_lt_of_le (hlater hle') with rfl | hji
    · exact ⟨hlt', iff_of_false hne' hne, hfields⟩
    · have hmono := Trace.offset_add_eight_le (capturedAt limit trace) hji
      simp only [recordOffset] at hle hlt'
      omega

namespace DiffersIdly

/-- The words at the offset of a record say the same. -/
theorem saysSame (h : DiffersIdly limit trace other) (hreach : Reaches limit trace i) :
    SaysSame trace other (recordOffset limit trace i) := by
  by_cases hsame : ∀ p, recordOffset limit trace i ≤ p → p < recordOffset limit trace i + 8 →
      other[p]? = (trace)[p]?
  · have hword : wordAt other (recordOffset limit trace i) =
        wordAt trace (recordOffset limit trace i) := by
      rw [wordAt, wordAt, take_drop_eq hsame]
    exact ⟨by rw [hword], by rw [hword]⟩
  · push Not at hsame
    obtain ⟨p, hle, hlt, hne⟩ := hsame
    exact ((h.idle p hne).saysSame hreach hle (.inl hlt)).2

/-- A record that is there has the same data in both. -/
theorem data_eq (h : DiffersIdly limit trace other) (hreach : Reaches limit trace (i + 1)) :
    (other.drop (recordOffset limit trace i + 8)).take
        (capturedAt limit trace (recordOffset limit trace i)) =
      (trace.drop (recordOffset limit trace i + 8)).take
        (capturedAt limit trace (recordOffset limit trace i)) := by
  refine take_drop_eq fun p hle hlt => ?_
  by_contra hne
  have hidle := (h.idle p hne).saysSame (hreach.of_le (Nat.le_succ i))
    (Nat.le_trans (Nat.le_add_right _ 8) hle) (.inr ⟨hreach, hlt⟩)
  omega

theorem isRecordAt (h : DiffersIdly limit trace other) (hreach : Reaches limit trace i)
    (hrecord : IsRecordAt (capturedAt limit trace) trace (recordOffset limit trace i)) :
    IsRecordAt (capturedAt limit other) other (recordOffset limit trace i) where
  word_le := h.length_eq ▸ hrecord.word_le
  word_ne := mt (h.saysSame hreach).ones.1 hrecord.word_ne
  data_le := by
    rw [(h.saysSame hreach).capturedAt_eq, h.length_eq]
    exact hrecord.data_le

/-- The records are at the same offsets, as far as they are there. -/
theorem reaches (h : DiffersIdly limit trace other) (hreach : Reaches limit trace i) :
    recordOffset limit other i = recordOffset limit trace i ∧ Reaches limit other i := by
  induction i with
  | zero => exact ⟨rfl, fun j hj => absurd hj (Nat.not_lt_zero j)⟩
  | succ i ih =>
    have hi := hreach.of_le (Nat.le_succ i)
    obtain ⟨hoffset, hother⟩ := ih hi
    refine ⟨?_, fun j hj => ?_⟩
    · rw [recordOffset_succ, recordOffset_succ, hoffset, (h.saysSame hi).capturedAt_eq]
    · rcases Nat.eq_or_lt_of_le (Nat.le_of_lt_succ hj) with rfl | hj
      · rw [hoffset]
        exact h.isRecordAt hi (hreach j (Nat.lt_succ_self j))
      · exact hother j hj

theorem arrivalAt_eq (h : DiffersIdly limit trace other) (hreach : Reaches limit trace i) :
    arrivalAt limit other i = arrivalAt limit trace i := by
  induction i with
  | zero => rfl
  | succ i ih =>
    rw [arrivalAt, arrivalAt, ih (hreach.of_le (Nat.le_succ i)), (h.reaches hreach).1,
      (h.saysSame hreach).gapAt_eq]

/-- A record that is there is that of the same packet. -/
theorem packetAt_eq (h : DiffersIdly limit trace other) (hreach : Reaches limit trace (i + 1)) :
    packetAt limit other i = packetAt limit trace i := by
  have hi := hreach.of_le (Nat.le_succ i)
  have hsame := h.saysSame hi
  simp only [packetAt, h.arrivalAt_eq hi, (h.reaches hi).1, hsame.wireLengthAt_eq,
    hsame.capturedAt_eq, h.data_eq hreach]

theorem isEndAt (h : DiffersIdly limit trace other) (hreach : Reaches limit trace n)
    (hend : IsEndAt trace (recordOffset limit trace n)) :
    IsEndAt other (recordOffset limit trace n) := by
  rw [IsEndAt, h.length_eq]
  exact hend.imp_right fun hones => ⟨hones.1, (h.saysSame hreach).ones.2 hones.2⟩

theorem isCutAt (h : DiffersIdly limit trace other) (hreach : Reaches limit trace n)
    (hcut : IsCutAt (capturedAt limit trace) trace (recordOffset limit trace n)) :
    IsCutAt (capturedAt limit other) other (recordOffset limit trace n) where
  word_le := h.length_eq ▸ hcut.word_le
  word_ne := mt (h.saysSame hreach).ones.1 hcut.word_ne
  lt_data := by
    rw [(h.saysSame hreach).capturedAt_eq, h.length_eq]
    exact hcut.lt_data

/-- Walks over the two answer alike, call by call. -/
theorem answer_eq (h : DiffersIdly limit trace other) (htrace : 8 ∣ trace.length) (k : ℕ) :
    answer Walk.next (walkAt limit other 0) k = answer Walk.next (walkAt limit trace 0) k := by
  have hother : 8 ∣ other.length := h.length_eq ▸ htrace
  obtain ⟨n, hreaches, hstop⟩ := Trace.exists_stop (capturedAt limit trace) htrace
  have hreaches : Reaches limit trace n := hreaches
  obtain ⟨hoffset, hreaches'⟩ := h.reaches hreaches
  rcases Nat.lt_or_ge k n with hk | hk
  · rw [Walk.answer_of_isRecordAt htrace (hreaches.of_le hk),
      Walk.answer_of_isRecordAt hother (hreaches'.of_le hk), h.packetAt_eq (hreaches.of_le hk)]
  · rcases hstop with hend | hcut
    · rw [Walk.answer_of_isEndAt htrace hreaches hend hk,
        Walk.answer_of_isEndAt hother hreaches' (hoffset ▸ h.isEndAt hreaches hend) hk]
    · rw [Walk.answer_of_isCutAt htrace hreaches hcut hk,
        Walk.answer_of_isCutAt hother hreaches' (hoffset ▸ h.isCutAt hreaches hcut) hk]

end DiffersIdly

/-- A walk over a trace of whole blocks answers with the packets that stand at
    the offsets of its records, each of which starts at the next multiple of
    eight after the record before. It stops where the trace ends, with its bytes
    or by a word of all ones, or reports once that a record runs past the end. No
    word is cut off. A walk over any trace that differs only in the padding of
    records, after the word of all ones, or in the reserved bits of other words
    answers the same, call by call. -/
theorem reads_trace (haligned : 64 ∣ trace.length) (limit : UInt16) :
    ∃ w, Walk.ofTrace trace limit = .ok w ∧
      (∃ n, Reads limit trace n (answer Walk.next w)) ∧
      ∀ other, DiffersIdly limit trace other → ∃ w', Walk.ofTrace other limit = .ok w' ∧
        ∀ k, answer Walk.next w' k = answer Walk.next w k := by
  have htrace : 8 ∣ trace.length := Nat.dvd_trans (by decide) haligned
  have hopen {bytes : Bytes} (h : 64 ∣ bytes.length) :
      Walk.ofTrace bytes limit = .ok (walkAt limit bytes 0) := by
    rw [Walk.ofTrace, Trace.Walk.ofTrace_of_dvd h]
    rfl
  exact ⟨_, hopen haligned, exists_reads htrace limit, fun other hother =>
    ⟨_, hopen (hother.length_eq ▸ haligned), hother.answer_eq htrace⟩⟩

/-- A packet of two bytes, and the end of the trace. -/
def beforeOnes : Bytes :=
  [0, 0, 0, 0, 0, 0, 64, 0, 7, 8, 0, 0, 0, 0, 0, 0] ++ List.replicate 8 255 ++ List.replicate 40 0

/-- The same, with other bytes in place of the reserved bits, of the padding and
    of what is after the end. -/
def otherBeforeOnes : Bytes :=
  [1, 2, 3, 1, 0, 0, 64, 0, 7, 8, 9, 9, 9, 9, 9, 9] ++ List.replicate 8 255 ++ List.replicate 40 5

theorem differsIdly_beforeOnes : DiffersIdly 1500 beforeOnes otherBeforeOnes where
  length_eq := by decide
  idle p hp := by
    have hword : recordOffset 1500 beforeOnes 1 = 16 ∧
        capturedAt 1500 beforeOnes (recordOffset 1500 beforeOnes 0) = 2 := by decide
    have hone : Reaches 1500 beforeOnes 1 := by
      intro j hj
      obtain rfl : j = 0 := by omega
      exact ⟨by decide, by decide, by decide⟩
    have hsame : ∀ q < 24, 4 ≤ q → q < 10 ∨ 16 ≤ q → otherBeforeOnes[q]? = (beforeOnes)[q]? := by
      decide
    rcases Nat.lt_or_ge p 24 with hlt | hge
    · rcases Nat.lt_or_ge p 4 with hlt' | hge'
      · exact .reserved (hone.of_le (Nat.zero_le 1)) (Nat.zero_le p)
          (Nat.lt_of_lt_of_le hlt' (by decide)) (by decide) (by decide) (by decide)
      · have hpadding : ¬ (p < 10 ∨ 16 ≤ p) := fun h => hp (hsame p hlt hge' h)
        exact .padding hone (by rw [hword.2]; change 10 ≤ p; omega) (by rw [hword.1]; omega)
    · exact .afterEnd hone (by decide) (by rw [hword.1]; exact hge)

theorem reads_trace_of_beforeOnes : 64 ∣ beforeOnes.length ∧
    DiffersIdly 1500 beforeOnes otherBeforeOnes ∧
    ∃ w', Walk.ofTrace otherBeforeOnes 1500 = .ok w' ∧
      answer Walk.next w' 0 = some (.ok ⟨0, 2, [7, 8]⟩) ∧ answer Walk.next w' 1 = none := by
  have haligned : 64 ∣ beforeOnes.length := by decide
  obtain ⟨w, hopen, -, hothers⟩ := reads_trace haligned 1500
  obtain ⟨w', hopen', hsame⟩ := hothers otherBeforeOnes differsIdly_beforeOnes
  obtain rfl : walkAt 1500 beforeOnes 0 = w := Except.ok.inj hopen
  refine ⟨haligned, differsIdly_beforeOnes, w', hopen', ?_, ?_⟩
  · rw [hsame]
    decide
  · rw [hsame]
    decide

end Capture

end PacketTrace
