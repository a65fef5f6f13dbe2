import PacketTrace.Proofs.Stream.Calls
import PacketTrace.Trace.Walk

/-!
# The layout of a trace

Where the bytes of a record stand (`Trace.Record.layout`): its tag in eight
bytes, lowest first, its data, and zeros up to the next multiple of eight. A
walk over records laid out one after the other yields them in turn, and then
nothing more, whether the bytes end there or words of all ones follow
(`Trace.Walk.answer_next_layout`).
-/

namespace PacketTrace

namespace Trace

namespace Record

/-- The bytes of a record. -/
def layout (r : Record) : Bytes :=
  Bytes.littleEndian 8 r.tag.toNat ++ r.data ++ List.replicate ((8 - r.data.length % 8) % 8) 0

/-- A record is written as it is laid out. -/
theorem flatten_fields (r : Record) : r.fields.flatten = r.layout := by
  rw [fields, layout, padding_eq_mod isPowerOfTwo_recordBoundary]
  simp [recordBoundary, Bytes.ofUInt64]

@[simp]
theorem length_layout (r : Record) : r.layout.length = r.size := by
  rw [← flatten_fields, length_flatten_fields]

theorem eight_dvd_size (r : Record) : 8 ∣ r.size := by
  rw [size, Nat.add_assoc]
  exact Nat.dvd_add (Nat.dvd_refl 8) (dvd_add_padding isPowerOfTwo_recordBoundary _)

/-- The tag tells the length of the record, and does not end the trace. -/
structure IsPlain (stored : UInt64 → ℕ) (r : Record) : Prop where
  tag_ne : r.tag ≠ endTag
  length_data : r.data.length = stored r.tag

theorem decoder_layout {stored : UInt64 → ℕ} {r : Record} (h : r.IsPlain stored) (rest : Bytes) :
    decoder stored (r.layout ++ rest) = .value (some r) rest := by
  rw [← flatten_fields]
  exact decoder_fields h.tag_ne h.length_data rest

end Record

/-- The bytes of records one after the other. -/
def layout (records : List Record) : Bytes := records.flatMap Record.layout

@[simp]
theorem layout_nil : layout [] = [] := rfl

@[simp]
theorem layout_cons (r : Record) (records : List Record) :
    layout (r :: records) = r.layout ++ layout records := rfl

@[simp]
theorem layout_append (records more : List Record) :
    layout (records ++ more) = layout records ++ layout more := List.flatMap_append

theorem eight_dvd_length_layout (records : List Record) : 8 ∣ (layout records).length := by
  induction records with
  | nil => exact Nat.dvd_zero 8
  | cons r records ih =>
    rw [layout_cons, List.length_append, Record.length_layout]
    exact Nat.dvd_add r.eight_dvd_size ih

theorem length_le_length_layout (records : List Record) :
    records.length ≤ (layout records).length := by
  induction records with
  | nil => exact Nat.le_refl _
  | cons r records ih =>
    rw [layout_cons, List.length_append, Record.length_layout, Record.size, List.length_cons]
    omega

theorem Record.decoder_endTag (stored : UInt64 → ℕ) (rest : Bytes) :
    decoder stored (Bytes.ofUInt64 endTag ++ rest) = .value none rest := by
  rw [decoder, Decoder.bind_of_eq_value (Decoder.uint64_ofUInt64 ..), if_pos rfl]
  rfl

theorem ofUInt64_endTag : Bytes.ofUInt64 endTag = List.replicate 8 0xff := by decide

/-- Words of all ones read as the end of the trace. -/
theorem decoder_ones (stored : UInt64 → ℕ) {n : ℕ} (h : 8 ≤ n) :
    Record.decoder stored (List.replicate n 0xff) = .value none (List.replicate (n - 8) 0xff) := by
  obtain ⟨m, rfl⟩ := Nat.exists_eq_add_of_le h
  rw [← List.replicate_append_replicate, ← ofUInt64_endTag, Record.decoder_endTag,
    Nat.add_sub_cancel_left]

theorem checkAligned_eq (size : ℕ) : checkAligned size =
    if 64 ∣ size then .ok () else .error (.unalignedTrace size 64) := by
  rw [checkAligned, traceBoundary]
  simp only [isAligned_iff]

namespace Walk

theorem ofTrace_of_dvd {trace : Bytes} (h : 64 ∣ trace.length) :
    ofTrace trace = .ok { rest := trace } := by
  rw [ofTrace, checkAligned_eq, if_pos h]
  rfl

variable {stored : UInt64 → ℕ}

/-- There is no record ahead. -/
def IsOver (stored : UInt64 → ℕ) (w : Walk) : Prop :=
  w.done = true ∨ w.rest = [] ∨ ∃ rest, Record.decoder stored w.rest = .value none rest

theorem next_of_isOver {w : Walk} (h : w.IsOver stored) :
    (w.next stored).1 = none ∧ (w.next stored).2.IsOver stored := by
  rw [next]
  split
  · exact ⟨rfl, h⟩
  next hcond =>
    simp only [Bool.or_eq_true, not_or, Bool.not_eq_true, List.isEmpty_iff] at hcond
    obtain ⟨rest, hdecoder⟩ : ∃ rest, Record.decoder stored w.rest = .value none rest :=
      (h.resolve_left (by simp [hcond.1])).resolve_left hcond.2
    simp only [hdecoder]
    exact ⟨trivial, .inl rfl⟩

theorem answer_next_of_isOver {w : Walk} (h : w.IsOver stored) (n : ℕ) :
    answer (next stored) w n = none :=
  (next_of_isOver (stateAfter_induction h (fun _ h => (next_of_isOver h).2) n)).1

/-- A record that is ahead is the next one. -/
theorem next_of_record {input rest : Bytes} {r : Record}
    (h : Record.decoder stored input = .value (some r) rest) :
    next stored { rest := input } = (some (.ok r), { rest }) := by
  have hne : input ≠ [] := by
    rintro rfl
    exact Nat.not_lt_zero _ (Record.decoder_rest_lt h)
  simp [next, hne, h]

theorem next_layout_append {r : Record} (h : r.IsPlain stored) (rest : Bytes) :
    next stored { rest := r.layout ++ rest } = (some (.ok r), { rest }) :=
  next_of_record (Record.decoder_layout h rest)

/-- Records laid out one after the other are walked in turn. -/
theorem answer_next_layout {records : List Record} (h : ∀ r ∈ records, r.IsPlain stored)
    {tail : Bytes} (htail : ({ rest := tail } : Walk).IsOver stored) (n : ℕ) :
    answer (next stored) { rest := layout records ++ tail } n = (records[n]?).map .ok := by
  induction records generalizing n with
  | nil => exact answer_next_of_isOver htail n
  | cons r records ih =>
    rw [List.forall_mem_cons] at h
    rw [layout_cons, List.append_assoc]
    cases n with
    | zero => rw [answer_zero, next_layout_append h.1]; rfl
    | succ n =>
      rw [answer_succ, next_layout_append h.1]
      exact ih h.2 n

end Walk

end Trace

end PacketTrace
