import Mathlib.Algebra.Order.BigOperators.Group.List
import Mathlib.Algebra.Order.Group.Nat
import PacketTrace.Proofs.Pcap.RoundTrip

/-!
# Rewriting packet files

What is read of a packet file to its end is all that there is in it: the header
and the entries, with nothing between them or after them (`Pcap.layout_scan`).
If it is written again, only the timestamps may come out differently: the
nanoseconds that exceed a second are carried over to the seconds
(`Pcap.Entry.normal`), which may then be too many for the format.

* `Entry.normal_eq_iff`: only an entry with less than a second of nanoseconds is
  as it was;
* `IsRead.exists_entries`: what is in a file that is read to its end;
* `rewrite_normalizes`: hence what becomes of a file that is read and written
  again.
-/

namespace PacketTrace

namespace Pcap

/-! ## What is read is written as it was -/

theorem Header.eq_append_of_decoder {input rest : Bytes} {h : Header}
    (hvalue : Header.decoder input = .value h rest) :
    h.magic = nanosecondMagic ∧ input = h.fields.flatten ++ rest := by
  obtain ⟨magic, _, hmagic, hvalue⟩ := Decoder.bind_eq_value.1 hvalue
  split at hvalue
  · cases hvalue
  next hnanos =>
    obtain ⟨_, _, hmajor, hvalue⟩ := Decoder.bind_eq_value.1 hvalue
    obtain ⟨_, _, hminor, hvalue⟩ := Decoder.bind_eq_value.1 hvalue
    obtain ⟨_, _, hzone, hvalue⟩ := Decoder.bind_eq_value.1 hvalue
    obtain ⟨_, _, haccuracy, hvalue⟩ := Decoder.bind_eq_value.1 hvalue
    obtain ⟨_, _, hsnap, hvalue⟩ := Decoder.bind_eq_value.1 hvalue
    obtain ⟨_, _, hlink, hvalue⟩ := Decoder.bind_eq_value.1 hvalue
    cases hvalue
    refine ⟨not_not.1 hnanos, ?_⟩
    rw [Decoder.eq_append_of_uint32 hmagic, Decoder.eq_append_of_uint16 hmajor,
      Decoder.eq_append_of_uint16 hminor, Decoder.eq_append_of_int32 hzone,
      Decoder.eq_append_of_uint32 haccuracy, Decoder.eq_append_of_uint32 hsnap,
      Decoder.eq_append_of_int32 hlink]
    simp only [fields, List.flatten_cons, List.flatten_nil, List.append_assoc, List.append_nil]

theorem Entry.eq_append_of_decoder {input rest : Bytes} {e : Entry}
    (hvalue : Entry.decoder input = .value e rest) :
    e.IsPlain ∧ input = e.fields.flatten ++ rest := by
  obtain ⟨_, _, hdemand, hvalue⟩ := Decoder.bind_eq_value.1 hvalue
  obtain ⟨_, _, hseconds, hvalue⟩ := Decoder.bind_eq_value.1 hvalue
  obtain ⟨_, _, hnanos, hvalue⟩ := Decoder.bind_eq_value.1 hvalue
  obtain ⟨_, _, hcaptured, hvalue⟩ := Decoder.bind_eq_value.1 hvalue
  obtain ⟨_, _, hlength, hvalue⟩ := Decoder.bind_eq_value.1 hvalue
  obtain ⟨_, _, hdata, hvalue⟩ := Decoder.bind_eq_value.1 hvalue
  obtain ⟨hlength', hrest⟩ := Decoder.take_eq_value hdata
  cases hvalue
  -- The head is only asked for, and left where it is.
  rcases Decoder.demand_cases headSize input with ⟨-, hshort⟩ | ⟨-, hthere⟩
  · rw [hshort] at hdemand
    cases hdemand
  · rw [hthere] at hdemand
    cases hdemand
    refine ⟨hlength', ?_⟩
    rw [Decoder.eq_append_of_uint32 hseconds, Decoder.eq_append_of_uint32 hnanos,
      Decoder.eq_append_of_uint32 hcaptured, Decoder.eq_append_of_uint32 hlength, hrest]
    simp only [fields, List.flatten_cons, List.flatten_nil, List.append_assoc, List.append_nil]

/-- A scan that comes to the end has found all that there is. -/
theorem layout_scan {capacity : ℕ} {input : Bytes} (h : (scan capacity input).2 = none) :
    input = layout (scan capacity input).1 ∧ ∀ e ∈ (scan capacity input).1, e.IsPlain := by
  fun_induction scan capacity input with
  | case1 => exact ⟨rfl, List.forall_mem_nil _⟩
  | case3 input _ _ e rest hdecoder ih =>
    obtain ⟨hplain, hinput⟩ := Entry.eq_append_of_decoder hdecoder
    obtain ⟨hrest, hplains⟩ := ih h
    refine ⟨?_, List.forall_mem_cons.2 ⟨hplain, hplains⟩⟩
    rw [layout_cons, ← hrest, hinput]
  | _ => cases h

/-! ## Normal entries -/

theorem splitNanos_joinNanos {seconds nanos : UInt32} (h : nanos.toNat < nanosPerSecond) :
    splitNanos (joinNanos seconds nanos) = (seconds.toNat, nanos) := by
  have hdiv : (seconds.toNat * nanosPerSecond + nanos.toNat) / nanosPerSecond = seconds.toNat := by
    rw [nanosPerSecond] at h ⊢
    omega
  have hmod : (seconds.toNat * nanosPerSecond + nanos.toNat) % nanosPerSecond = nanos.toNat := by
    rw [nanosPerSecond] at h ⊢
    omega
  rw [splitNanos, joinNanos, hdiv, hmod, UInt32.ofNat_toNat]

namespace Entry

variable {e : Entry}

/-- The entry of the packet of an entry. -/
def normal (e : Entry) : Entry := entry e.toPacket

theorem normal_eq (e : Entry) : e.normal =
    { seconds := UInt32.ofNat (splitNanos e.timestamp).1
      nanos := (splitNanos e.timestamp).2
      captured := UInt32.ofNat e.data.length
      wireLength := e.wireLength
      data := e.data } := by
  simp only [normal, entry, toPacket, splitNanos, Packet.capturedLength]

theorem size_normal (e : Entry) : e.normal.size = e.size := by rw [normal_eq, size, size]

/-- Only nanoseconds of less than a second stay as they are. -/
theorem normal_eq_iff (h : e.IsPlain) : e.normal = e ↔ e.nanos.toNat < nanosPerSecond := by
  rw [normal_eq]
  constructor
  · intro hsame
    have hnanos : (splitNanos e.timestamp).2 = e.nanos := congrArg nanos hsame
    rw [← hnanos, toNat_splitNanos_snd]
    exact Nat.mod_lt _ (by decide)
  · intro hnanos
    rw [timestamp, splitNanos_joinNanos hnanos, h]
    simp only [UInt32.ofNat_toNat]

theorem isPlain_normal (h : e.IsPlain) : e.normal.IsPlain :=
  isPlain_entry (h ▸ e.captured.toNat_lt : e.data.length < 2 ^ 32)

end Entry

/-- Entries that are written alike are the same. -/
theorem layout_inj {entries entries' : List Entry} (hplain : ∀ e ∈ entries, e.IsPlain)
    (hplain' : ∀ e ∈ entries', e.IsPlain) (h : layout entries = layout entries') :
    entries = entries' := by
  induction entries generalizing entries' with
  | nil =>
    have hlength := length_le_length_layout entries'
    rw [← h] at hlength
    exact (List.eq_nil_of_length_eq_zero (Nat.le_zero.1 hlength)).symm
  | cons e entries ih =>
    rw [List.forall_mem_cons] at hplain
    have hread := Entry.decoder_fields hplain.1 (layout entries)
    rw [← layout_cons, h] at hread
    cases entries' with
    | nil => cases hread
    | cons e' entries' =>
      rw [List.forall_mem_cons] at hplain'
      rw [layout_cons, Entry.decoder_fields hplain'.1] at hread
      obtain ⟨rfl, hrest⟩ := Decoded.value.inj hread
      rw [ih hplain.2 hplain'.2 hrest.symm]

section Normal

variable {entries : List Entry}

theorem length_layout_normal (entries : List Entry) :
    (layout (entries.map Entry.normal)).length = (layout entries).length := by
  have hsize : Entry.size ∘ Entry.normal = Entry.size := funext Entry.size_normal
  rw [length_layout, length_layout, List.map_map, hsize]

theorem map_toPacket_normal (h : ∀ x ∈ entries, isTimely x.toPacket = true) :
    (entries.map Entry.normal).map Entry.toPacket = entries.map Entry.toPacket := by
  rw [List.map_map]
  exact List.map_congr_left fun x hx => toPacket_entry (h x hx)

variable (hplain : ∀ e ∈ entries, e.IsPlain)

include hplain

theorem isPlain_map_normal : ∀ e ∈ entries.map Entry.normal, e.IsPlain :=
  List.forall_mem_map.2 fun e he => Entry.isPlain_normal (hplain e he)

theorem layout_normal_eq_iff :
    layout (entries.map Entry.normal) = layout entries ↔
      ∀ e ∈ entries, e.nanos.toNat < nanosPerSecond := by
  have hsame : entries.map Entry.normal = entries ↔ ∀ e ∈ entries, e.normal = e := by
    conv => lhs; rhs; rw [← List.map_id entries]
    exact List.map_inj_left
  constructor
  · intro h e he
    exact (Entry.normal_eq_iff (hplain e he)).1
      (hsame.1 (layout_inj (isPlain_map_normal hplain) hplain h) e he)
  · intro h
    rw [hsame.2 fun e he => (Entry.normal_eq_iff (hplain e he)).2 (h e he)]

end Normal

/-! ## Reading a file to its end -/

/-- Some stream on the file, from some source of it and through some window, has
    this header and answers with these packets, and then that there are no
    more. -/
inductive IsRead (file : Bytes) : Header → List Packet → Prop where
  | intro {σ : Type} [ByteSource σ] {s s' : σ} {capacity : ℕ} {r : Stream}
      {packets : List Packet} : Delivers file s → Stream.start capacity s = (.ok r, s') →
        Produces Stream.next packets none r s' → IsRead file r.header packets

/-- A stream is not opened through a window without room for a header. -/
theorem Stream.le_capacity_of_start {σ : Type} [ByteSource σ] {s s' : σ} {file : Bytes}
    {capacity : ℕ} {r : Stream} (hs : Delivers file s)
    (hstart : start capacity s = (.ok r, s')) : Header.size ≤ capacity := by
  have hfetch := Window.fetches_fetch Header.stable_decoder (Window.ahead_of_delivers hs capacity)
  rw [start, ofWindow] at hstart
  rcases hresult : Window.fetch Header.decoder { capacity } s with ⟨fetched, window, s₁⟩
  rw [hresult] at hstart hfetch
  cases hfetch with
  | value hvalue hlength _ _ =>
    have hspan := Header.spans_decoder.value hvalue
    change _ ≤ _ + capacity at hlength
    omega
  | _ => cases hstart

/-- A window that has room for all entries together has room for each. -/
theorem isRead_layout {header : Header} (hmagic : header.magic = nanosecondMagic)
    {entries : List Entry} (hplain : ∀ e ∈ entries, e.IsPlain) :
    IsRead (header.fields.flatten ++ layout entries) header (entries.map Entry.toPacket) := by
  have hsteady : Tape.IsSteady { content := header.fields.flatten ++ layout entries } := by
    simp [Tape.IsSteady]
  have hsize : ∀ p ∈ entries.map Entry.toPacket,
      16 + p.data.length ≤ 24 + (layout entries).length := by
    refine List.forall_mem_map.2 fun e he => ?_
    rw [length_layout]
    exact Nat.le_add_left_of_le (List.le_sum_of_mem (List.mem_map_of_mem he))
  obtain ⟨r, t', hstart, rfl, hproduces, -⟩ :=
    readsBack_layout hmagic hplain (Tape.delivers hsteady) (Nat.le_add_right ..) hsize
  exact .intro (Tape.delivers hsteady) hstart hproduces

/-- There is nothing in a file that is read to its end but what is read. -/
theorem IsRead.exists_entries {file : Bytes} {header : Header} {packets : List Packet}
    (h : IsRead file header packets) : header.magic = nanosecondMagic ∧
      ∃ entries : List Entry, file = header.fields.flatten ++ layout entries ∧
        (∀ e ∈ entries, e.IsPlain) ∧ packets = entries.map Entry.toPacket := by
  obtain @⟨σ, _, s, s', capacity, r, packets, hs, hstart, hproduces⟩ := h
  have hcapacity := Stream.le_capacity_of_start hs hstart
  have hopen := Stream.ofWindow_cases hcapacity
    (show ([] : Bytes).length ≤ capacity from Nat.zero_le capacity) hs
  rw [List.nil_append] at hopen
  rw [Stream.start] at hstart
  cases hdecoder : Header.decoder file with
  | value header rest =>
    rw [hdecoder] at hopen
    obtain ⟨r', s'', hstart', rfl, -, hstands⟩ := hopen
    cases hstart.symm.trans hstart'
    obtain ⟨hmagic, rfl⟩ := Header.eq_append_of_decoder hdecoder
    obtain ⟨rfl, hnone⟩ :=
      hproduces.unique (hstands.produces (Nat.le_trans (by decide) hcapacity))
    obtain ⟨hlayout, hplain⟩ := layout_scan hnone.symm
    exact ⟨hmagic, (scan capacity rest).1, by rw [← hlayout], hplain, rfl⟩
  | short missing =>
    rw [hdecoder] at hopen
    obtain ⟨s'', hstart'⟩ := hopen
    cases hstart.symm.trans hstart'
  | refused failure =>
    rw [hdecoder] at hopen
    obtain ⟨s'', hstart'⟩ := hopen
    cases hstart.symm.trans hstart'

/-! ## Writing a file anew -/

/-- On any sink that never fails, a file that is begun with this header is
    written, packet by packet, with this result, and comes to these bytes. -/
structure IsWritten (header : Header) (packets : List Packet) (result : Except Failure Unit)
    (file : Bytes) : Prop where
  exists_putAll : ∀ {τ : Type} [ByteSink τ] {R : Bytes → τ → Prop} {t : τ}, IsIntake R → R [] t →
    ∃ e t₁ e' t', Encoder.start header t = (.ok e, t₁) ∧
      putAll Encoder.write packets e t₁ = (result, e', t') ∧ e'.bytes = file.length ∧ R file t'

/-- A file is written up to the first packet that is too late. -/
theorem isWritten_timely (header : Header) (packets : List Packet) :
    IsWritten header packets ((tooLate packets).elim (.ok ()) .error)
      (header.fields.flatten ++ layout ((timely packets).map entry)) := by
  refine ⟨fun {τ} _ {R t} hR ht => ?_⟩
  obtain ⟨t₁, hheader, hmirrors⟩ := (mirrors_new ht).writeFields hR header.fields
  obtain ⟨t', hagree, hmirrors'⟩ := hmirrors.putAll
    (fun e p h => Encoder.write_agrees hR h e p) packets { bytes := Header.size }
  rw [Encoder.putAll_write hmirrors.limit] at hagree hmirrors'
  rw [Spool.append_append] at hmirrors'
  refine ⟨{ bytes := Header.size }, t₁, _, t', ?_, hagree, ?_, hmirrors'.of_append⟩
  · rw [Encoder.start, hheader, Header.length_flatten_fields]
  · rw [List.length_append, Header.length_flatten_fields]

/-- The packets of entries with few enough seconds are written as their normal
    entries. -/
theorem isWritten_normal (header : Header) {entries : List Entry}
    (htimely : ∀ x ∈ entries, isTimely x.toPacket = true) :
    IsWritten header (entries.map Entry.toPacket) (.ok ())
      (header.fields.flatten ++ layout (entries.map Entry.normal)) := by
  have hnone : tooLate (entries.map Entry.toPacket) = none := by
    rw [tooLate, Option.map_eq_none_iff, List.find?_eq_none]
    intro p hp
    obtain ⟨x, hx, rfl⟩ := List.mem_map.1 hp
    simp [htimely x hx]
  have hwritten := isWritten_timely header (entries.map Entry.toPacket)
  rw [timely_eq_of_tooLate hnone, hnone, List.map_map] at hwritten
  exact hwritten

/-- The packet of an entry with too many seconds stops the writing. -/
theorem exists_isWritten_error (header : Header) {packets : List Packet} {p : Packet}
    (hp : p ∈ packets) (hlate : isTimely p = false) :
    ∃ q ∈ packets, isTimely q = false ∧ ∃ file,
      IsWritten header packets (.error (.timestampTooLate q.timestamp)) file := by
  have hwritten := isWritten_timely header packets
  cases hfind : packets.find? (!isTimely ·) with
  | none =>
    have hall := List.find?_eq_none.1 hfind p hp
    simp [hlate] at hall
  | some q =>
    rw [tooLate, hfind] at hwritten
    exact ⟨q, List.mem_of_find?_eq_some hfind, by simpa using List.find?_some hfind, _, hwritten⟩

/-- A file has been read to its end without a failure, and what was read, the
    header and the packets, is written again. Its entries are all that there is
    in it but for the header. Writing fails if the seconds of one of them, with
    those that are in its nanoseconds, have more than 32 bits. If not, the new
    file is as long as the old one, the same is read of it, and it is the old one
    just if no entry has a second in its nanoseconds. Reading it to its end and
    writing it again leaves it as it is. No timestamp has more than 64 bits. -/
theorem rewrite_normalizes {file : Bytes} {header : Header} {packets : List Packet}
    (h : IsRead file header packets) :
    ∃ entries : List Entry, file = header.fields.flatten ++ layout entries ∧
      (∀ x ∈ entries, x.data.length = x.captured.toNat) ∧
      packets = entries.map Entry.toPacket ∧
      ((∃ x ∈ entries, 2 ^ 32 * 10 ^ 9 ≤ x.seconds.toNat * 10 ^ 9 + x.nanos.toNat) →
        ∃ x ∈ entries, 2 ^ 32 * 10 ^ 9 ≤ x.seconds.toNat * 10 ^ 9 + x.nanos.toNat ∧
          ∃ part, IsWritten header packets (.error (.timestampTooLate x.timestamp)) part) ∧
      ((∀ x ∈ entries, x.seconds.toNat * 10 ^ 9 + x.nanos.toNat < 2 ^ 32 * 10 ^ 9) →
        ∃ file', IsWritten header packets (.ok ()) file' ∧ file'.length = file.length ∧
          ReadsBack file' header packets ∧
          (file' = file ↔ ∀ x ∈ entries, x.nanos.toNat < 10 ^ 9) ∧
          ∀ {header' packets'}, IsRead file' header' packets' →
            IsWritten header' packets' (.ok ()) file') ∧
      ∀ seconds nanos : UInt32,
        joinNanos seconds nanos = seconds.toNat * 10 ^ 9 + nanos.toNat ∧
          joinNanos seconds nanos < 2 ^ 64 := by
  obtain ⟨hmagic, entries, rfl, hplain, rfl⟩ := h.exists_entries
  have htimely (x : Entry) : isTimely x.toPacket = true ↔
      x.seconds.toNat * 10 ^ 9 + x.nanos.toNat < 2 ^ 32 * 10 ^ 9 := decide_eq_true_iff
  refine ⟨entries, rfl, hplain, rfl, ?_, fun hearly => ?_,
    fun seconds nanos => ⟨rfl, joinNanos_lt seconds nanos⟩⟩
  · rintro ⟨x, hx, hlate⟩
    have hlate' : isTimely x.toPacket = false := by
      rw [← Bool.not_eq_true, htimely]
      exact Nat.not_lt.2 hlate
    obtain ⟨q, hq, hqlate, hwritten⟩ :=
      exists_isWritten_error header (List.mem_map_of_mem hx) hlate'
    obtain ⟨y, hy, rfl⟩ := List.mem_map.1 hq
    rw [← Bool.not_eq_true, htimely, Nat.not_lt] at hqlate
    exact ⟨y, hy, hqlate, hwritten⟩
  · have hearly' : ∀ x ∈ entries, isTimely x.toPacket = true := fun x hx =>
      (htimely x).2 (hearly x hx)
    have hwritten := isWritten_normal header hearly'
    refine ⟨_, hwritten, ?_, ?_, ?_, ?_⟩
    · rw [List.length_append, List.length_append, length_layout_normal]
    · conv => rhs; rw [← map_toPacket_normal hearly']
      exact readsBack_layout hmagic (isPlain_map_normal hplain)
    · rw [List.append_right_inj, layout_normal_eq_iff hplain]
      rfl
    · intro header' packets' h'
      obtain ⟨hmagic', entries', hfile, hplain', rfl⟩ := h'.exists_entries
      -- There is only one way to read the new file.
      have hread := Header.decoder_fields hmagic (layout (entries.map Entry.normal))
      rw [hfile, Header.decoder_fields hmagic'] at hread
      obtain ⟨rfl, hlayout⟩ := Decoded.value.inj hread
      obtain rfl := layout_inj hplain' (isPlain_map_normal hplain) hlayout
      rw [map_toPacket_normal hearly']
      exact hwritten

/-- An entry with four seconds in its nanoseconds. -/
def carrying : Entry := ⟨1, 4294967295, 2, 3, [7, 8]⟩

/-- An entry whose last second is one too many. -/
def overflowing : Entry := ⟨4294967295, 1000000000, 1, 1, [9]⟩

theorem rewrite_normalizes_of_carrying :
    (∃ e t₁ e' t', Encoder.start unusualHeader ({} : Spool) = (.ok e, t₁) ∧
      putAll Encoder.write [carrying.toPacket] e t₁ = (.ok (), e', t') ∧
      t'.toBytes.length = 42 ∧
      t'.toBytes ≠ unusualHeader.fields.flatten ++ layout [carrying] ∧
      ReadsBack t'.toBytes unusualHeader [⟨5294967295, 3, [7, 8]⟩]) ∧
    ∃ e t₁ e' t', Encoder.start unusualHeader ({} : Spool) = (.ok e, t₁) ∧
      putAll Encoder.write [overflowing.toPacket] e t₁ =
        (.error (.timestampTooLate 4294967296000000000), e', t') := by
  have hnew : ({} : Spool).toBytes = [] ∧ ({} : Spool).limit = none ∧
      ({} : Spool).failsFlush = false := ⟨rfl, rfl, rfl⟩
  have hmagic : unusualHeader.magic = nanosecondMagic := rfl
  have hentries {x : Entry} {entries : List Entry} (hplain : ∀ e ∈ [x], e.IsPlain)
      (hplain' : ∀ e ∈ entries, e.IsPlain)
      (h : unusualHeader.fields.flatten ++ layout [x] =
        unusualHeader.fields.flatten ++ layout entries) : entries = [x] :=
    (layout_inj hplain hplain' (List.append_cancel_left h)).symm
  have hplain : ∀ e ∈ [carrying], e.IsPlain := by simp [Entry.IsPlain, carrying]
  have hplain' : ∀ e ∈ [overflowing], e.IsPlain := by simp [Entry.IsPlain, overflowing]
  constructor
  · obtain ⟨entries, hfile, hall, -, -, hearly, -⟩ :=
      rewrite_normalizes (isRead_layout hmagic hplain)
    obtain rfl := hentries hplain hall hfile
    obtain ⟨file, hwritten, hlength, hreads, hsame, -⟩ := hearly (by decide)
    obtain ⟨e, t₁, e', t', hstart, hput, -, rfl, -, -⟩ :=
      hwritten.exists_putAll Spool.isIntake hnew
    exact ⟨e, t₁, e', t', hstart, hput, hlength, fun h => absurd (hsame.1 h) (by decide), hreads⟩
  · obtain ⟨entries, hfile, hall, -, hlate, -⟩ :=
      rewrite_normalizes (isRead_layout hmagic hplain')
    obtain rfl := hentries hplain' hall hfile
    obtain ⟨x, hx, -, part, hwritten⟩ := hlate (by decide)
    obtain rfl := List.mem_singleton.1 hx
    obtain ⟨e, t₁, e', t', hstart, hput, -⟩ := hwritten.exists_putAll Spool.isIntake hnew
    exact ⟨e, t₁, e', t', hstart, hput⟩

end Pcap

end PacketTrace
