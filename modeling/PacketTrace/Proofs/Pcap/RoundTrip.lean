import PacketTrace.Proofs.Conversion.Simulation
import PacketTrace.Proofs.Pcap.Streaming
import PacketTrace.Proofs.Stream.Intake

/-!
# Packet files are read as they were written

Packets may be written one after the other whatever becomes of each. One that
is too late for the format is refused, and leaves nothing behind; all others
have an entry in the file. A stream on the file answers with the header and
with the packets of these entries, and has then consumed the file to its end.

* `Encoder.putEach_write`: what is written, on a spool that takes everything;
* `readsBack_layout`: what is read of a file with any header (`ReadsBack`);
* `readsBack_putEach`: hence what is read of a file that was written to any sink
  that never fails.
-/

namespace PacketTrace

namespace Pcap

/-! ## Writing -/

/-- What becomes of a packet that is written. -/
def writeResult (p : Packet) : Except Failure Unit :=
  if isTimely p then .ok () else .error (.timestampTooLate p.timestamp)

/-- A packet that is too late is refused, and leaves nothing behind. -/
theorem Encoder.write_of_not_isTimely {τ : Type} [ByteSink τ] (e : Encoder) (t : τ) {p : Packet}
    (h : isTimely p = false) : e.write p t = (.error (.timestampTooLate p.timestamp), e, t) := by
  rw [write, ofPacket_eq, h]
  rfl

/-- What is left behind is what the packets that are not too late leave. -/
theorem Encoder.putEach_write_eq {s : Spool} (hlimit : s.limit = none) (e : Encoder)
    (packets : List Packet) :
    putEach write packets e s =
      (packets.map writeResult, (putAll write (packets.filter isTimely) e s).2) := by
  induction packets generalizing e s with
  | nil => rfl
  | cons p packets ih =>
    rw [putEach, List.map_cons, writeResult]
    cases htimely : isTimely p with
    | true =>
      rw [List.filter_cons_of_pos htimely, putAll, write_of_limit_eq_none hlimit, if_pos htimely]
      simp only
      rw [ih (by exact hlimit)]
      rfl
    | false =>
      rw [List.filter_cons_of_neg (by simp [htimely]), write_of_not_isTimely e s htimely]
      simp only
      rw [ih hlimit]
      rfl

/-- There is an entry for each packet that is not too late. -/
theorem Encoder.putEach_write {s : Spool} (hlimit : s.limit = none) (e : Encoder)
    (packets : List Packet) :
    putEach write packets e s =
      (packets.map writeResult,
        { bytes := e.bytes + (layout ((packets.filter isTimely).map entry)).length
          packets := e.packets + (packets.filter isTimely).length },
        s.append (layout ((packets.filter isTimely).map entry))) := by
  have htimely : timely (packets.filter isTimely) = packets.filter isTimely :=
    List.takeWhile_eq_self_iff.2 fun p hp => (List.mem_filter.1 hp).2
  rw [putEach_write_eq hlimit, putAll_write hlimit, htimely]

theorem Encoder.write_agrees {τ : Type} [ByteSink τ] {R : Bytes → τ → Prop} {spool : Spool} {t : τ}
    (hR : IsIntake R) (h : Mirrors R spool t) (e : Encoder) (p : Packet) :
    Agrees R (e.write p spool) (e.write p t) :=
  Encoder.write_alike (isWriteSimulation_mirrors hR) h e p

/-! ## Reading -/

/-- From any source of these bytes, and through any window that has room for a
    header and for each entry, a stream reads this header and these packets, and
    no others. After a call it has consumed the entries that it and those before
    it answered with, and at last all of the file. -/
def ReadsBack (file : Bytes) (header : Header) (packets : List Packet) : Prop :=
  ∀ {τ : Type} [ByteSource τ] {t : τ} {capacity : ℕ}, Delivers file t → 24 ≤ capacity →
    (∀ p ∈ packets, 16 + p.data.length ≤ capacity) →
      ∃ r t', Stream.start capacity t = (.ok r, t') ∧ r.header = header ∧
        Produces Stream.next packets none r t' ∧
        ∀ n, (stateAfter (Function.uncurry Stream.next) (r, t') n).1.consumed =
            24 + ((packets.take n).map (16 + ·.data.length)).sum ∧
          (packets.length ≤ n →
            (stateAfter (Function.uncurry Stream.next) (r, t') n).1.consumed = file.length)

theorem length_layout (entries : List Entry) :
    (layout entries).length = (entries.map Entry.size).sum := by
  induction entries with
  | nil => rfl
  | cons e entries ih =>
    rw [layout_cons, List.length_append, Entry.length_flatten_fields, ih, List.map_cons,
      List.sum_cons]

/-- Entries that tell their lengths are read as their packets. -/
theorem readsBack_layout {header : Header} (hmagic : header.magic = nanosecondMagic)
    {entries : List Entry} (hplain : ∀ e ∈ entries, e.IsPlain) :
    ReadsBack (header.fields.flatten ++ layout entries) header (entries.map Entry.toPacket) := by
  intro τ _ t capacity ht hcapacity hsize
  have hscan := scan_layout hplain (List.forall_mem_map.1 hsize)
  have hsizes : (entries.map Entry.toPacket).map (16 + ·.data.length) = entries.map Entry.size :=
    List.map_map
  have hopen := Stream.ofWindow_cases hcapacity
    (show ([] : Bytes).length ≤ capacity from Nat.zero_le capacity) ht
  rw [List.nil_append, Header.decoder_fields hmagic] at hopen
  obtain ⟨r, t', hstart, hheader, hconsumed, hstands⟩ := hopen
  have hanswer := hstands.answer (Nat.le_trans (by decide) hcapacity)
  rw [hscan, hconsumed] at hanswer
  refine ⟨r, t', hstart, hheader, fun n => (hanswer n).1, fun n => ?_⟩
  have hafter := (hanswer n).2
  rw [List.map_take, ← hsizes, ← List.map_take] at hafter
  refine ⟨hafter, fun hn => ?_⟩
  rw [hafter, List.take_of_length_le hn, List.length_append, Header.length_flatten_fields,
    length_layout, hsizes]

/-- Packets that are not too late are read as they were written. -/
theorem readsBack_layout_map {header : Header} (hmagic : header.magic = nanosecondMagic)
    {packets : List Packet} (htimely : ∀ p ∈ packets, isTimely p = true)
    (hlength : ∀ p ∈ packets, p.data.length < 2 ^ 32) :
    ReadsBack (header.fields.flatten ++ layout (packets.map entry)) header packets := by
  have hplain : ∀ e ∈ packets.map entry, e.IsPlain :=
    List.forall_mem_map.2 fun p hp => isPlain_entry (hlength p hp)
  have hpackets : (packets.map entry).map Entry.toPacket = packets := by
    rw [List.map_map]
    exact (List.map_congr_left fun p hp => toPacket_entry (htimely p hp)).trans (List.map_id _)
  conv => rhs; rw [← hpackets]
  exact readsBack_layout hmagic hplain

/-- A file is begun with any header whose timestamps have nanoseconds, on a sink
    that never fails, and packets are written to it whatever becomes of each.
    Those with `2 ^ 32` seconds or more are refused, and leave the encoder and the
    sink as they were. The others are what is read of the file, after the same
    header. -/
theorem readsBack_putEach {τ : Type} [ByteSink τ] {R : Bytes → τ → Prop} {t : τ} (hR : IsIntake R)
    (ht : R [] t) {header : Header} (hmagic : header.magic = nanosecondMagic)
    {packets : List Packet} (hlength : ∀ p ∈ packets, p.data.length < 2 ^ 32) :
    ∃ e t₁ e' t' file, Encoder.start header t = (.ok e, t₁) ∧
      putEach Encoder.write packets e t₁ = (packets.map writeResult, e', t') ∧
      (∀ p ∈ packets, 2 ^ 32 * 10 ^ 9 ≤ p.timestamp → ∀ (e : Encoder) (t : τ),
        e.write p t = (.error (.timestampTooLate p.timestamp), e, t)) ∧
      R file t' ∧ e'.bytes = file.length ∧ e'.packets = (packets.filter isTimely).length ∧
      ReadsBack file header (packets.filter isTimely) := by
  obtain ⟨t₁, hheader, hmirrors⟩ := (mirrors_new ht).writeFields hR header.fields
  obtain ⟨t', hagree, hmirrors'⟩ := hmirrors.putEach
    (fun e p h => Encoder.write_agrees hR h e p) packets { bytes := Header.size }
  rw [Encoder.putEach_write hmirrors.limit] at hagree hmirrors'
  rw [Spool.append_append] at hmirrors'
  refine ⟨{ bytes := Header.size }, t₁, _, t', _, ?_, hagree, ?_, hmirrors'.of_append, ?_,
    Nat.zero_add _, readsBack_layout_map hmagic (fun p hp => (List.mem_filter.1 hp).2) fun p hp =>
      hlength p (List.mem_filter.1 hp).1⟩
  · rw [Encoder.start, hheader, Header.length_flatten_fields]
  · intro p _ hlate e t
    refine Encoder.write_of_not_isTimely e t ?_
    exact decide_eq_false (Nat.not_lt.2 hlate)
  · rw [List.length_append, Header.length_flatten_fields]

/-- A header in which no field is as usual, but for the magic number. -/
def unusualHeader : Header where
  versionMajor := 3
  versionMinor := 65535
  zoneOffset := -3600
  accuracy := 4294967295
  snapLength := 0
  linkType := ⟨-1⟩

theorem readsBack_putEach_of_lateSecond :
    ∃ e t₁ e' t' r u, Encoder.start unusualHeader ({} : Spool) = (.ok e, t₁) ∧
      putEach Encoder.write
          [⟨4294967295999999999, 2, [7, 8]⟩, ⟨4294967296000000000, 1, [9]⟩, ⟨5, 3, []⟩] e t₁ =
        ([.ok (), .error (.timestampTooLate 4294967296000000000), .ok ()], e', t') ∧
      e'.bytes = t'.toBytes.length ∧
      Stream.start 24 ({ content := t'.toBytes, reads := [.upTo 1, .upTo 30] } : Tape) =
        (.ok r, u) ∧
      r.header = unusualHeader ∧
      Produces Stream.next [⟨4294967295999999999, 2, [7, 8]⟩, ⟨5, 3, []⟩] none r u := by
  have hnew : ({} : Spool).toBytes = [] ∧ ({} : Spool).limit = none ∧
      ({} : Spool).failsFlush = false := ⟨rfl, rfl, rfl⟩
  have hmagic : unusualHeader.magic = nanosecondMagic := rfl
  have hlength : ∀ p ∈ ([⟨4294967295999999999, 2, [7, 8]⟩, ⟨4294967296000000000, 1, [9]⟩,
      ⟨5, 3, []⟩] : List Packet), p.data.length < 2 ^ 32 := by decide
  obtain ⟨e, t₁, e', t', file, hstart, hput, -, ⟨rfl, -, -⟩, hbytes, -, hreads⟩ :=
    readsBack_putEach Spool.isIntake hnew hmagic hlength
  have hsteady : Tape.IsSteady { content := t'.toBytes, reads := [.upTo 1, .upTo 30] } := by
    simp [Tape.IsSteady]
  obtain ⟨r, u, hread, hheader, hproduces, -⟩ :=
    hreads (Tape.delivers hsteady) (show 24 ≤ 24 by decide) (by decide)
  exact ⟨e, t₁, e', t', r, u, hstart, hput, hbytes, hread, hheader, hproduces⟩

end Pcap

end PacketTrace
