import Mathlib.Data.List.TakeWhile
import PacketTrace.Pcap.Encoder
import PacketTrace.Pcap.Stream
import PacketTrace.Proofs.Stream.Calls
import PacketTrace.Proofs.Stream.Spool
import PacketTrace.Proofs.Stream.Window

/-!
# Packet files are read as they were written

An encoder that goes through writes an entry for every packet, one after the
other (`Pcap.Encoder.putAll_write_eq_ok`); if its sink takes everything, only a
packet that is too late for the format stops it (`Pcap.Encoder.putAll_write`).
A stream with entries ahead of it (`Pcap.Stream.Ahead`) answers with their
packets in turn, unless it fails: its window may be too small.
-/

namespace PacketTrace

namespace Pcap

theorem Header.stable_decoder : Header.decoder.Stable := by
  refine Decoder.stable_uint32.bind fun magic => ?_
  split
  · exact Decoder.stable_refuse _
  · exact Decoder.stable_uint16.bind fun _ => Decoder.stable_uint16.bind fun _ =>
      Decoder.stable_int32.bind fun _ => Decoder.stable_uint32.bind fun _ =>
        Decoder.stable_uint32.bind fun _ => Decoder.stable_int32.bind fun _ =>
          Decoder.stable_pure _

namespace Entry

theorem stable_decoder : Entry.decoder.Stable :=
  (Decoder.stable_demand _).bind fun _ => Decoder.stable_uint32.bind fun _ =>
    Decoder.stable_uint32.bind fun _ => Decoder.stable_uint32.bind fun _ =>
      Decoder.stable_uint32.bind fun _ => (Decoder.stable_take _).bind fun _ =>
        Decoder.stable_pure _

/-- The entry tells its length. -/
def IsPlain (e : Entry) : Prop := e.data.length = e.captured.toNat

theorem isPlain_of_ofPacket {p : Packet} {e : Entry} (h : ofPacket p = .ok e)
    (hlength : p.data.length < 2 ^ 32) : e.IsPlain := by
  rw [ofPacket] at h
  split at h
  split at h
  · cases h
    exact (Nat.mod_eq_of_lt hlength).symm
  · cases h

end Entry

/-- The bytes of entries one after the other. -/
def layout (entries : List Entry) : Bytes := entries.flatMap fun e => e.fields.flatten

theorem layout_cons (e : Entry) (entries : List Entry) :
    layout (e :: entries) = e.fields.flatten ++ layout entries := rfl

theorem length_le_length_layout (entries : List Entry) :
    entries.length ≤ (layout entries).length := by
  induction entries with
  | nil => exact Nat.le_refl _
  | cons e entries ih =>
    rw [layout_cons, List.length_append, Entry.length_flatten_fields, Entry.size, Entry.headSize,
      List.length_cons]
    omega

/-! ## Writing -/

namespace Encoder

variable {e e' : Encoder} {s s' : Spool}

theorem start_eq_ok {header : Header} (h : start header s = (.ok e, s')) :
    s' = s.append header.fields.flatten := by
  rw [start] at h
  split at h
  next bytes s₁ hwrite =>
    cases h
    exact (Spool.writeFields_eq_ok hwrite).2
  · cases h

theorem write_eq_ok {p : Packet} (h : e.write p s = (.ok (), e', s')) :
    ∃ entry, Entry.ofPacket p = .ok entry ∧ s' = s.append entry.fields.flatten := by
  rw [write] at h
  split at h
  · cases h
  next entry hentry =>
    split at h
    · cases h
    next written s₁ hwrite =>
      cases h
      exact ⟨entry, hentry, (Spool.writeFields_eq_ok hwrite).2⟩

/-- Packets that are all accepted are written as their entries. -/
theorem putAll_write_eq_ok {packets : List Packet} (hlength : ∀ p ∈ packets, p.data.length < 2 ^ 32)
    (h : putAll write packets e s = (.ok (), e', s')) :
    ∃ entries, entries.map Entry.toPacket = packets ∧ (∀ entry ∈ entries, entry.IsPlain) ∧
      s' = s.append (layout entries) := by
  induction packets generalizing e s with
  | nil =>
    cases h
    exact ⟨[], rfl, by simp, (Spool.append_nil _).symm⟩
  | cons p packets ih =>
    rw [List.forall_mem_cons] at hlength
    obtain ⟨e₁, s₁, hwrite, hrest⟩ := putAll_cons_eq_ok h
    obtain ⟨entry, hentry, rfl⟩ := write_eq_ok hwrite
    obtain ⟨entries, rfl, hplain, rfl⟩ := ih hlength.2 hrest
    refine ⟨entry :: entries, ?_, ?_, Spool.append_append ..⟩
    · rw [List.map_cons, Entry.toPacket_of_ofPacket hentry]
    · exact List.forall_mem_cons.2 ⟨Entry.isPlain_of_ofPacket hentry hlength.1, hplain⟩

end Encoder

/-! ## On a spool that takes everything -/

/-- The seconds of the timestamp have 32 bits. -/
def isTimely (p : Packet) : Bool := p.timestamp < 2 ^ 32 * nanosPerSecond

/-- The entry of a packet, as the format has it. -/
def entry (p : Packet) : Entry where
  seconds := UInt32.ofNat (p.timestamp / nanosPerSecond)
  nanos := UInt32.ofNat (p.timestamp % nanosPerSecond)
  captured := p.capturedLength
  wireLength := p.wireLength
  data := p.data

theorem ofPacket_eq (p : Packet) : Entry.ofPacket p =
    if isTimely p then .ok (entry p) else .error (.timestampTooLate p.timestamp) := by
  have hiff : (splitNanos p.timestamp).1 < 2 ^ 32 ↔ isTimely p = true := by
    rw [isTimely, decide_eq_true_eq]
    exact Nat.div_lt_iff_lt_mul (by decide)
  simp only [Entry.ofPacket, hiff]
  rfl

theorem toPacket_entry {p : Packet} (h : isTimely p = true) : (entry p).toPacket = p :=
  Entry.toPacket_of_ofPacket (by rw [ofPacket_eq, if_pos h])

theorem isPlain_entry {p : Packet} (h : p.data.length < 2 ^ 32) : (entry p).IsPlain :=
  (Nat.mod_eq_of_lt h).symm

/-- The packets before the first one that is too late. -/
def timely (packets : List Packet) : List Packet := packets.takeWhile isTimely

/-- The failure to write the first packet that is too late, if there is one. -/
def tooLate (packets : List Packet) : Option Failure :=
  (packets.find? (!isTimely ·)).map (.timestampTooLate ·.timestamp)

theorem timely_eq_of_tooLate {packets : List Packet} (h : tooLate packets = none) :
    timely packets = packets := by
  rw [tooLate, Option.map_eq_none_iff, List.find?_eq_none] at h
  exact List.takeWhile_eq_self_iff.2 fun p hp => by simpa using h p hp

theorem Encoder.write_of_limit_eq_none {s : Spool} (hlimit : s.limit = none) (e : Encoder)
    (p : Packet) :
    e.write p s =
      if isTimely p then
        (.ok (), { bytes := e.bytes + (entry p).size, packets := e.packets + 1 },
          s.append (entry p).fields.flatten)
      else (.error (.timestampTooLate p.timestamp), e, s) := by
  rw [write, ofPacket_eq]
  cases isTimely p with
  | true =>
    simp only [if_true, Spool.writeFields_of_limit_eq_none hlimit, Entry.length_flatten_fields]
  | false => rfl

/-- Packets are written up to the first one that is too late. -/
theorem Encoder.putAll_write {s : Spool} (hlimit : s.limit = none) (e : Encoder)
    (packets : List Packet) :
    putAll write packets e s =
      ((tooLate packets).elim (.ok ()) .error,
        { bytes := e.bytes + (layout ((timely packets).map entry)).length
          packets := e.packets + (timely packets).length },
        s.append (layout ((timely packets).map entry))) := by
  induction packets generalizing e s with
  | nil =>
    change (_, e, s) = (_, e, s.append [])
    rw [Spool.append_nil]
    rfl
  | cons p packets ih =>
    rw [putAll, write_of_limit_eq_none hlimit, timely, tooLate]
    cases htimely : isTimely p with
    | true =>
      have hsize := (entry p).length_flatten_fields
      rw [if_pos rfl, List.takeWhile_cons_of_pos htimely,
        List.find?_cons_of_neg (by simp [htimely]), List.map_cons, layout_cons, ← timely,
        ← tooLate]
      simp only
      rw [ih (by exact hlimit), Spool.append_append, List.length_append, List.length_cons, hsize,
        Nat.add_assoc, Nat.add_assoc, Nat.add_comm 1]
    | false =>
      rw [if_neg Bool.false_ne_true, List.takeWhile_cons_of_neg (by simp [htimely]),
        List.find?_cons_of_pos (by simp [htimely])]
      change (_, e, s) = (_, e, s.append [])
      rw [Spool.append_nil]
      rfl

/-! ## Reading -/

namespace Stream

variable {σ : Type} [ByteSource σ] {r : Stream} {s s' : σ} {packets : List Packet}

/-- The entries of these packets are ahead of the stream, and no others. -/
def Ahead (r : Stream) (s : σ) (packets : List Packet) : Prop :=
  r.finished = false ∧ ∃ entries, entries.map Entry.toPacket = packets ∧
    (∀ entry ∈ entries, entry.IsPlain) ∧ r.window.Ahead s (layout entries)

theorem ahead_of_start {header : Header} {entries : List Entry} {capacity : ℕ}
    (hmagic : header.magic = nanosecondMagic) (hplain : ∀ entry ∈ entries, entry.IsPlain)
    (h : Delivers (header.fields.flatten ++ layout entries) s)
    (hstart : start capacity s = (.ok r, s')) : r.Ahead s' (entries.map Entry.toPacket) := by
  have hfetch := Window.fetches_fetch Header.stable_decoder (Window.ahead_of_delivers h capacity)
  rw [start, ofWindow] at hstart
  rcases hresult : Window.fetch Header.decoder { capacity } s with ⟨fetched, window, s₁⟩
  rw [hresult] at hstart hfetch
  cases hfetch with
  | value hvalue _ _ hahead =>
    rw [Header.decoder_fields hmagic] at hvalue
    cases hvalue
    cases hstart
    exact ⟨rfl, entries, rfl, hplain, hahead⟩
  | _ => cases hstart

theorem Ahead.length_le (h : r.Ahead s packets) :
    packets.length ≤ r.window.unread.length + ByteSource.bound s := by
  obtain ⟨-, entries, rfl, -, hahead⟩ := h
  rw [List.length_map]
  exact Nat.le_trans (length_le_length_layout entries) hahead.length_le

/-- A packet that the stream answers with is the next one. -/
theorem Ahead.packet (h : r.Ahead s packets) {p : Packet} (hnext : (r.next s).1 = .ok (some p)) :
    ∃ rest, packets = p :: rest ∧ (r.next s).2.1.Ahead (r.next s).2.2 rest := by
  obtain ⟨hfinished, entries, rfl, hplain, hahead⟩ := h
  have hfetch := Window.fetches_fetch Entry.stable_decoder hahead
  rw [next, if_neg (by simp [hfinished])] at hnext ⊢
  rcases hresult : r.window.fetch Entry.decoder s with ⟨fetched, window, s₁⟩
  rw [hresult] at hnext hfetch
  cases hfetch with
  | value hvalue _ _ hahead' =>
    cases entries with
    | nil => cases hvalue
    | cons entry entries =>
      rw [List.forall_mem_cons] at hplain
      rw [layout_cons, Entry.decoder_fields hplain.1] at hvalue
      cases hvalue
      cases hnext
      exact ⟨_, rfl, hfinished, entries, rfl, hplain.2, hahead'⟩
  | _ => cases hnext

/-- At the end of the stream no packets are left. -/
theorem Ahead.ended (h : r.Ahead s packets) (hnext : (r.next s).1 = .ok none) : packets = [] := by
  obtain ⟨hfinished, entries, rfl, -, hahead⟩ := h
  have hfetch := Window.fetches_fetch Entry.stable_decoder hahead
  rw [next, if_neg (by simp [hfinished])] at hnext
  rcases hresult : r.window.fetch Entry.decoder s with ⟨fetched, window, s₁⟩
  rw [hresult] at hnext hfetch
  cases hfetch with
  | ended hnil =>
    cases entries with
    | nil => rfl
    | cons entry entries =>
      have hlength := congrArg List.length hnil
      rw [layout_cons, List.length_append, Entry.length_flatten_fields, Entry.size,
        Entry.headSize, List.length_nil] at hlength
      omega
  | _ => cases hnext

end Stream

end Pcap

end PacketTrace
