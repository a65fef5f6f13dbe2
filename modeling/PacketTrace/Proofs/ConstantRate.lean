import PacketTrace.ConstantRate
import PacketTrace.Proofs.Binary64.Order
import PacketTrace.Proofs.Clock.Cycles
import PacketTrace.Proofs.Conversion.Export
import PacketTrace.Proofs.Conversion.Import
import PacketTrace.Proofs.Replay.Acceptance

/-!
# Traffic at a constant rate can be imported

The times of a schedule are products with its spacing, rounded. All that is done to
come to them keeps the order, so they are in order, whatever the spacing is. An
infinite spacing makes the first product no number, which counts for none, and all
others as late as can be (`Schedule.timestamp_mono`).

An encoder that is given packets in order, none of which is too long, has nothing
against them but that a tag may not hold the wait between two of them
(`Replay.IsOutcome.of_fits`). So nothing else can be wrong with a file of traffic.

* `Schedule.writePcap_eq`: a schedule is written as its packets are;
* `ConstantRate.isTraffic_packets`: the packets of the traffic;
* `ConstantRate.importable`: what is read of the file, and what comes of importing it.
-/

namespace PacketTrace

/-! ## Packets that are known -/

namespace Pcap

variable {τ : Type} [ByteSink τ]

theorem writeAll_eq_ok {R : Bytes → τ → Prop} {t t' : τ} (hR : IsIntake R) (ht : R [] t)
    {packets : List Packet} {tally : Tally} (h : writeAll none packets t = (.ok tally, t')) :
    (∀ p ∈ packets, isTimely p = true) ∧
      R (({} : Header).fields.flatten ++ layout (packets.map entry)) t' ∧
      tally.packets = packets.length ∧
      tally.bytes = (({} : Header).fields.flatten ++ layout (packets.map entry)).length := by
  obtain ⟨result, t₁, output, hwrite, htaken, houtcome⟩ := writeAll_outcome hR ht none packets
  rw [h] at hwrite
  cases hwrite
  obtain ⟨hlate, -, rfl, houtput⟩ := houtcome.of_ok
  rw [← houtput]
  refine ⟨?_, htaken, rfl, rfl⟩
  rw [tooLate, Option.map_eq_none_iff, List.find?_eq_none] at hlate
  simpa using hlate

end Pcap

/-! ## Packets in order -/

namespace Replay

variable {packets : List Packet} {output : Bytes}

/-- Packets in order that all fit are accepted, unless no tag can hold the wait
    between two of them. -/
theorem accept_of_fits (hfits : ∀ p ∈ packets, Fits p)
    (hsorted : packets.IsChain (·.timestamp ≤ ·.timestamp)) :
    accept packets = .ok () ∨ ∃ cycles, accept packets = .error (.gapTooLong cycles) := by
  rw [accept]
  rcases hput : putAll Encoder.push packets {} ({} : Spool) with ⟨failure | _, e, s⟩
  · obtain ⟨before, p, after, e₁, s₁, rfl, hbefore, hpush⟩ := putAll_eq_error hput
    obtain ⟨written, rfl, haccepted⟩ := Encoder.accepted_of_putAll hbefore
    rw [List.append_cons] at hsorted hfits
    have hfits : Fits p := hfits p (by simp)
    rcases haccepted.push_cases (s := ({} : Spool).append written) rfl hfits
      hsorted.left_of_append with ⟨e', s', haccept⟩ | ⟨cycles, -, -, e', hrefuse⟩
    · cases hpush.symm.trans haccept
    · cases hpush.symm.trans hrefuse
      exact .inr ⟨cycles, rfl⟩
  · exact .inl rfl

theorem IsOutcome.of_fits {result : Except Failure Tally} (h : IsOutcome packets none result output)
    (hfits : ∀ p ∈ packets, Fits p) (hsorted : packets.IsChain (·.timestamp ≤ ·.timestamp)) :
    result = .ok ⟨packets.length, output.length⟩ ∨
      ∃ cycles, result = .error (.gapTooLong cycles) := by
  rw [IsOutcome.eq_def] at h
  rcases accept_of_fits hfits hsorted with haccept | ⟨cycles, haccept⟩
  · rw [haccept] at h
    exact .inl h.1
  · rw [haccept] at h
    exact .inr ⟨cycles, h.1⟩

end Replay

/-- A file of packets in order that all fit is imported from any source, to any sink
    that never fails, unless no tag can hold the wait between two of them. -/
theorem pcapToReplay_of_fits {σ υ : Type} [ByteSource σ] [ByteSink υ] {R : Bytes → υ → Prop} {s : σ}
    {u : υ} {capacity : ℕ} {packets : List Packet} (hR : IsIntake R) (hu : R [] u)
    (htimely : ∀ p ∈ packets, Pcap.isTimely p = true)
    (hlength : ∀ p ∈ packets, p.data.length < 2 ^ 32)
    (hfits : ∀ p ∈ packets, Replay.Fits p)
    (hsorted : packets.IsChain (·.timestamp ≤ ·.timestamp))
    (hs : Delivers (({} : Pcap.Header).fields.flatten ++ Pcap.layout (packets.map Pcap.entry)) s)
    (hcapacity : 24 ≤ capacity) (hroom : ∀ p ∈ packets, 16 + p.data.length ≤ capacity) :
    ∃ result s' u', pcapToReplay capacity (s, u) = (result, s', u') ∧
      ((∃ bytes, result = .ok ⟨packets.length, bytes⟩) ∨
        ∃ cycles, result = .error (.gapTooLong cycles)) := by
  have hmagic : ({} : Pcap.Header).magic = nanosecondMagic := rfl
  have hplain : ∀ e ∈ packets.map Pcap.entry, e.IsPlain :=
    List.forall_mem_map.2 fun p hp => Pcap.isPlain_entry (hlength p hp)
  obtain ⟨r, s₁, hstart, -, hproduces, -⟩ :=
    Pcap.readsBack_layout_map hmagic htimely hlength hs hcapacity hroom
  have hbound := (Pcap.Stream.ahead_of_start hmagic hplain hs hstart).length_le
  rw [List.length_map, List.length_map] at hbound
  obtain ⟨result, s', u', output, hwrite, -, houtcome⟩ :=
    writeReplay_outcome hR hu hproduces (Nat.lt_succ_of_le hbound)
  refine ⟨result, s', u', ?_, (houtcome.of_fits hfits hsorted).imp_left fun h => ⟨_, h⟩⟩
  rw [pcapToReplay, Pcap.Stream.start_pair, hstart]
  exact hwrite

/-! ## Schedules -/

namespace Schedule

variable {t : Schedule}

/-- All packets, in order of their numbers. -/
def packets (t : Schedule) : List Packet := (List.range t.count).map t.packet

/-- The packets from a number on are put into an encoder one after the other. -/
theorem transfer_next {σ ο : Type} {put : ο → Packet → σ → Except Failure Unit × ο × σ}
    {i n : ℕ} (h : t.count - i < n) (encoder : ο) (s : σ) :
    transfer t.next put n i encoder s =
      cutOff none (putAll put ((List.range' i (t.count - i)).map t.packet) encoder s) := by
  induction n generalizing i encoder s with
  | zero => exact absurd h (Nat.not_lt_zero _)
  | succ n ih =>
    rw [transfer, next]
    by_cases hi : i < t.count
    · have hcount : t.count - i = t.count - (i + 1) + 1 := by omega
      rw [if_pos hi, hcount, List.range'_succ, List.map_cons, putAll]
      rcases hput : put encoder (t.packet i) s with ⟨_ | _, encoder', s'⟩
      · simp only [hput]
        rfl
      · simp only [hput]
        exact ih (by omega) encoder' s'
    · rw [if_neg hi, Nat.sub_eq_zero_of_le (Nat.le_of_not_lt hi)]
      rfl

theorem transfer_all {σ ο : Type} (t : Schedule)
    (put : ο → Packet → σ → Except Failure Unit × ο × σ) (encoder : ο) (s : σ) :
    transfer t.next put (t.count + 1) 0 encoder s =
      cutOff none (putAll put t.packets encoder s) := by
  rw [transfer_next (by omega), Nat.sub_zero, ← List.range_eq_range', packets]

/-! ### Times -/

/-- Natural numbers that fit in 64 bits are converted to finite ones. -/
theorem isFinite_ofNat {i : ℕ} (hi : i < 2 ^ 64) : (Binary64.ofNat i).isFinite = true := by
  have hstorable : Binary64.Storable (2 ^ 64) := by
    simpa using Binary64.storable_mul_two_pow (m := 1) 64 (by norm_num) (by norm_num)
  exact (Binary64.below_ofNat hstorable (by exact_mod_cast hi.le)).finite

/-- The first packet is sent at once, also if the spacing is infinite, where the
    product is no number. -/
theorem timestamp_zero (h : t.spacing.Above 0) : t.timestamp 0 = 0 := by
  have hzero : Binary64.ofNat 0 = Binary64.zero false := by decide +kernel
  rw [timestamp, hzero]
  by_cases hspacing : t.spacing.isFinite = true
  · have hquanta : (Binary64.zero false).quanta = 0 := by decide
    have hnearest : Binary64.nearest false 0 Binary64.quantaPerOne = Binary64.zero false := by
      decide +kernel
    rw [Binary64.mul_eq_nearest (Binary64.denotes_zero false) ⟨hspacing, rfl⟩, h.positive, hquanta,
      Nat.zero_mul]
    simp only [Binary64.zero, bne_self_eq_false] at hnearest ⊢
    rw [hnearest]
    decide +kernel
  · rw [h.eq_infinity (by simpa using hspacing)]
    decide +kernel

/-- If the spacing is infinite, all other packets are sent at the end of time. -/
theorem timestamp_of_infinite (h : t.spacing.Above 0) (hspacing : t.spacing.isFinite = false)
    {i : ℕ} (hi : 0 < i) : t.timestamp i = 2 ^ 64 - 1 := by
  rw [timestamp, h.eq_infinity hspacing, Binary64.ofNat_mul_infinity hi]
  decide +kernel

/-- Later packets are not sent earlier. -/
theorem timestamp_mono (h : t.spacing.Above 0) {i j : ℕ} (hij : i ≤ j) (hj : j < 2 ^ 64) :
    t.timestamp i ≤ t.timestamp j := by
  by_cases hspacing : t.spacing.isFinite = true
  · have hnumbers := Binary64.precedes_ofNat hij
    exact (hnumbers.mul (isFinite_ofNat hj) hspacing h.positive).round.toCount_le
  · rw [Bool.not_eq_true] at hspacing
    rcases Nat.eq_zero_or_pos i with rfl | hi
    · rw [timestamp_zero h]
      exact Nat.zero_le _
    · rw [timestamp_of_infinite h hspacing hi,
        timestamp_of_infinite h hspacing (Nat.lt_of_lt_of_le hi hij)]

/-! ### Packets -/

theorem timestamp_packet (t : Schedule) (i : ℕ) : (t.packet i).timestamp = t.timestamp i := by
  simp only [packet]

theorem length_packets (t : Schedule) : t.packets.length = t.count := by
  rw [packets, List.length_map, List.length_range]

/-- All packets are the frame. -/
theorem packet_of_mem {p : Packet} (hp : p ∈ t.packets) :
    p.wireLength = UInt32.ofNat t.frame.length ∧ p.data = t.frame := by
  obtain ⟨i, -, rfl⟩ := List.mem_map.1 hp
  exact ⟨rfl, rfl⟩

theorem timestamp_of_first (h : 0 < t.count → t.spacing.Above 0) {p : Packet}
    (hp : t.packets[0]? = some p) : p.timestamp = 0 := by
  rcases Nat.eq_zero_or_pos t.count with hzero | hpos
  · rw [packets, hzero] at hp
    cases hp
  · rw [packets, List.getElem?_map, List.getElem?_range hpos] at hp
    obtain rfl := Option.some.inj hp
    rw [timestamp_packet]
    exact timestamp_zero (h hpos)

/-- The packets are sent one after the other, if they can be counted. -/
theorem isChain_packets (h : 0 < t.count → t.spacing.Above 0) (hcount : t.count < 2 ^ 64) :
    t.packets.IsChain (·.timestamp ≤ ·.timestamp) := by
  rw [packets, List.isChain_map, List.isChain_range]
  intro i hi
  simp only [timestamp_packet]
  exact timestamp_mono (h (by omega)) (Nat.le_succ i) (by omega)

/-- The packets are written one after the other. -/
theorem writePcap_eq {τ : Type} [ByteSink τ] (t : Schedule) (s : τ) :
    t.writePcap s = Pcap.writeAll none t.packets s := by
  rw [writePcap, Pcap.writeAll]
  rcases Pcap.Encoder.start {} s with ⟨_ | encoder, s₁⟩
  · rfl
  · rcases hput : cutOff none (putAll Pcap.Encoder.write t.packets encoder s₁) with ⟨_ | _, s₂⟩ <;>
      simp only [transfer_all, hput]

end Schedule

namespace ConstantRate

variable {c : ConstantRate}

/-- If there are packets, the seconds between them are above zero. -/
theorem above_interval (h : 0 < c.count) : c.interval.Above 0 := by
  have hlt : (Binary64.zero false).lt c.interval = true := by
    by_contra hnot
    simp [count, hnot] at h
  rw [Binary64.lt, Bool.and_eq_true, Bool.and_eq_true, decide_eq_true_eq] at hlt
  have hpositive : c.interval.negative = false := by
    by_contra hnot
    have hplace := hlt.2
    have hzero : (Binary64.zero false).place = 0 := rfl
    rw [hzero, Binary64.place, if_pos (by simpa using hnot)] at hplace
    omega
  exact ⟨hpositive, by simpa using hlt.1.2, fun _ => Binary64.toRat_nonneg hpositive⟩

theorem above_spacing (h : 0 < c.count) : c.schedule.spacing.Above 0 :=
  (above_interval h).mul denotes_nanosPerSecond rfl (by norm_num) ⟨_, Binary64.denotes_zero false⟩
    (by norm_num)

theorem length_frame (c : ConstantRate) : c.frame.length = c.frameLength := by
  rw [frame, List.length_append, List.length_replicate, List.length_take]
  omega

theorem count_lt (c : ConstantRate) : c.count < 2 ^ 64 := by
  rw [count]
  split
  · exact Nat.lt_of_le_of_lt (Binary64.toCount_le_max _) (by decide)
  · exact Nat.two_pow_pos 64

theorem count_schedule (c : ConstantRate) : c.schedule.count = c.count := by
  rw [schedule]

theorem frame_schedule (c : ConstantRate) : c.schedule.frame = c.frame := by
  rw [schedule]

/-- The packets of the traffic: as many as there are to be, in order from the time
    zero on, and each of them the frame. -/
structure IsTraffic (c : ConstantRate) (packets : List Packet) : Prop where
  length : packets.length = c.count
  first : ∀ p, packets[0]? = some p → p.timestamp = 0
  sorted : packets.IsChain (·.timestamp ≤ ·.timestamp)
  wireLength : ∀ p ∈ packets, p.wireLength.toNat = c.frameLength
  capturedLength : ∀ p ∈ packets, p.capturedLength.toNat = c.frameLength
  data : ∀ p ∈ packets, p.data = c.frame

/-- The packets of the schedule are those of the traffic, if the frame is one that
    the replay hardware can store. -/
theorem isTraffic_packets (h : c.frameLength ≤ Replay.packetLimit) :
    c.IsTraffic c.schedule.packets := by
  have hframe : (UInt32.ofNat c.frame.length).toNat = c.frameLength := by
    rw [Replay.packetLimit] at h
    rw [length_frame, UInt32.toNat_ofNat', Nat.mod_eq_of_lt (by omega)]
  have hspacing : 0 < c.schedule.count → c.schedule.spacing.Above 0 := by
    rw [count_schedule]
    exact above_spacing
  have hcount : c.schedule.count < 2 ^ 64 := c.count_schedule ▸ c.count_lt
  constructor
  · rw [Schedule.length_packets, count_schedule]
  · exact fun p hp => Schedule.timestamp_of_first hspacing hp
  · exact Schedule.isChain_packets hspacing hcount
  · intro p hp
    rw [(Schedule.packet_of_mem hp).1, frame_schedule, hframe]
  · intro p hp
    rw [Packet.capturedLength, (Schedule.packet_of_mem hp).2, frame_schedule, hframe]
  · intro p hp
    rw [(Schedule.packet_of_mem hp).2, frame_schedule]

/-! ### The file -/

variable {packets : List Packet}

/-- The frame is one that the replay hardware can store. -/
theorem IsTraffic.fits (h : c.IsTraffic packets) (hshort : c.frameLength ≤ Replay.packetLimit) :
    ∀ p ∈ packets, Replay.Fits p := by
  intro p hp
  constructor
  · rw [h.capturedLength p hp]
    exact hshort
  · rw [h.wireLength p hp]
    exact hshort

theorem IsTraffic.length_data (h : c.IsTraffic packets) :
    ∀ p ∈ packets, p.data.length = c.frameLength := by
  intro p hp
  rw [h.data p hp, length_frame]

/-- The length of a file of the traffic. -/
theorem IsTraffic.length_file (h : c.IsTraffic packets) :
    (({} : Pcap.Header).fields.flatten ++ Pcap.layout (packets.map Pcap.entry)).length =
      24 + c.count * (16 + c.frameLength) := by
  have hsizes : (packets.map Pcap.entry).map Pcap.Entry.size =
      List.replicate c.count (16 + c.frameLength) := by
    rw [← h.length, List.map_map, List.eq_replicate_iff]
    refine ⟨List.length_map _, List.forall_mem_map.2 fun p hp => ?_⟩
    rw [← h.length_data p hp]
    rfl
  rw [List.length_append, Pcap.Header.length_flatten_fields, Pcap.length_layout, hsizes,
    List.sum_replicate_nat]
  rfl

/-- The traffic is written as its packets are. -/
theorem writePcap_eq {τ : Type} [ByteSink τ] {t : τ} (hshort : c.frameLength ≤ Replay.packetLimit) :
    c.writePcap t = Pcap.writeAll none c.schedule.packets t := by
  rw [writePcap, if_neg (Nat.not_lt.2 hshort), Schedule.writePcap_eq]

/-- Traffic is only written if the frame is one that the replay hardware can store. -/
theorem frameLength_le_of_writePcap {τ : Type} [ByteSink τ] {t t' : τ} {tally : Tally}
    (h : c.writePcap t = (.ok tally, t')) : c.frameLength ≤ Replay.packetLimit := by
  by_contra hlong
  rw [writePcap, if_pos (Nat.lt_of_not_le hlong)] at h
  cases h

/-- Traffic that is written, to any sink that never fails, is written as a file of as
    many packets as there are to be. From any source, these are the packets that are
    read of it. If it is imported, to any sink that never fails, through a window with
    room for a header and for an entry of the frame, then all packets are, or there is
    one that no tag can hold the wait for. -/
theorem importable {τ : Type} [ByteSink τ] {R : Bytes → τ → Prop} {t t' : τ} (hR : IsIntake R)
    (ht : R [] t) {tally : Tally} (h : c.writePcap t = (.ok tally, t')) :
    ∃ file packets, R file t' ∧ tally = ⟨c.count, file.length⟩ ∧
      file.length = 24 + c.count * (16 + c.frameLength) ∧
      Pcap.ReadsBack file {} packets ∧ c.IsTraffic packets ∧
      ∀ {σ υ : Type} [ByteSource σ] [ByteSink υ] {R' : Bytes → υ → Prop} {s : σ} {u : υ}
        {capacity : ℕ}, Delivers file s → IsIntake R' → R' [] u → 24 ≤ capacity →
          16 + c.frameLength ≤ capacity →
            ∃ result s' u', pcapToReplay capacity (s, u) = (result, s', u') ∧
              ((∃ bytes, result = .ok ⟨c.count, bytes⟩) ∨
                ∃ cycles, result = .error (.gapTooLong cycles)) := by
  have hshort := frameLength_le_of_writePcap h
  have htraffic := isTraffic_packets hshort
  rw [writePcap_eq hshort] at h
  -- The number of packets is not to be computed.
  generalize c.schedule.packets = packets at h htraffic
  obtain ⟨htimely, htaken, hpackets, hbytes⟩ := Pcap.writeAll_eq_ok hR ht h
  have hlength : ∀ p ∈ packets, p.data.length < 2 ^ 32 := by
    intro p hp
    rw [htraffic.length_data p hp]
    exact Nat.lt_of_le_of_lt hshort (by decide)
  refine ⟨_, packets, htaken, ?_, htraffic.length_file,
    Pcap.readsBack_layout_map rfl htimely hlength, htraffic, ?_⟩
  · rw [← htraffic.length, ← hpackets, ← hbytes]
  · intro σ υ _ _ R' s u capacity hs hR' hu hcapacity hroom
    have hrooms : ∀ p ∈ packets, 16 + p.data.length ≤ capacity := by
      intro p hp
      rw [htraffic.length_data p hp]
      exact hroom
    rw [← htraffic.length]
    exact pcapToReplay_of_fits hR' hu htimely hlength (htraffic.fits hshort) htraffic.sorted hs
      hcapacity hrooms

/-- Two short frames, at twenty-one nanoseconds from one to the other. -/
def twoFrames : ConstantRate where
  frameLength := 2
  duration := Binary64.ofRatio false 5 100000000

theorem importable_of_twoFrames :
    ∃ t' packets s' u', twoFrames.writePcap ({} : Spool) = (.ok ⟨2, 60⟩, t') ∧
      t'.toBytes.length = 60 ∧ Pcap.ReadsBack t'.toBytes {} packets ∧ packets.length = 2 ∧
      (∀ p ∈ packets, p.data = [0x53, 0]) ∧
      pcapToReplay 24 (({ content := t'.toBytes, reads := [.upTo 7] } : Tape), ({} : Spool)) =
        (.ok ⟨2, 64⟩, s', u') := by
  have hcount : twoFrames.count = 2 := by decide +kernel
  have hnew : ({} : Spool).toBytes = [] ∧ ({} : Spool).limit = none ∧
      ({} : Spool).failsFlush = false := ⟨rfl, rfl, rfl⟩
  have himported : (pcapToReplay 24 (({ content := (twoFrames.writePcap ({} : Spool)).2.toBytes
                                        reads := [.upTo 7] } : Tape), ({} : Spool))).1 =
      .ok ⟨2, 64⟩ := by decide +kernel
  have hwritten : (twoFrames.writePcap ({} : Spool)).1 = .ok ⟨2, 60⟩ := by decide +kernel
  rcases hwrite : twoFrames.writePcap ({} : Spool) with ⟨result, t'⟩
  rw [hwrite] at himported hwritten
  obtain rfl : result = .ok ⟨2, 60⟩ := hwritten
  obtain ⟨_, packets, ⟨rfl, -, -⟩, htally, -, hreads, htraffic, himports⟩ :=
    importable Spool.isIntake hnew hwrite
  have hsteady : Tape.IsSteady { content := t'.toBytes, reads := [.upTo 7] } := by
    simp [Tape.IsSteady]
  obtain ⟨result, s', u', himport, -⟩ :=
    himports (Tape.delivers hsteady) Spool.isIntake hnew (show 24 ≤ 24 by decide) (by decide)
  rw [himport] at himported
  obtain rfl : result = .ok ⟨2, 64⟩ := himported
  exact ⟨t', packets, s', u', rfl, (congrArg Tally.bytes htally).symm, hreads,
    htraffic.length.trans hcount, htraffic.data, himport⟩

end ConstantRate

end PacketTrace
