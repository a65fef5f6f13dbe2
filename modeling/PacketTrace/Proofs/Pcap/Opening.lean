import PacketTrace.Proofs.Pcap.Streaming

/-!
# Opening a packet file through any window

What comes of opening a packet file depends on its first bytes, on the capacity
of the window, and on nothing else (`Pcap.opening`). A window that has no room for
a whole header never opens a file. It reports its own limit, unless the magic
number is found to be wrong before, or the file to end.

* `Pcap.Stream.start_eq_opening`: a stream is opened so, from any source.
-/

namespace PacketTrace

namespace Pcap

/-- The header of a file that is opened through a window of some capacity, or why
    it is not. The magic number is read first, and alone. -/
def opening (capacity : ℕ) (input : Bytes) : Except Failure Header :=
  if capacity < 4 then .error .windowTooSmall
  else match Header.decoder input with
    | .value header _ => if capacity < Header.size then .error .windowTooSmall else .ok header
    | .refused failure => .error failure
    | .short missing =>
      if capacity < input.length + missing then .error .windowTooSmall else .error .truncatedInput

/-- A file is only opened through a window that has room for its header. -/
theorem size_le_of_opening {capacity : ℕ} {input : Bytes} {header : Header}
    (h : opening capacity input = .ok header) :
    Header.size ≤ capacity := by
  rw [opening] at h
  split at h
  · cases h
  · split at h
    · split at h
      · cases h
      next hsize => exact Nat.le_of_not_lt hsize
    · cases h
    · split at h <;> cases h

namespace Header

theorem insists_decoder : decoder.Insists := by
  refine Decoder.insists_uint32.bind fun magic => ?_
  split
  · exact Decoder.insists_refuse _
  · exact Decoder.insists_uint16.bind fun _ => Decoder.insists_uint16.bind fun _ =>
      Decoder.insists_int32.bind fun _ => Decoder.insists_uint32.bind fun _ =>
        Decoder.insists_uint32.bind fun _ => Decoder.insists_int32.bind fun _ =>
          Decoder.insists_pure _

/-- A header that is refused with more bytes lacked some of the magic number. -/
theorem length_add_le_of_refused {unread more : Bytes} {missing : ℕ} {failure : Failure}
    (hshort : decoder unread = .short missing) (h : decoder (unread ++ more) = .refused failure) :
    unread.length + missing ≤ 4 := by
  rcases Decoder.bind_eq_short.1 hshort with hmagic | ⟨magic, mid, hmagic, hrest⟩
  · exact Decoder.spans_uint32.short hmagic
  · rw [decoder, Decoder.bind_of_eq_value (Decoder.stable_uint32.value hmagic more)] at h
    split at h
    next hne =>
      rw [if_pos hne] at hrest
      cases hrest
    · simp [Decoder.bind_eq_refused] at h

end Header

namespace Stream

variable {σ : Type} [ByteSource σ] {s : σ} {capacity : ℕ} {input : Bytes}

/-- A window without room for the magic number is not read into. -/
theorem start_of_lt (hsmall : capacity < 4) (s : σ) :
    start capacity s = (.error .windowTooSmall, s) := by
  have hshort : Header.decoder [] = .short 4 := rfl
  rw [start, ofWindow, Window.fetch_new_of_lt hshort hsmall]

/-- A source that fails at once is not opened. -/
theorem start_of_read_error {s' : σ} {cause : DeviceFailure} (hcapacity : 4 ≤ capacity)
    (h : ByteSource.read capacity s = (.error cause, s')) :
    start capacity s = (.error (.device cause), s') := by
  have hshort : Header.decoder [] = .short 4 := rfl
  rw [start, ofWindow, Window.fetch_new_of_read_error hshort hcapacity h]

/-- What comes of opening a file depends on its bytes and on the capacity only. -/
theorem start_eq_opening (h : Delivers input s) (capacity : ℕ) :
    match opening capacity input with
    | .error failure => ∃ s', start capacity s = (.error failure, s')
    | .ok header => ∃ r s' rest, start capacity s = (.ok r, s') ∧ r.header = header ∧
        Header.decoder input = .value header rest ∧ r.StandsAt capacity rest s' := by
  rcases Nat.lt_or_ge capacity 4 with hlt | hge
  · rw [opening, if_pos hlt]
    exact ⟨s, start_of_lt hlt s⟩
  · obtain ⟨w', s', hfetch, hvalue⟩ := Window.fetch_eq_outcome Header.stable_decoder
      (Window.isSettled_of_open rfl) (Window.ahead_of_delivers h capacity)
      fun hpart hshort hlarge => Window.outcome_of_large Header.insists_decoder hpart hshort hlarge
        fun failure hrefused => by
          obtain ⟨more, rfl⟩ := hpart
          have hle := Header.length_add_le_of_refused hshort hrefused
          exact absurd hlarge (Nat.not_lt.2 (Nat.le_trans hle hge))
    rw [opening, if_neg (Nat.not_lt.2 hge), start, ofWindow, hfetch]
    cases hdecoder : Header.decoder input with
    | value header rest =>
      have hspan := Header.spans_decoder.value hdecoder
      by_cases hsmall : capacity < Header.size
      · simp only [Window.outcome, hdecoder, if_pos hsmall]
        rw [if_neg (by omega)]
        exact ⟨s', rfl⟩
      · have houtcome : Window.outcome Header.decoder capacity input = .value header :=
          Window.outcome_of_value hdecoder (by omega)
        obtain ⟨hopen, hcapacity, rest', hdecoder', hahead⟩ := hvalue houtcome
        cases hdecoder.symm.trans hdecoder'
        simp only [houtcome, if_neg hsmall]
        exact ⟨_, s', rest, rfl, rfl, rfl, rfl, hopen, hcapacity, hahead⟩
    | refused failure =>
      simp only [Window.outcome, hdecoder]
      exact ⟨s', rfl⟩
    | short missing =>
      simp only [Window.outcome, hdecoder]
      by_cases hroom : capacity < input.length + missing
      · simp only [if_pos hroom]
        exact ⟨s', rfl⟩
      · simp only [if_neg hroom]
        by_cases hnil : input = []
        · rw [if_pos hnil]
          exact ⟨s', rfl⟩
        · rw [if_neg hnil]
          exact ⟨s', rfl⟩

end Stream

end Pcap

end PacketTrace
