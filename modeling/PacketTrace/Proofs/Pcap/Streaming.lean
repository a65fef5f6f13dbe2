import Mathlib.Algebra.GroupWithZero.Nat
import PacketTrace.Proofs.Pcap.Entry
import PacketTrace.Proofs.Pcap.File

/-!
# Streaming a packet file is decoding it

The entries of a packet file are decoded one after the other from what follows
its header (`Pcap.scan`). A stream on the file answers with their packets, call
by call, however the source cuts the file into pieces and however much of it is
in the window from the start. It stops where the bytes end, at an entry that is
cut off, or at the head of one that is longer than the window.

* `Pcap.scan_layout`: entries are decoded as they were written;
* `Pcap.Stream.StandsAt.answer`: the answers of a stream at any place in a file,
  and the bytes that it has consumed;
* `Pcap.Stream.ofWindow_cases`: how a file is opened;
* `Pcap.stream_eq_scan`: hence what is read of a file.
-/

namespace PacketTrace

namespace Pcap

/-! ## Decoding a file -/

/-- The entries that are decoded one after the other, and what cuts them off, if
    anything does: the head of an entry that is longer than `capacity`, or an
    entry that is not there whole. -/
def scan (capacity : ℕ) (input : Bytes) : List Entry × Option Failure :=
  if input = [] then ([], none)
  else if Entry.headSize ≤ input.length ∧ capacity < Entry.span input then
    ([], some .windowTooSmall)
  else match _h : Entry.decoder input with
    | .value e rest => (e :: (scan capacity rest).1, (scan capacity rest).2)
    | .short _ => ([], some .truncatedInput)
    | .refused failure => ([], some failure)
termination_by input.length
decreasing_by exact Entry.decoder_rest_lt _h

variable {capacity : ℕ} {input : Bytes}

/-- What a fetch of an entry comes to is the first step of a scan. -/
theorem outcome_decoder (hcapacity : Entry.headSize ≤ capacity) (input : Bytes) :
    Window.outcome Entry.decoder capacity input =
      if input = [] then .ended
      else if Entry.headSize ≤ input.length ∧ capacity < Entry.span input then
        .failed .windowTooSmall
      else match Entry.decoder input with
        | .value e _ => .value e
        | .short _ => .failed .truncatedInput
        | .refused failure => .failed failure := by
  have hne (hlong : Entry.headSize ≤ input.length) : input ≠ [] :=
    List.ne_nil_of_length_pos (by rw [Entry.headSize] at hlong; omega)
  rcases Entry.decoder_cases input with
    ⟨hshort, heq⟩ | ⟨hlong, hcut, heq⟩ | ⟨hwhole, e, -, heq⟩
  · rw [Window.outcome_of_short heq (by omega), heq, if_neg (not_and_of_not_left _ (by omega))]
  · have hneed : input.length + (Entry.span input - input.length) = Entry.span input := by omega
    simp only [Window.outcome, heq, hneed, hne hlong, hlong, if_false, true_and]
  · have hlong : Entry.headSize ≤ input.length := Nat.le_trans (Nat.le_add_right _ _) hwhole
    have hroom : input.length ≤ (input.drop (Entry.span input)).length + capacity ↔
        ¬ capacity < Entry.span input := by
      rw [List.length_drop]
      omega
    simp only [Window.outcome, heq, hroom, hne hlong, hlong, if_false, true_and, ite_not]

/-- An entry that lacks more than there is room for is longer than the window. -/
theorem outcome_decoder_of_large (hcapacity : Entry.headSize ≤ capacity) {unread : Bytes}
    {missing : ℕ} (hpart : unread <+: input) (hshort : Entry.decoder unread = .short missing)
    (hlarge : capacity < unread.length + missing) :
    Window.outcome Entry.decoder capacity input = .failed .windowTooSmall := by
  obtain ⟨more, rfl⟩ := hpart
  rcases Entry.decoder_cases unread with ⟨_, heq⟩ | ⟨hlong, hcut, heq⟩ | ⟨-, e, -, heq⟩ <;>
    rw [heq] at hshort <;> cases hshort
  · omega
  · have hspan := Entry.span_append hlong more
    have hlong' : Entry.headSize ≤ (unread ++ more).length := by
      rw [List.length_append]
      omega
    have hne : unread ++ more ≠ [] :=
      List.ne_nil_of_length_pos (by rw [Entry.headSize] at hlong'; omega)
    rw [outcome_decoder hcapacity, if_neg hne, if_pos ⟨hlong', by omega⟩]

/-- Every entry takes up some of the input. -/
theorem length_scan_le (capacity : ℕ) (input : Bytes) :
    (scan capacity input).1.length ≤ input.length := by
  fun_induction scan capacity input with
  | case3 input _ _ e rest hdecoder ih =>
    exact Nat.lt_of_le_of_lt ih (Entry.decoder_rest_lt hdecoder)
  | _ => exact Nat.zero_le _

/-- Entries that fit in the window are decoded as they were written. -/
theorem scan_layout {entries : List Entry} (hplain : ∀ e ∈ entries, e.IsPlain)
    (hsize : ∀ e ∈ entries, e.size ≤ capacity) :
    scan capacity (layout entries) = (entries, none) := by
  induction entries with
  | nil =>
    rw [scan]
    exact if_pos rfl
  | cons e entries ih =>
    rw [List.forall_mem_cons] at hplain hsize
    have hdecoder := Entry.decoder_fields hplain.1 (layout entries)
    have hspan := (Entry.eq_drop_of_value hdecoder).2.1
    have hne : e.fields.flatten ++ layout entries ≠ [] := by
      intro hnil
      have hlt := Entry.decoder_rest_lt hdecoder
      rw [hnil] at hlt
      exact Nat.not_lt_zero _ hlt
    rw [layout_cons, scan, if_neg hne, if_neg (by omega)]
    split
    next heq =>
      rw [hdecoder] at heq
      cases heq
      rw [ih hplain.2 hsize.2]
    all_goals
      next heq =>
        rw [hdecoder] at heq
        cases heq

/-! ## Streaming it -/

namespace Stream

variable {σ : Type} [ByteSource σ] {r r' : Stream} {s s' : σ} {rest : Bytes}

/-- The stream has not met its end, and these bytes are ahead of its window. -/
structure StandsAt (capacity : ℕ) (rest : Bytes) (r : Stream) (s : σ) : Prop where
  finished : r.finished = false
  opened : r.window.exhausted = false
  capacity_eq : r.window.capacity = capacity
  ahead : r.window.Ahead s rest

theorem next_of_finished (h : r.finished = true) (s : σ) : r.next s = (.ok none, r, s) := by
  rw [next, if_pos h]

/-- After its last answer a stream has no more packets. -/
theorem answer_of_last {failure : Option Failure} (h : r.next s = (answerOf [] failure 0, r', s'))
    (hfinished : r'.finished = true) (hconsumed : r'.consumed = r.consumed) (n : ℕ) :
    answer (Function.uncurry next) (r, s) n = answerOf [] failure n ∧
      (stateAfter (Function.uncurry next) (r, s) n).1.consumed = r.consumed := by
  have hcall : Function.uncurry next (r, s) = (answerOf [] failure 0, r', s') := h
  have hfixed : Function.uncurry next (r', s') = (.ok none, r', s') := next_of_finished hfinished s'
  have hstate : (Function.uncurry next (r', s')).2 = (r', s') := congrArg Prod.snd hfixed
  cases n with
  | zero => exact ⟨congrArg Prod.fst hcall, rfl⟩
  | succ n =>
    rw [answer_succ, stateAfter, hcall, answer, stateAfter_of_fixed hstate, hfixed]
    exact ⟨by cases failure <;> rfl, hconsumed⟩

theorem StandsAt.fetch (h : r.StandsAt capacity rest s) (hcapacity : Entry.headSize ≤ capacity) :
    ∃ w' s', r.window.fetch Entry.decoder s = (Window.outcome Entry.decoder capacity rest, w', s') ∧
      ∀ {e}, Window.outcome Entry.decoder capacity rest = .value e →
        ∃ rest', Entry.decoder rest = .value e rest' ∧
          StandsAt capacity rest' { r with window := w', consumed := r.consumed + e.size } s' := by
  obtain ⟨w', s', hfetch, hvalue⟩ := Window.fetch_eq_outcome Entry.stable_decoder
    (Window.isSettled_of_open h.opened) h.ahead
    (outcome_decoder_of_large (by rwa [h.capacity_eq]))
  rw [h.capacity_eq] at hfetch hvalue
  refine ⟨w', s', hfetch, fun he => ?_⟩
  obtain ⟨hopen, hcap, rest', hdecoder, hahead⟩ := hvalue he
  exact ⟨rest', hdecoder, h.finished, hopen, hcap, hahead⟩

/-- A stream that comes to its end, or to a failure, answers with it and then no
    more. -/
theorem StandsAt.answer_of_outcome (h : r.StandsAt capacity rest s)
    (hcapacity : Entry.headSize ≤ capacity) (failure : Option Failure)
    (hlast : Window.outcome Entry.decoder capacity rest = failure.elim .ended .failed) (n : ℕ) :
    answer (Function.uncurry next) (r, s) n = answerOf [] failure n ∧
      (stateAfter (Function.uncurry next) (r, s) n).1.consumed = r.consumed := by
  obtain ⟨w', s', hfetch, -⟩ := h.fetch hcapacity
  rw [hlast] at hfetch
  have hnext : r.next s =
      (answerOf [] failure 0, { r with window := w', finished := true }, s') := by
    rw [next, if_neg (by simp [h.finished]), hfetch]
    cases failure <;> rfl
  exact answer_of_last hnext rfl rfl n

/-- A stream answers with the packets that a scan of what is ahead of it finds,
    and then with what cuts them off. It has consumed their entries. -/
theorem StandsAt.answer (h : r.StandsAt capacity rest s) (hcapacity : Entry.headSize ≤ capacity)
    (n : ℕ) :
    answer (Function.uncurry next) (r, s) n =
        answerOf ((scan capacity rest).1.map Entry.toPacket) (scan capacity rest).2 n ∧
      (stateAfter (Function.uncurry next) (r, s) n).1.consumed =
        r.consumed + (((scan capacity rest).1.take n).map Entry.size).sum := by
  have houtcome := outcome_decoder hcapacity rest
  fun_induction scan capacity rest generalizing r s n with
  | case1 =>
    rw [List.take_nil]
    exact h.answer_of_outcome hcapacity none houtcome n
  | case2 rest hne hlarge =>
    rw [if_neg hne, if_pos hlarge] at houtcome
    rw [List.take_nil]
    exact h.answer_of_outcome hcapacity (some _) houtcome n
  | case3 rest hne hsmall e rest' hdecoder ih =>
    rw [if_neg hne, if_neg hsmall, hdecoder] at houtcome
    obtain ⟨w', s', hfetch, hvalue⟩ := h.fetch hcapacity
    obtain ⟨rest'', hdecoder', hstands⟩ := hvalue houtcome
    rw [hdecoder] at hdecoder'
    cases hdecoder'
    have hcall : Function.uncurry next (r, s) = (.ok (some e.toPacket),
        { r with window := w', consumed := r.consumed + e.size }, s') := by
      change r.next s = _
      rw [next, if_neg (by simp [h.finished]), hfetch, houtcome]
    cases n with
    | zero => exact ⟨congrArg Prod.fst hcall, rfl⟩
    | succ n =>
      obtain ⟨hanswer, hconsumed⟩ := ih hstands n (outcome_decoder hcapacity rest')
      rw [answer_succ, stateAfter, hcall]
      refine ⟨hanswer, hconsumed.trans ?_⟩
      rw [List.take_succ_cons, List.map_cons, List.sum_cons, ← Nat.add_assoc]
  | case4 rest hne hsmall missing hdecoder =>
    rw [if_neg hne, if_neg hsmall, hdecoder] at houtcome
    rw [List.take_nil]
    exact h.answer_of_outcome hcapacity (some _) houtcome n
  | case5 rest hne hsmall failure hdecoder =>
    rw [if_neg hne, if_neg hsmall, hdecoder] at houtcome
    rw [List.take_nil]
    exact h.answer_of_outcome hcapacity (some _) houtcome n

theorem StandsAt.produces (h : r.StandsAt capacity rest s) (hcapacity : Entry.headSize ≤ capacity) :
    Produces next ((scan capacity rest).1.map Entry.toPacket) (scan capacity rest).2 r s :=
  fun n => (h.answer hcapacity n).1

/-- There are no more packets to come than bytes. -/
theorem StandsAt.length_scan_le (h : r.StandsAt capacity rest s) :
    (scan capacity rest).1.length ≤ r.window.unread.length + ByteSource.bound s :=
  Nat.le_trans (Pcap.length_scan_le capacity rest) h.ahead.length_le

/-! ## Opening it -/

/-- A window that has room for a header does not come to its limits with it. -/
theorem outcome_header (hcapacity : Header.size ≤ capacity) (input : Bytes) :
    Window.outcome Header.decoder capacity input =
      match Header.decoder input with
      | .value header _ => .value header
      | .refused failure => .failed failure
      | .short _ => if input = [] then .ended else .failed .truncatedInput := by
  cases hdecoder : Header.decoder input with
  | value header rest =>
    have hspan := Header.spans_decoder.value hdecoder
    exact Window.outcome_of_value hdecoder (by omega)
  | refused failure => exact Window.outcome_of_refused hdecoder
  | short missing =>
    exact Window.outcome_of_short hdecoder
      (Nat.le_trans (Header.spans_decoder.short hdecoder) hcapacity)

/-- A file is opened if its header is decoded, and fails as that does, or for
    want of bytes. It may be opened with some of its bytes in the window. -/
theorem ofWindow_cases {start later : Bytes} (hcapacity : Header.size ≤ capacity)
    (hstart : start.length ≤ capacity) (h : Delivers later s) :
    match Header.decoder (start ++ later) with
    | .value header rest => ∃ r s', ofWindow { capacity, unread := start } s = (.ok r, s') ∧
        r.header = header ∧ r.consumed = Header.size ∧ r.StandsAt capacity rest s'
    | .refused failure => ∃ s', ofWindow { capacity, unread := start } s = (.error failure, s')
    | .short _ =>
      ∃ s', ofWindow { capacity, unread := start } s = (.error .truncatedInput, s') := by
  have hahead : Window.Ahead { capacity, unread := start } s (start ++ later) :=
    ⟨later, rfl, h, by simp, hstart⟩
  have houtcome := outcome_header hcapacity (start ++ later)
  obtain ⟨w', s', hfetch, hvalue⟩ := Window.fetch_eq_outcome Header.stable_decoder
    (Window.isSettled_of_open rfl) hahead
    fun {unread missing} _ hshort hlarge =>
      absurd hlarge (Nat.not_lt.2 (Nat.le_trans (Header.spans_decoder.short hshort) hcapacity))
  rw [ofWindow, hfetch]
  cases hdecoder : Header.decoder (start ++ later) with
  | value header rest =>
    rw [hdecoder] at houtcome
    obtain ⟨hopen, hcap, rest', hdecoder', hahead'⟩ := hvalue houtcome
    rw [hdecoder] at hdecoder'
    cases hdecoder'
    rw [houtcome]
    exact ⟨_, s', rfl, rfl, rfl, rfl, hopen, hcap, hahead'⟩
  | refused failure =>
    rw [hdecoder] at houtcome
    rw [houtcome]
    exact ⟨s', rfl⟩
  | short missing =>
    rw [hdecoder] at houtcome
    rw [houtcome]
    refine ⟨s', ?_⟩
    by_cases hnil : start ++ later = []
    · rw [if_pos hnil]
    · rw [if_neg hnil]

end Stream

/-- A packet file, of which the first bytes may be in the window already, is
    opened if its header is decoded, through any window that has room for a
    header, and else fails as that does. The calls that follow answer with the
    packets of the entries after the header, however the source is cut into
    reads: in turn, up to the end of the file, to an entry that is not there
    whole, or to the head of one that the window has no room for. After a call
    the entries that it and those before it answered with have been consumed. -/
theorem stream_eq_scan {σ : Type} [ByteSource σ] {s : σ} {start later : Bytes}
    (hs : Delivers later s) (hcapacity : 24 ≤ capacity) (hstart : start.length ≤ capacity) :
    match Header.decoder (start ++ later) with
    | .value header rest =>
      ∃ r s', Stream.ofWindow { capacity, unread := start } s = (.ok r, s') ∧ r.header = header ∧
        ∀ n, answer (Function.uncurry Stream.next) (r, s') n =
            answerOf ((scan capacity rest).1.map Entry.toPacket) (scan capacity rest).2 n ∧
          (stateAfter (Function.uncurry Stream.next) (r, s') n).1.consumed =
            24 + (((scan capacity rest).1.take n).map Entry.size).sum
    | .refused failure => (∃ magic, failure = .unsupportedMagic magic) ∧
        ∃ s', Stream.ofWindow { capacity, unread := start } s = (.error failure, s')
    | .short _ =>
      ∃ s', Stream.ofWindow { capacity, unread := start } s = (.error .truncatedInput, s') := by
  have hopen := Stream.ofWindow_cases hcapacity hstart hs
  cases hdecoder : Header.decoder (start ++ later) with
  | value header rest =>
    rw [hdecoder] at hopen
    obtain ⟨r, s', hr, hheader, hconsumed, hstands⟩ := hopen
    refine ⟨r, s', hr, hheader, fun n => ?_⟩
    have hanswer := hstands.answer (Nat.le_trans (by decide) hcapacity) n
    rwa [hconsumed] at hanswer
  | refused failure =>
    rw [hdecoder] at hopen
    exact ⟨Header.decoder_eq_refused hdecoder, hopen⟩
  | short missing =>
    rw [hdecoder] at hopen
    exact hopen

/-- A packet file of one entry with two bytes, and the head of one with nine. -/
def longSecond : Bytes :=
  ({} : Header).fields.flatten ++ [1, 0, 0, 0, 5, 0, 0, 0, 2, 0, 0, 0, 3, 0, 0, 0, 7, 8] ++
    [1, 0, 0, 0, 6, 0, 0, 0, 9, 0, 0, 0, 9, 0, 0, 0]

theorem stream_eq_scan_of_longSecond :
    ∃ r s', Stream.ofWindow { capacity := 24, unread := longSecond.take 10 }
        ({ content := longSecond.drop 10, reads := [.upTo 3, .upTo 20, .upTo 1] } : Tape) =
          (.ok r, s') ∧
      answer (Function.uncurry Stream.next) (r, s') 0 = .ok (some ⟨1000000005, 3, [7, 8]⟩) ∧
      answer (Function.uncurry Stream.next) (r, s') 1 = .error .windowTooSmall ∧
      (stateAfter (Function.uncurry Stream.next) (r, s') 2).1.consumed = 42 := by
  have hsteady : Tape.IsSteady
      { content := longSecond.drop 10, reads := [.upTo 3, .upTo 20, .upTo 1] } := by
    simp [Tape.IsSteady]
  have hdecoder : Header.decoder (longSecond.take 10 ++ longSecond.drop 10) =
      .value {} (longSecond.drop 24) := by decide +kernel
  have hscan : scan 24 (longSecond.drop 24) =
      ([⟨1, 5, 2, 3, [7, 8]⟩], some .windowTooSmall) := by decide +kernel
  have hstream := stream_eq_scan (Tape.delivers hsteady) (show 24 ≤ 24 by decide)
    (show (longSecond.take 10).length ≤ 24 by decide)
  rw [hdecoder] at hstream
  obtain ⟨r, s', hr, -, hcalls⟩ := hstream
  rw [hscan] at hcalls
  exact ⟨r, s', hr, (hcalls 0).1, (hcalls 1).1, (hcalls 2).2⟩

end Pcap

end PacketTrace
