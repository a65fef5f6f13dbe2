import PacketTrace.Proofs.Capture.Streaming

/-!
# Streaming a capture trace through any window

Whether a record fits in a window does not depend on how the source is cut into
reads. So there is one sequence of packets, and one failure that may cut them
off, that streams answer with through windows of the same capacity, wherever
the trace comes from: also if the capacity is so small that it is less than
that of a tag (`Capture.Stream.exists_allProduce`).
-/

namespace PacketTrace

namespace Capture

/-- There is no record ahead if there is nothing, or the tag that ends a trace. -/
theorem outcome_last_iff (stored : UInt64 → ℕ) {capacity : ℕ} {rest : Bytes}
    (hcapacity : 8 ≤ capacity) (hlength : rest = [] ∨ 8 ≤ rest.length) :
    (Window.outcome (Trace.Record.decoder stored) capacity rest = .value none ∨
      Window.outcome (Trace.Record.decoder stored) capacity rest = .ended) ↔
        rest = [] ∨ Trace.Record.headTag rest = Trace.endTag := by
  rcases hlength with rfl | hlong
  · have hshort : Trace.Record.decoder stored [] = .short 8 :=
      Trace.Record.decoder_of_lt (by decide)
    simp [Window.outcome_of_short hshort (by simpa using hcapacity)]
  · have hne : rest ≠ [] := List.ne_nil_of_length_pos (by omega)
    rcases Trace.Record.decoder_cases stored rest with
      ⟨hlt, -⟩ | ⟨htag, hdecoder⟩ | ⟨-, htag, missing, -, hdecoder⟩ | ⟨-, htag, -, hdecoder⟩
    · omega
    · have hroom : rest.length ≤ (rest.drop 8).length + capacity := by
        rw [List.length_drop]
        omega
      simp [Window.outcome_of_value hdecoder hroom, htag]
    · rw [Window.outcome, hdecoder]
      simp only [hne, htag, if_false]
      split <;> simp
    · rw [Window.outcome, hdecoder]
      simp only [hne, htag]
      split <;> simp

namespace Stream

variable {σ : Type} [ByteSource σ] {r : Stream} {s : σ} {capacity : ℕ} {rest : Bytes}

/-- A stream that has just been opened is at its end if nothing is read. -/
theorem next_of_read_nil {s' : σ} (hcapacity : 8 ≤ capacity)
    (h : ByteSource.read capacity s = (.ok [], s')) (size : ℕ) (limit : UInt16) :
    ∃ r', next { size, limit, window := { capacity } } s = (.ok none, r', s') := by
  have hshort : Trace.Record.decoder (stored limit) [] = .short 8 :=
    Trace.Record.decoder_of_lt (by decide)
  rw [next, if_neg Bool.false_ne_true, Window.fetch_new_of_read_nil hshort hcapacity h]
  exact ⟨_, rfl⟩

/-- A window without room for a tag is not read into. -/
theorem next_of_lt (hsmall : capacity < 8) (s : σ) (size : ℕ) (limit : UInt16) :
    ∃ r', next { size, limit, window := { capacity } } s = (.error .windowTooSmall, r', s) := by
  have hshort : Trace.Record.decoder (stored limit) [] = .short 8 :=
    Trace.Record.decoder_of_lt (by decide)
  rw [next, if_neg Bool.false_ne_true, Window.fetch_new_of_lt hshort hsmall]
  exact ⟨_, rfl⟩

/-- The stream has not met its end, and these bytes are ahead of its window. -/
structure StandsAt (capacity : ℕ) (rest : Bytes) (r : Stream) (s : σ) : Prop where
  finished : r.finished = false
  opened : r.window.exhausted = false
  capacity_eq : r.window.capacity = capacity
  ahead : r.window.Ahead s rest

/-- What a stream fetches is known from what is ahead of it. -/
theorem StandsAt.fetch (h : r.StandsAt capacity rest s) :
    ∃ w' s', r.window.fetch (Trace.Record.decoder (stored r.limit)) s =
        (Window.outcome (Trace.Record.decoder (stored r.limit)) capacity rest, w', s') ∧
      ∀ {entry rest'}, Trace.Record.decoder (stored r.limit) rest = .value entry rest' →
        Window.outcome (Trace.Record.decoder (stored r.limit)) capacity rest = .value entry →
        w'.exhausted = false ∧ w'.capacity = capacity ∧ w'.Ahead s' rest' := by
  obtain ⟨w', s', hfetch, hvalue⟩ := Window.fetch_eq_outcome
    (Trace.Record.stable_decoder (stored r.limit)) (Window.isSettled_of_open h.opened) h.ahead
    fun hpart hshort hlarge => Window.outcome_of_large (Trace.Record.insists_decoder _) hpart
      hshort hlarge (Trace.Record.decoder_ne_refused _ _)
  rw [h.capacity_eq] at hfetch hvalue
  refine ⟨w', s', hfetch, fun {entry rest'} hdecoder houtcome => ?_⟩
  obtain ⟨hopen, hcapacity, rest'', hdecoder', hahead⟩ := hvalue houtcome
  cases hdecoder.symm.trans hdecoder'
  exact ⟨hopen, hcapacity, hahead⟩

/-- A stream that answers with its end has no record ahead of it. -/
theorem StandsAt.outcome_of_next (h : r.StandsAt capacity rest s)
    (hnext : (r.next s).1 = .ok none) :
    Window.outcome (Trace.Record.decoder (stored r.limit)) capacity rest = .value none ∨
      Window.outcome (Trace.Record.decoder (stored r.limit)) capacity rest = .ended := by
  obtain ⟨w', s', hfetch, -⟩ := h.fetch
  rw [next, if_neg (by simp [h.finished]), hfetch] at hnext
  rcases houtcome : Window.outcome (Trace.Record.decoder (stored r.limit)) capacity rest with
    (_ | record) | _ | failure | cause <;> rw [houtcome] at hnext
  · exact .inl rfl
  · cases hnext
  · exact .inr rfl
  · cases hnext
  · cases hnext

/-- Every stream that has come to this place, with the clock and the limit that
    it has then, produces these packets, up to the failure that cuts them off. -/
def AllProduce (capacity : ℕ) (limit : UInt16) (clock : ArrivalClock) (rest : Bytes)
    (packets : List Packet) (failure : Option Failure) : Prop :=
  ∀ {σ : Type} [ByteSource σ] {r : Stream} {s : σ}, r.StandsAt capacity rest s →
    r.limit = limit → r.clock = clock → Produces next packets failure r s

variable {limit : UInt16} {clock : ArrivalClock} {packets : List Packet}
  {failure : Option Failure}

/-- A place where the trace ends, or comes to a failure. -/
theorem allProduce_nil {fetched : Fetched (Option Trace.Record)}
    (houtcome : Window.outcome (Trace.Record.decoder (stored limit)) capacity rest = fetched)
    (hlast : failure = none ∧ (fetched = .value none ∨ fetched = .ended) ∨
      ∃ cause, failure = some cause ∧ fetched = .failed cause) (clock : ArrivalClock) :
    AllProduce capacity limit clock rest [] failure := by
  intro σ _ r s h hlimit _
  subst hlimit
  obtain ⟨w', s', hfetch, -⟩ := h.fetch
  rw [houtcome] at hfetch
  have hcall : r.next s =
      (answerOf [] failure 0, { r with window := w', finished := true }, s') := by
    rw [next, if_neg (by simp [h.finished]), hfetch]
    rcases hlast with ⟨rfl, rfl | rfl⟩ | ⟨cause, rfl, rfl⟩ <;> rfl
  exact produces_nil hcall (next_of_finished rfl s')

/-- A place where a record is ahead, after which there are other packets. -/
theorem allProduce_cons {record : Trace.Record} {rest' : Bytes}
    (houtcome : Window.outcome (Trace.Record.decoder (stored limit)) capacity rest =
      .value (some record))
    (hdecoder : Trace.Record.decoder (stored limit) rest = .value (some record) rest')
    (h : AllProduce capacity limit (arrive clock record) rest' packets failure) :
    AllProduce capacity limit clock rest (packet (arrive clock record) record :: packets)
      failure := by
  intro σ _ r s hstands hlimit hclock
  subst hlimit hclock
  obtain ⟨w', s', hfetch, hvalue⟩ := hstands.fetch
  obtain ⟨hopen, hcapacity, hahead⟩ := hvalue hdecoder houtcome
  rw [houtcome] at hfetch
  have hcall : r.next s = (.ok (some (packet (arrive r.clock record) record)),
      { r with
        window := w'
        clock := arrive r.clock record
        consumed := r.consumed + record.size }, s') := by
    rw [next, if_neg (by simp [hstands.finished]), hfetch]
  exact produces_cons hcall (h ⟨hstands.finished, hopen, hcapacity, hahead⟩ rfl rfl)

/-- A place from which no packets come, and no failure, is an end of the trace. -/
theorem outcome_of_allProduce_nil (h : AllProduce capacity limit clock rest [] none) :
    Window.outcome (Trace.Record.decoder (stored limit)) capacity rest = .value none ∨
      Window.outcome (Trace.Record.decoder (stored limit)) capacity rest = .ended := by
  have hsteady : Tape.IsSteady { content := rest } := fun _ hstep => absurd hstep List.not_mem_nil
  have hstands : StandsAt capacity rest { size := 0, limit, window := { capacity }, clock }
      ({ content := rest } : Tape) :=
    ⟨rfl, rfl, rfl, Window.ahead_of_delivers (Tape.delivers hsteady) capacity⟩
  exact hstands.outcome_of_next (h hstands rfl rfl).head

/-- The packets that come of a place in a trace, and what cuts them off, if
    anything does, are the same for all streams. -/
theorem exists_allProduce (capacity : ℕ) (limit : UInt16) (clock : ArrivalClock) (rest : Bytes) :
    ∃ packets failure, packets.length ≤ rest.length ∧
      AllProduce capacity limit clock rest packets failure := by
  induction hn : rest.length using Nat.strong_induction_on generalizing clock rest with
  | h n ih =>
    subst hn
    cases houtcome : Window.outcome (Trace.Record.decoder (stored limit)) capacity rest with
    | value entry =>
      cases entry with
      | none =>
        exact ⟨[], none, Nat.zero_le _, allProduce_nil houtcome (.inl ⟨rfl, .inl rfl⟩) clock⟩
      | some record =>
        obtain ⟨rest', hdecoder⟩ := Window.exists_of_outcome_eq_value houtcome
        have hlt := Trace.Record.decoder_rest_lt hdecoder
        obtain ⟨packets, failure, hlength, hall⟩ := ih _ hlt (arrive clock record) rest' rfl
        exact ⟨_ :: packets, failure, Nat.lt_of_le_of_lt hlength hlt,
          allProduce_cons houtcome hdecoder hall⟩
    | ended => exact ⟨[], none, Nat.zero_le _, allProduce_nil houtcome (.inl ⟨rfl, .inr rfl⟩) clock⟩
    | failed cause =>
      exact ⟨[], some cause, Nat.zero_le _,
        allProduce_nil houtcome (.inr ⟨cause, rfl, rfl⟩) clock⟩
    | interrupted cause => exact absurd houtcome (Window.outcome_ne_interrupted _ _ _ cause)

end Stream

end Capture

end PacketTrace
