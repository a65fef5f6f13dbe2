import PacketTrace.Capture.Stream
import PacketTrace.Proofs.Capture.Arrivals
import PacketTrace.Proofs.Stream.Calls
import PacketTrace.Proofs.Stream.Window
import PacketTrace.Proofs.Trace.Layout
import PacketTrace.Proofs.Trace.Record

/-!
# Streaming a capture trace is walking it

A stream follows a walk over the same trace (`Capture.Follows`) if what is
ahead of its window is what the walk has yet to read, and its clock and the
bytes it has consumed are where the walk is. A call keeps this up, and answers
as the walk does, however the source cuts the trace into pieces
(`Capture.Follows.next`). Only a record that is longer than the window parts
the two (`Capture.Walk.IsLarge`).

* `Capture.answer_next`: a stream answers call by call as the walk, up to the
  first record that is too large; that one it reports, and then it is at its
  end;
* `Capture.Follows.produces`: a window of 2056 bytes has room for any record.
-/

namespace PacketTrace

namespace Capture

/-- The record that comes next does not fit in a window of this capacity. -/
structure Walk.IsLarge (capacity : ℕ) (w : Walk) : Prop where
  place : w.place.done = false
  length : 8 ≤ w.place.rest.length
  tag : Trace.Record.headTag w.place.rest ≠ Trace.endTag
  span : capacity < Trace.Record.span (stored w.limit) (Trace.Record.headTag w.place.rest)

/-- The record that comes next is there whole. -/
def Walk.IsComplete (w : Walk) : Prop :=
  Trace.Record.span (stored w.limit) (Trace.Record.headTag w.place.rest) ≤ w.place.rest.length

/-- The answer of a walk in the form in which a stream gives it. -/
def streamed {α : Type} : Option (Except Failure α) → Except Failure (Option α)
  | none => .ok none
  | some (.ok a) => .ok (some a)
  | some (.error failure) => .error failure

theorem streamed_eq_some {α : Type} {answer : Option (Except Failure α)} {a : α} :
    streamed answer = .ok (some a) ↔ answer = some (.ok a) := by
  rcases answer with _ | _ | b <;> simp [streamed]

theorem streamed_eq_none {α : Type} {answer : Option (Except Failure α)} :
    streamed answer = .ok none ↔ answer = none := by
  rcases answer with _ | _ | b <;> simp [streamed]

/-- The stream is where the walk is. -/
structure Follows {σ : Type} [ByteSource σ] (capacity : ℕ) (w : Walk) (r : Stream) (s : σ) :
    Prop where
  limit : r.limit = w.limit
  clock : r.clock = w.clock
  consumed : r.consumed + w.place.rest.length = w.trace.length
  ahead : r.finished = true ∧ (w.place.done = true ∨ w.place.rest = []) ∨
    r.finished = false ∧ w.place.done = false ∧ r.window.capacity = capacity ∧
      r.window.Ahead s w.place.rest

variable {σ : Type} [ByteSource σ] {capacity : ℕ} {w : Walk} {r : Stream} {s : σ}

/-- A stream starts where a walk starts. -/
theorem follows_start {trace : Bytes} (h : Delivers trace s) (capacity : ℕ) (limit : UInt16) :
    Follows capacity { trace, limit, place := { rest := trace } }
      { size := trace.length, limit, window := { capacity } } s where
  limit := rfl
  clock := rfl
  consumed := Nat.zero_add _
  ahead := .inr ⟨rfl, rfl, rfl, Window.ahead_of_delivers h capacity⟩

/-! ## Opening -/

section Opening

variable {σ : Type} [SeekableSource σ] {s : σ} {trace : Bytes}

/-- A trace of whole blocks is opened at its start. -/
theorem start_of_dvd (hs : Holds trace s) (haligned : 64 ∣ trace.length) (capacity : ℕ)
    (limit : UInt16) :
    ∃ s', Walk.ofTrace trace limit = .ok { trace, limit, place := { rest := trace } } ∧
      Stream.start capacity limit s =
        (.ok { size := trace.length, limit, window := { capacity } }, s') ∧ Delivers trace s' := by
  obtain ⟨s₁, s₂, hseek, hrewind, hdelivers⟩ := hs
  have hcheck : Trace.checkAligned trace.length = .ok () := by
    rw [Trace.checkAligned_eq, if_pos haligned]
  refine ⟨s₂, ?_, ?_, hdelivers⟩
  · rw [Walk.ofTrace, Trace.Walk.ofTrace_of_dvd haligned]
    rfl
  · simp only [Stream.start, hseek, hcheck, hrewind]

/-- Any other is refused, before a byte of it is read. -/
theorem start_of_not_dvd (hs : Holds trace s) (hunaligned : ¬ 64 ∣ trace.length) (capacity : ℕ)
    (limit : UInt16) :
    ∃ s', Stream.start capacity limit s = (.error (.unalignedTrace trace.length 64), s') := by
  obtain ⟨s₁, s₂, hseek, -, -⟩ := hs
  have hcheck : Trace.checkAligned trace.length = .error (.unalignedTrace trace.length 64) := by
    rw [Trace.checkAligned_eq, if_neg hunaligned]
  exact ⟨s₁, by simp only [Stream.start, hseek, hcheck]⟩

end Opening

/-! ## One call of a walk -/

namespace Walk

theorem next_of_over (h : w.place.done = true ∨ w.place.rest = []) : w.next = (none, w) := by
  have hplace : w.place.next (stored w.limit) = (none, w.place) := by
    rw [Trace.Walk.next, if_pos]
    rcases h with h | h <;> simp [h]
  rw [next, hplace]

theorem next_place (hdone : w.place.done = false) (hrest : w.place.rest ≠ []) :
    w.place.next (stored w.limit) =
      match Trace.Record.decoder (stored w.limit) w.place.rest with
      | .value (some record) rest => (some (.ok record), { w.place with rest })
      | .value none _ => (none, { w.place with done := true })
      | .short _ => (some (.error .truncatedInput), { w.place with done := true })
      | .refused failure => (some (.error failure), { w.place with done := true }) := by
  rw [Trace.Walk.next]
  exact if_neg (by simp [hdone, hrest])

theorem rest_ne_nil (h : ∀ missing,
    Trace.Record.decoder (stored w.limit) w.place.rest ≠ .short missing) : w.place.rest ≠ [] :=
  fun hnil => h 8 (by rw [hnil]; rfl)

theorem next_of_record (hdone : w.place.done = false) {record : Trace.Record} {rest : Bytes}
    (h : Trace.Record.decoder (stored w.limit) w.place.rest = .value (some record) rest) :
    w.next = (some (.ok (packet (arrive w.clock record) record)),
      { w with place := { w.place with rest }, clock := arrive w.clock record }) := by
  rw [next, next_place hdone (rest_ne_nil (by simp [h])), h]

theorem next_of_end (hdone : w.place.done = false) {rest : Bytes}
    (h : Trace.Record.decoder (stored w.limit) w.place.rest = .value none rest) :
    w.next = (none, { w with place := { w.place with done := true } }) := by
  rw [next, next_place hdone (rest_ne_nil (by simp [h])), h]

theorem next_of_short (hdone : w.place.done = false) (hrest : w.place.rest ≠ []) {missing : ℕ}
    (h : Trace.Record.decoder (stored w.limit) w.place.rest = .short missing) :
    w.next =
      (some (.error .truncatedInput), { w with place := { w.place with done := true } }) := by
  rw [next, next_place hdone hrest, h]

theorem next_of_refused (hdone : w.place.done = false) {failure : Failure}
    (h : Trace.Record.decoder (stored w.limit) w.place.rest = .refused failure) :
    w.next = (some (.error failure), { w with place := { w.place with done := true } }) := by
  rw [next, next_place hdone (rest_ne_nil (by simp [h])), h]

end Walk

/-! ## One call of both -/

theorem Stream.next_of_finished (h : r.finished = true) (s : σ) : r.next s = (.ok none, r, s) := by
  rw [next, if_pos h]

/-- What a window asks for and has no room for belongs to a large record. -/
theorem isLarge_of_tooSmall {unread more : Bytes} {missing : ℕ} (hcapacity : 8 ≤ capacity)
    (hdone : w.place.done = false) (hrest : w.place.rest = unread ++ more)
    (hshort : Trace.Record.decoder (stored w.limit) unread = .short missing)
    (hlarge : capacity < unread.length + missing) : w.IsLarge capacity := by
  rcases Trace.Record.length_add_le_of_short hshort with hle | ⟨hlong, htag, hle⟩
  · omega
  · have hhead : Trace.Record.headTag w.place.rest = Trace.Record.headTag unread := by
      rw [hrest, Trace.Record.headTag_append hlong]
    refine ⟨hdone, ?_, by rwa [hhead], by rw [hhead]; omega⟩
    rw [hrest, List.length_append]
    omega

/-- A stream that is where a walk is answers as the walk, and is then where the
    walk is, with no more than its window behind it; or its window is too small
    for the next record. -/
theorem Follows.next (h : Follows capacity w r s) :
    ((r.next s).1 = streamed w.next.1 ∧ Follows capacity w.next.2 (r.next s).2.1 (r.next s).2.2 ∧
        w.place.rest.length ≤ w.next.2.place.rest.length + capacity) ∨
      (r.next s).1 = .error .windowTooSmall ∧ (r.next s).2.1.finished = true ∧
        (8 ≤ capacity → w.IsLarge capacity) := by
  rcases h.ahead with ⟨hfinished, hover⟩ | ⟨hfinished, hdone, hcapacity, hahead⟩
  · rw [Stream.next_of_finished hfinished, Walk.next_of_over hover]
    exact .inl ⟨rfl, h, Nat.le_add_right _ _⟩
  · have hfetch := Window.fetches_fetch (Trace.Record.stable_decoder (stored r.limit)) hahead
    rw [hcapacity] at hfetch
    rcases hresult : r.window.fetch (Trace.Record.decoder (stored r.limit)) s with
      ⟨fetched, window, s'⟩
    rw [hresult] at hfetch
    rw [Stream.next, if_neg (by simp [hfinished]), hresult]
    rw [h.limit] at hfetch
    cases hfetch with
    | @value entry rest' _ _ hvalue hlength hcapacity' hahead' =>
      cases entry with
      | none =>
        rw [Walk.next_of_end hdone hvalue]
        exact .inl ⟨rfl, ⟨h.limit, h.clock, h.consumed, .inl ⟨rfl, .inl rfl⟩⟩,
          Nat.le_add_right _ _⟩
      | some record =>
        have hsize := Trace.Record.length_eq_add_of_value hvalue
        have hconsumed := h.consumed
        rw [Walk.next_of_record hdone hvalue]
        refine .inl ⟨by rw [h.clock]; rfl, ⟨h.limit, by rw [h.clock], ?_,
          .inr ⟨hfinished, hdone, hcapacity', hahead'⟩⟩, hlength⟩
        change r.consumed + record.size + rest'.length = w.trace.length
        omega
    | ended hnil =>
      rw [Walk.next_of_over (.inr hnil)]
      exact .inl ⟨rfl, ⟨h.limit, h.clock, h.consumed, .inl ⟨rfl, .inr hnil⟩⟩, Nat.le_add_right _ _⟩
    | refused hrefused =>
      rw [Walk.next_of_refused hdone hrefused]
      exact .inl ⟨rfl, ⟨h.limit, h.clock, h.consumed, .inl ⟨rfl, .inl rfl⟩⟩, Nat.le_add_right _ _⟩
    | truncated hshort hrest =>
      rw [Walk.next_of_short hdone hrest hshort]
      exact .inl ⟨rfl, ⟨h.limit, h.clock, h.consumed, .inl ⟨rfl, .inl rfl⟩⟩, Nat.le_add_right _ _⟩
    | tooSmall hrest hshort hlarge =>
      exact .inr ⟨rfl, rfl, fun h8 => isLarge_of_tooSmall h8 hdone hrest hshort hlarge⟩

/-- A large record that is there whole is reported, and ends the stream. -/
theorem Follows.next_of_isLarge (h : Follows capacity w r s) (hlarge : w.IsLarge capacity)
    (hcomplete : w.IsComplete) :
    (r.next s).1 = .error .windowTooSmall ∧ (r.next s).2.1.finished = true := by
  rcases h.next with ⟨-, -, hlength⟩ | ⟨herror, hfinished, -⟩
  · -- The walk moves past more bytes than the window can hold.
    have hvalue := Trace.Record.decoder_of_le hlarge.length hlarge.tag hcomplete
    have hspan := hlarge.span
    rw [Walk.IsComplete] at hcomplete
    rw [Walk.next_of_record hlarge.place hvalue] at hlength
    simp only [List.length_drop] at hlength
    omega
  · exact ⟨herror, hfinished⟩

/-! ## Any number of calls -/

/-- A walk that does not answer with a packet is over. -/
theorem Walk.over_of_next (h : ∀ p, w.next.1 ≠ some (.ok p)) :
    w.next.2.place.done = true ∨ w.next.2.place.rest = [] := by
  rw [next] at h ⊢
  rw [Trace.Walk.next] at h ⊢
  by_cases hover : (w.place.done || w.place.rest.isEmpty) = true
  · rw [if_pos hover]
    simpa using hover
  · rw [if_neg hover] at h ⊢
    rcases hdecoder : Trace.Record.decoder (stored w.limit) w.place.rest with
      ⟨_ | record, rest⟩ | _ | _ <;> rw [hdecoder] at h
    · exact .inl rfl
    · exact absurd rfl (h _)
    · exact .inl rfl
    · exact .inl rfl

/-- It has nothing to answer with from then on. -/
theorem Walk.answer_of_next_ne (h : ∀ p, w.next.1 ≠ some (.ok p)) (n : ℕ) :
    answer Walk.next w (n + 1) = none := by
  rw [answer_succ]
  exact answer_of_fixed (next_of_over (over_of_next h)) n

/-- A walk answers with the packets that are left, and then with the failure
    that cuts them off. -/
theorem Walk.streamed_answer (w : Walk) (n : ℕ) :
    streamed (answer Walk.next w n) = answerOf w.drain.1 w.drain.2 n := by
  fun_induction drain w generalizing n with
  | case1 w p w' hnext packets failure hdrain ih =>
    rw [hdrain] at ih
    cases n with
    | zero => rw [answer_zero, hnext]; rfl
    | succ n =>
      rw [answer_succ, hnext]
      exact ih n
  | case2 w failure w' hnext =>
    cases n with
    | zero => rw [answer_zero, hnext]; rfl
    | succ n => rw [answer_of_next_ne (by simp [hnext])]; rfl
  | case3 w w' hnext =>
    cases n with
    | zero => rw [answer_zero, hnext]; rfl
    | succ n => rw [answer_of_next_ne (by simp [hnext])]; rfl

/-- As long as no large record comes next, the stream stays where the walk is. -/
theorem Follows.stateAfter (h : Follows capacity w r s) (hcapacity : 8 ≤ capacity) {k : ℕ}
    (hsmall : ∀ j < k, ¬ (stateAfter Walk.next w j).IsLarge capacity) :
    Follows capacity (stateAfter Walk.next w k)
      (stateAfter (Function.uncurry Stream.next) (r, s) k).1
      (stateAfter (Function.uncurry Stream.next) (r, s) k).2 := by
  induction k with
  | zero => exact h
  | succ k ih =>
    have hk := ih fun j hj => hsmall j (Nat.lt_succ_of_lt hj)
    rw [stateAfter_succ, stateAfter_succ]
    rcases hk.next with ⟨-, hnext, -⟩ | ⟨-, -, hlarge⟩
    · exact hnext
    · exact absurd (hlarge hcapacity) (hsmall k (Nat.lt_succ_self k))

/-- The longest record: a tag, as many bytes as eleven bits can tell, and the
    padding after them. -/
theorem span_stored_le (limit : UInt16) (tag : UInt64) :
    Trace.Record.span (stored limit) tag ≤ 2056 := by
  have hstored : stored limit tag < 2 ^ 11 :=
    Nat.lt_of_le_of_lt (Nat.min_le_left _ _) (Tag.wireLength_lt _)
  rw [Trace.Record.span, padding_eq_mod isPowerOfTwo_recordBoundary, recordBoundary]
  omega

/-- Through a window with room for any record, a stream produces the packets
    that the walk has left. -/
theorem Follows.produces (h : Follows capacity w r s) (hcapacity : 2056 ≤ capacity) :
    Produces Stream.next w.drain.1 w.drain.2 r s := by
  have hsmall (w : Walk) : ¬ w.IsLarge capacity := fun hlarge => by
    have hspan := span_stored_le w.limit (Trace.Record.headTag w.place.rest)
    have hlarge := hlarge.span
    omega
  have h8 : 8 ≤ capacity := Nat.le_trans (by decide) hcapacity
  intro n
  rcases (h.stateAfter h8 fun j _ => hsmall _).next with ⟨hanswer, -, -⟩ | ⟨-, -, hlarge⟩
  · exact hanswer.trans (w.streamed_answer n)
  · exact absurd (hlarge h8) (hsmall _)

theorem answer_of_finished {x : Stream × σ} (h : x.1.finished = true) (n : ℕ) :
    answer (Function.uncurry Stream.next) x n = .ok none := by
  have hcall : Function.uncurry Stream.next x = (.ok none, x) := Stream.next_of_finished h x.2
  exact answer_of_fixed hcall n

theorem Walk.trace_stateAfter (w : Walk) (n : ℕ) : (stateAfter next w n).trace = w.trace := by
  refine stateAfter_induction (P := fun w' : Walk => w'.trace = w.trace) rfl (fun w' hw' => ?_) n
  rw [← hw', next]
  split <;> rfl

/-- A trace of whole blocks is opened in memory and, through a window that has
    room for a tag, from a source that holds it, however that is cut into
    reads. As long as no large record comes next, a call of the stream answers
    as that of the walk and has consumed what the walk has moved past. A large
    record that is there whole, if it is the first, is reported by one call,
    and all later calls find no more packets. -/
theorem answer_next {σ : Type} [SeekableSource σ] {s : σ} {trace : Bytes} (hs : Holds trace s)
    (haligned : 64 ∣ trace.length) {capacity : ℕ} (hcapacity : 8 ≤ capacity) (limit : UInt16) :
    ∃ w r s', Walk.ofTrace trace limit = .ok w ∧ Stream.start capacity limit s = (.ok r, s') ∧
      (∀ k, (∀ j ≤ k, ¬ (stateAfter Walk.next w j).IsLarge capacity) →
        answer (Function.uncurry Stream.next) (r, s') k = streamed (answer Walk.next w k) ∧
          (stateAfter (Function.uncurry Stream.next) (r, s') (k + 1)).1.consumed +
            (stateAfter Walk.next w (k + 1)).place.rest.length = trace.length) ∧
      ∀ k, (∀ j < k, ¬ (stateAfter Walk.next w j).IsLarge capacity) →
        (stateAfter Walk.next w k).IsLarge capacity → (stateAfter Walk.next w k).IsComplete →
        answer (Function.uncurry Stream.next) (r, s') k = .error .windowTooSmall ∧
          ∀ j > k, answer (Function.uncurry Stream.next) (r, s') j = .ok none := by
  obtain ⟨s', hwalk, hopen, hdelivers⟩ := start_of_dvd hs haligned capacity limit
  have hstart := follows_start hdelivers capacity limit
  refine ⟨_, _, s', hwalk, hopen, ?_, ?_⟩
  · intro k hsmall
    have hk := hstart.stateAfter hcapacity fun j hj => hsmall j (Nat.le_of_lt hj)
    rcases hk.next with ⟨hanswer, hnext, -⟩ | ⟨-, -, hlarge⟩
    · refine ⟨hanswer, ?_⟩
      rw [stateAfter_succ, stateAfter_succ]
      refine hnext.consumed.trans ?_
      rw [← stateAfter_succ, Walk.trace_stateAfter]
    · exact absurd (hlarge hcapacity) (hsmall k (Nat.le_refl k))
  · intro k hsmall hlarge hcomplete
    have hk := hstart.stateAfter hcapacity hsmall
    obtain ⟨herror, hfinished⟩ := hk.next_of_isLarge hlarge hcomplete
    refine ⟨herror, fun j hj => ?_⟩
    obtain ⟨i, rfl⟩ := Nat.exists_eq_add_of_lt hj
    rw [Nat.add_right_comm, answer_add, stateAfter_succ]
    exact answer_of_finished hfinished i

/-- A packet of two bytes on a tape, cut in the middle of the tag, of the data
    and of the padding. -/
theorem answer_next_of_cuts :
    ∃ r s', Stream.start 16 1500
        ({ content := [0, 0, 0, 0, 0, 0, 64, 0, 7, 8, 0, 0, 0, 0, 0, 0] ++ List.replicate 48 255
           reads := [.upTo 3, .upTo 6, .upTo 4] } : Tape) = (.ok r, s') ∧
      answer (Function.uncurry Stream.next) (r, s') 0 =
        .ok (some { timestamp := 0, wireLength := 2, data := [7, 8] }) := by
  have hsteady : Tape.IsSteady
      { content := [0, 0, 0, 0, 0, 0, 64, 0, 7, 8, 0, 0, 0, 0, 0, 0] ++ List.replicate 48 255
        reads := [.upTo 3, .upTo 6, .upTo 4] } := by
    simp [Tape.IsSteady]
  obtain ⟨w, r, s', hw, hr, hanswer, -⟩ :=
    answer_next (Tape.holds hsteady rfl) (by decide) (by decide : 8 ≤ 16) 1500
  cases hw
  refine ⟨r, s', hr, (hanswer 0 fun j hj hlarge => ?_).1⟩
  obtain rfl := Nat.le_zero.1 hj
  exact absurd hlarge.span (by decide)

end Capture

end PacketTrace
