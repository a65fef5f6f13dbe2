import PacketTrace.Proofs.Capture.Capacity
import PacketTrace.Proofs.Conversion.Simulation

/-!
# Starting again

Whatever a stream is asked for, it keeps the size of its trace, its limit and
the capacity of its window, and these are all that a stream has when it is
opened (`Capture.Stream.renewed`). So a stream that has been started again is
the stream that was opened, however it was used in between, and however its
source took the reads. What it does next depends on the bytes that are ahead of
it, but not on how many of them are in its window already, nor on the source
that the others come from (`Capture.Stream.Parallel`).

* `Capture.Stream.Parallel.replies_eq`: streams at the same place of the same
  trace answer alike;
* `Capture.Stream.replies_alike`: a stream answers as it would have on any
  source that cannot be told from its own;
* `Capture.restart_renews`: hence what becomes of a stream that is started
  again, and of a walk.
-/

namespace PacketTrace

/-- Tapes are told apart by what is left of them, and by the reads that are
    set. -/
theorem Tape.isReadSimulation :
    IsReadSimulation fun s t : Tape => s.rest = t.rest ∧ s.reads = t.reads where
  read := by
    rintro ⟨content, rest, reads, seekFault⟩ ⟨content', _, _, seekFault'⟩ ⟨rfl, rfl⟩ n
    rcases reads with _ | ⟨_ | _, reads⟩ <;> exact ⟨_, rfl, rfl, rfl⟩

namespace Capture

/-- What a stream or a walk can be asked for. -/
inductive Call where
  | next
  | restart
  deriving DecidableEq

/-- What a stream answers. -/
inductive Reply where
  | next (answer : Except Failure (Option Packet))
  | restart (answer : Except Failure Unit)
  deriving DecidableEq

namespace Stream

section Calls

variable {σ : Type} [SeekableSource σ]

/-- The answer to a call, and the stream and its source after it. -/
def call (c : Call) (r : Stream) (s : σ) : Reply × Stream × σ :=
  match c with
  | .next => (.next (r.next s).1, (r.next s).2)
  | .restart => (.restart (r.restart s).1, (r.restart s).2)

/-- The answers to calls that follow one another, each with the number of bytes
    that have been consumed then. -/
def replies : List Call → Stream → σ → List (Reply × ℕ)
  | [], _, _ => []
  | c :: calls, r, s =>
    let (reply, r, s) := r.call c s
    (reply, r.consumed) :: replies calls r s

/-- The stream and its source after calls that follow one another. -/
def afterCalls : List Call → Stream → σ → Stream × σ
  | [], r, s => (r, s)
  | c :: calls, r, s => afterCalls calls (r.call c s).2.1 (r.call c s).2.2

end Calls

/-! ## What stays as it is -/

/-- A stream of the same trace, before its first record. -/
def renewed (r : Stream) : Stream :=
  { size := r.size, limit := r.limit, window := { capacity := r.window.capacity } }

theorem renewed_next {σ : Type} [ByteSource σ] (r : Stream) (s : σ) :
    (r.next s).2.1.renewed = r.renewed := by
  rw [next]
  split
  · rfl
  · rcases hfetch : r.window.fetch (Trace.Record.decoder (stored r.limit)) s with ⟨fetched, w, s'⟩
    have hcapacity : w.capacity = r.window.capacity := by
      rw [← Window.capacity_fetch (Trace.Record.decoder (stored r.limit)) r.window s, hfetch]
    rcases fetched with (_ | _) | _ | _ | _ <;> simp only [renewed, hcapacity]

variable {σ τ : Type} [SeekableSource σ] [SeekableSource τ] {capacity : ℕ} {limit : UInt16}
  {trace : Bytes} {r r' : Stream} {s s' : σ} {t : τ} {failure : Failure}

/-- A stream is started again if its source can be rewound. -/
theorem restart_of_rewind (h : SeekableSource.rewind s = (.ok (), s')) :
    r.restart s = (.ok (), r.renewed, s') := by
  rw [restart, h]
  rfl

theorem restart_eq_ok (h : r.restart s = (.ok (), r', s')) : r' = r.renewed := by
  rw [restart] at h
  split at h <;> cases h
  rfl

/-- Otherwise it stays as it is. -/
theorem restart_eq_error (h : r.restart s = (.error failure, r', s')) : r' = r := by
  rw [restart] at h
  split at h <;> cases h
  rfl

theorem renewed_call (c : Call) (r : Stream) (s : σ) : (r.call c s).2.1.renewed = r.renewed := by
  cases c with
  | next => exact renewed_next r s
  | restart =>
    rcases hrestart : r.restart s with ⟨failure | _, r', s'⟩ <;> rw [call, hrestart]
    · rw [restart_eq_error hrestart]
    · rw [restart_eq_ok hrestart]
      rfl

theorem renewed_afterCalls (calls : List Call) (r : Stream) (s : σ) :
    (afterCalls calls r s).1.renewed = r.renewed := by
  induction calls generalizing r s with
  | nil => rfl
  | cons c calls ih => exact (ih _ _).trans (renewed_call c r s)

/-- A stream that has just been opened is as new. -/
theorem start_eq_ok (h : start capacity limit s = (.ok r, s')) :
    64 ∣ r.size ∧ r = { size := r.size, limit, window := { capacity } } := by
  rw [start] at h
  split at h
  · cases h
  next size s₁ hsize =>
    rw [Trace.checkAligned_eq] at h
    by_cases haligned : 64 ∣ size
    · simp only [if_pos haligned] at h
      split at h <;> cases h
      exact ⟨haligned, rfl⟩
    · simp only [if_neg haligned] at h
      cases h

/-! ## Streams that go on alike -/

/-- Two streams with the same trace are at the same place, whatever is in their
    windows. -/
structure Parallel {σ τ : Type} [ByteSource σ] [ByteSource τ] (r : Stream) (s : σ) (r' : Stream)
    (t : τ) : Prop where
  renewed : r.renewed = r'.renewed
  clock : r.clock = r'.clock
  consumed : r.consumed = r'.consumed
  place : r.finished = true ∧ r'.finished = true ∨
    ∃ rest, r.StandsAt r.window.capacity rest s ∧ r'.StandsAt r'.window.capacity rest t

theorem Parallel.limit_eq (h : Parallel r s r' t) : r.limit = r'.limit := by
  change r.renewed.limit = r'.renewed.limit
  rw [h.renewed]

theorem Parallel.capacity_eq (h : Parallel r s r' t) : r.window.capacity = r'.window.capacity := by
  change r.renewed.window.capacity = r'.renewed.window.capacity
  rw [h.renewed]

/-- A stream before its first record. -/
theorem standsAt_renewed (r : Stream) {rest : Bytes} (h : Delivers rest s) :
    r.renewed.StandsAt r.window.capacity rest s :=
  ⟨rfl, rfl, rfl, Window.ahead_of_delivers h _⟩

theorem parallel_renewed (hr : r.renewed = r'.renewed) (hs : Delivers trace s)
    (ht : Delivers trace t) : Parallel r.renewed s r'.renewed t where
  renewed := hr
  clock := rfl
  consumed := rfl
  place := .inr ⟨trace, standsAt_renewed r hs, standsAt_renewed r' ht⟩

/-- The next packet is the same for both, or it is the end for both. -/
theorem Parallel.next (h : Parallel r s r' t) :
    (r.next s).1 = (r'.next t).1 ∧
      Parallel (r.next s).2.1 (r.next s).2.2 (r'.next t).2.1 (r'.next t).2.2 := by
  suffices hsame : (r.next s).1 = (r'.next t).1 ∧ (r.next s).2.1.clock = (r'.next t).2.1.clock ∧
      (r.next s).2.1.consumed = (r'.next t).2.1.consumed ∧
      ((r.next s).2.1.finished = true ∧ (r'.next t).2.1.finished = true ∨
        ∃ rest, (r.next s).2.1.StandsAt (r.next s).2.1.window.capacity rest (r.next s).2.2 ∧
          (r'.next t).2.1.StandsAt (r'.next t).2.1.window.capacity rest (r'.next t).2.2) by
    obtain ⟨hanswer, hclock, hconsumed, hplace⟩ := hsame
    exact ⟨hanswer, by rw [renewed_next, renewed_next, h.renewed], hclock, hconsumed, hplace⟩
  rcases h.place with ⟨hr, hr'⟩ | ⟨rest, hr, hr'⟩
  · rw [next_of_finished hr, next_of_finished hr']
    exact ⟨rfl, h.clock, h.consumed, .inl ⟨hr, hr'⟩⟩
  · obtain ⟨w, s', hfetch, hvalue⟩ := hr.fetch
    obtain ⟨w', t', hfetch', hvalue'⟩ := hr'.fetch
    rw [← h.limit_eq, ← h.capacity_eq] at hfetch' hvalue'
    rw [Stream.next, Stream.next, if_neg (by simp [hr.finished]), if_neg (by simp [hr'.finished]),
      ← h.limit_eq, hfetch, hfetch']
    -- Both fetches come to the same, and only that decides on the answer.
    cases houtcome : Window.outcome (Trace.Record.decoder (stored r.limit)) r.window.capacity rest
      with
    | value entry =>
      cases entry with
      | none => exact ⟨rfl, h.clock, h.consumed, .inl ⟨rfl, rfl⟩⟩
      | some record =>
        obtain ⟨rest', hdecoder⟩ := Window.exists_of_outcome_eq_value houtcome
        obtain ⟨hopen, -, hahead⟩ := hvalue hdecoder houtcome
        obtain ⟨hopen', -, hahead'⟩ := hvalue' hdecoder houtcome
        simp only [h.clock, h.consumed, true_and]
        exact .inr ⟨rest', ⟨hr.finished, hopen, rfl, hahead⟩, ⟨hr'.finished, hopen', rfl, hahead'⟩⟩
    | ended => exact ⟨rfl, h.clock, h.consumed, .inl ⟨rfl, rfl⟩⟩
    | failed failure => exact ⟨rfl, h.clock, h.consumed, .inl ⟨rfl, rfl⟩⟩
    | interrupted cause => exact absurd houtcome (Window.outcome_ne_interrupted _ _ _ cause)

/-- What is read of a source does not keep it from being rewound. -/
theorem rewinds_next (r : Stream) (hs : Rewinds trace s) : Rewinds trace (r.next s).2.2 := by
  have hread : IsReadSimulation (Keeps (Rewinds (σ := σ) trace)) :=
    isReadSimulation_of_invariant fun h n => h.read n
  obtain ⟨_, -, -, hnext⟩ := next_alike hread ⟨rfl, hs⟩ r
  exact hnext

/-- Streams that are alike answer alike, also if they are started again on the
    way, as long as their sources can be rewound. -/
theorem Parallel.replies_eq (h : Parallel r s r' t) (calls : List Call)
    (hrewinds : .restart ∈ calls → Rewinds trace s ∧ Rewinds trace t) :
    replies calls r s = replies calls r' t := by
  induction calls generalizing r s r' t with
  | nil => rfl
  | cons c calls ih =>
    cases c with
    | next =>
      obtain ⟨hanswer, hnext⟩ := h.next
      have hrest := ih hnext fun hmem =>
        have hboth := hrewinds (List.mem_cons_of_mem _ hmem)
        ⟨rewinds_next r hboth.1, rewinds_next r' hboth.2⟩
      simp only [replies, call, hanswer, hnext.consumed, hrest]
    | restart =>
      obtain ⟨hs, ht⟩ := hrewinds List.mem_cons_self
      obtain ⟨s', hrewind, hdelivers, hs'⟩ := hs.rewind
      obtain ⟨t', hrewind', hdelivers', ht'⟩ := ht.rewind
      have hrest := ih (parallel_renewed h.renewed hdelivers hdelivers') fun _ => ⟨hs', ht'⟩
      simp only [replies, call, restart_of_rewind hrewind, restart_of_rewind hrewind', hrest]
      rfl

/-- The answers of a stream do not tell sources apart that reads do not tell
    apart, nor rewinding if the stream is started again. -/
theorem replies_alike {S : σ → τ → Prop} (hS : IsReadSimulation S) (h : S s t)
    (calls : List Call) (hrewind : .restart ∈ calls → ∀ {s t}, S s t →
      Alike S (SeekableSource.rewind s) (SeekableSource.rewind t)) :
    replies calls r s = replies calls r t := by
  induction calls generalizing r s t with
  | nil => rfl
  | cons c calls ih =>
    have hrest {r : Stream} {s : σ} {t : τ} (h : S s t) : replies calls r s = replies calls r t :=
      ih h fun hmem => hrewind (List.mem_cons_of_mem _ hmem)
    cases c with
    | next =>
      obtain ⟨t', hnext, h'⟩ := next_alike hS h r
      simp only [replies, call, hnext, hrest h']
    | restart =>
      obtain ⟨t', hresult, h'⟩ := hrewind List.mem_cons_self h
      rcases hs : SeekableSource.rewind s with ⟨cause | _, s'⟩ <;> rw [hs] at hresult h' <;>
        simp only [replies, call, restart, hs, hresult, hrest h']

end Stream

namespace Walk

/-- The walk after a call. -/
def afterCall (w : Walk) : Call → Walk
  | .next => w.next.2
  | .restart => w.restart

/-- A walk that is started again goes back to where it began, whatever it was
    asked for in between. -/
theorem restart_foldl (calls : List Call) (w : Walk) :
    (calls.foldl afterCall w).restart = w.restart := by
  induction calls generalizing w with
  | nil => rfl
  | cons c calls ih =>
    have hcall : (w.afterCall c).restart = w.restart := by
      cases c with
      | next =>
        rw [afterCall, next]
        split <;> rfl
      | restart => rfl
    exact (ih (w.afterCall c)).trans hcall

theorem restart_of_ofTrace {trace : Bytes} {limit : UInt16} {w : Walk}
    (h : ofTrace trace limit = .ok w) : w.restart = w := by
  rw [ofTrace, Trace.Walk.ofTrace, Trace.checkAligned_eq] at h
  split at h <;> cases h
  rfl

end Walk

/-! ## Starting again -/

/-- What becomes of a stream that is started again. -/
structure Stream.Renews {σ : Type} [SeekableSource σ] (capacity : ℕ) (limit : UInt16)
    (trace : Bytes) (r : Stream) (s : σ) : Prop where
  /-- Once its source is rewound, it is what is opened on any source that holds
      the trace, and answers as that does. -/
  done : ∀ {r' s'}, r.restart s = (.ok (), r', s') → Delivers trace s' →
    ∀ {τ : Type} [SeekableSource τ] {t : τ}, Holds trace t → ∃ t',
      start capacity limit t = (.ok r', t') ∧ ∀ calls : List Call,
        (.restart ∈ calls → Rewinds trace s' ∧ Rewinds trace t') →
          replies calls r' s' = replies calls r' t'
  /-- If its source cannot be rewound, it stays as it is, and answers as it would
      have on any source that is in the same place, such as its own if that has
      not been moved. -/
  failed : ∀ {failure r' s'}, r.restart s = (.error failure, r', s') → r' = r ∧
    ∀ {τ : Type} [SeekableSource τ] {S : σ → τ → Prop} {t : τ}, IsReadSimulation S → S s' t →
      ∀ calls : List Call, (.restart ∈ calls → ∀ {s t}, S s t →
          Alike S (SeekableSource.rewind s) (SeekableSource.rewind t)) →
        replies calls r' s' = replies calls r t

/-- Whatever has been asked of a stream, and whatever its source has done, if it
    is started again it goes on as a stream that has just been opened, unless
    its source cannot be rewound: then it goes on as if nothing had happened.
    A walk that is started again is what it was at first. -/
theorem restart_renews {σ : Type} [SeekableSource σ] (capacity : ℕ) (limit : UInt16)
    (trace : Bytes) :
    (∀ {s s₀ : σ} {r₀ : Stream}, Stream.start capacity limit s = (.ok r₀, s₀) →
      r₀.size = trace.length → ∀ calls,
        (Stream.afterCalls calls r₀ s₀).1.Renews capacity limit trace
          (Stream.afterCalls calls r₀ s₀).2) ∧
    ∀ {w₀ : Walk}, Walk.ofTrace trace limit = .ok w₀ → ∀ calls : List Call,
      (calls.foldl Walk.afterCall w₀).restart = w₀ := by
  constructor
  · intro s s₀ r₀ hstart hsize calls
    obtain ⟨haligned, hopened⟩ := Stream.start_eq_ok hstart
    have hrenewed : (Stream.afterCalls calls r₀ s₀).1.renewed = r₀ := by
      rw [Stream.renewed_afterCalls, hopened]
      rfl
    refine ⟨fun {r' s'} hrestart hs' {τ} _ {t} ht => ?_, fun {failure r' s'} hrestart => ?_⟩
    · obtain rfl : r' = r₀ := (Stream.restart_eq_ok hrestart).trans hrenewed
      rw [hsize] at haligned hopened
      obtain ⟨t', -, hopen, ht'⟩ := start_of_dvd ht haligned capacity limit
      rw [← hopened] at hopen
      refine ⟨t', hopen, fun calls hrewinds => Stream.Parallel.replies_eq ?_ calls hrewinds⟩
      have hnew : r'.renewed = r' := by
        rw [hopened]
        rfl
      have hparallel : Stream.Parallel r'.renewed s' r'.renewed t' :=
        Stream.parallel_renewed rfl hs' ht'
      rwa [hnew] at hparallel
    · obtain rfl := Stream.restart_eq_error hrestart
      exact ⟨rfl, fun hS h calls hrewind => Stream.replies_alike hS h calls hrewind⟩
  · intro w₀ hw₀ calls
    rw [Walk.restart_foldl, Walk.restart_of_ofTrace hw₀]

/-- Two packets of two bytes, ten cycles apart. -/
def tenCyclesApart : Bytes :=
  [0, 0, 0, 0, 0, 0, 64, 0, 7, 8, 0, 0, 0, 0, 0, 0] ++
    [0, 0, 0, 20, 0, 0, 64, 0, 9, 10, 0, 0, 0, 0, 0, 0] ++ List.replicate 32 255

/-- A stream of them. -/
def tenCyclesStream : Stream where
  size := 64
  limit := 1500
  window := { capacity := 16 }

/-- A tape of them, just rewound. It will fail to be rewound once, and once to be
    read, and then pretend to be at its end. -/
def unreliable : Tape where
  content := tenCyclesApart
  reads := [.upTo 20, .fail, .upTo 5, .upTo 0]
  seekFault := some 0

/-- The stream after its first packet. -/
def afterFirst : Stream × Tape := tenCyclesStream.afterCalls [.next] unreliable

/-- The stream is started again three times, the first time to no effect. -/
theorem restart_renews_of_unreliable :
    tenCyclesStream.replies
        [.next, .restart, .next, .next, .restart, .next, .restart, .next, .next, .next]
        unreliable =
      [(.next (.ok (some ⟨0, 2, [7, 8]⟩)), 16), (.restart (.error (.device Tape.seekFailure)), 16),
        (.next (.error (.device Tape.readFailure)), 16), (.next (.error .truncatedInput), 16),
        (.restart (.ok ()), 0), (.next (.ok (some ⟨0, 2, [7, 8]⟩)), 16), (.restart (.ok ()), 0),
        (.next (.ok (some ⟨0, 2, [7, 8]⟩)), 16), (.next (.ok (some ⟨64, 2, [9, 10]⟩)), 32),
        (.next (.ok none), 32)] ∧
      afterFirst.1.replies [.next, .next] { afterFirst.2 with seekFault := none } =
        afterFirst.1.replies [.next, .next] afterFirst.2 ∧
      tenCyclesStream.replies [.next, .restart, .next, .next]
          ({ content := tenCyclesApart } : Tape) =
        tenCyclesStream.replies [.next, .restart, .next, .next]
          ({ content := tenCyclesApart, reads := [.upTo 3] } : Tape) ∧
      ([.next, .restart, .next, .next].foldl Walk.afterCall
          ⟨tenCyclesApart, 1500, { rest := tenCyclesApart }, {}⟩).restart =
        ⟨tenCyclesApart, 1500, { rest := tenCyclesApart }, {}⟩ := by
  obtain ⟨hstream, hwalk⟩ := restart_renews (σ := Tape) 16 1500 tenCyclesApart
  have hstart : Stream.start 16 1500 { unreliable with seekFault := some 2 } =
      (.ok tenCyclesStream, unreliable) := by decide +kernel
  refine ⟨by decide +kernel, ?_, ?_, hwalk rfl _⟩
  · have hfailed : afterFirst.1.restart afterFirst.2 =
        (.error (.device Tape.seekFailure), afterFirst.1,
          { afterFirst.2 with seekFault := none }) := by decide +kernel
    obtain ⟨-, hreplies⟩ := (hstream hstart rfl [.next]).failed hfailed
    exact hreplies (t := afterFirst.2) Tape.isReadSimulation ⟨rfl, rfl⟩ [.next, .next]
      fun hmem => absurd hmem (by decide)
  · have hdone : (tenCyclesStream.afterCalls [.next, .restart, .next, .next] unreliable).1.restart
          (tenCyclesStream.afterCalls [.next, .restart, .next, .next] unreliable).2 =
        (.ok (), tenCyclesStream, { content := tenCyclesApart }) := by decide +kernel
    have hsteady : Tape.IsSteady { content := tenCyclesApart } := by simp [Tape.IsSteady]
    have hsteady' : Tape.IsSteady { content := tenCyclesApart, reads := [.upTo 3] } := by
      simp [Tape.IsSteady]
    obtain ⟨t', hopen, hreplies⟩ :=
      (hstream hstart rfl [.next, .restart, .next, .next]).done hdone (Tape.delivers hsteady)
        (Tape.holds hsteady' rfl)
    have hopen' : Stream.start 16 1500
        ({ content := tenCyclesApart, reads := [.upTo 3] } : Tape) =
          (.ok tenCyclesStream, { content := tenCyclesApart, reads := [.upTo 3] }) := by
      decide +kernel
    cases hopen.symm.trans hopen'
    exact hreplies _ fun _ => ⟨Tape.rewinds hsteady rfl, Tape.rewinds hsteady' rfl⟩

end Capture

end PacketTrace
