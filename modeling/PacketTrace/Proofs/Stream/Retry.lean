import PacketTrace.Proofs.Capture.Streaming
import PacketTrace.Proofs.Pcap.Entry
import PacketTrace.Proofs.Pcap.Streaming
import PacketTrace.Proofs.Stream.Window

/-!
# Reads that fail and are tried again

A read that fails leaves the tape where it is, and the window that was to be
filled as well. What has been read for a value before is still in the window,
so the next fetch goes on with it (`Window.fetch_faultless`). A stream that
answers with the failure of a read has therefore not moved, and its next answer
is what this one would have been (`Resumes`).

* `Resumes.exists_filter_answers`: in any run, what remains of the answers is the
  beginning of those from a tape on which no read fails;
* `toleratesFaults`: hence what failing reads do to a stream, and what any other
  failure does.
-/

namespace PacketTrace

/-! ## Tapes without faults -/

namespace Tape

/-- The tape on which the reads that fail are left out. -/
def faultless (t : Tape) : Tape := { t with reads := t.reads.filter (· ≠ .fail) }

/-- The number of reads that are set to fail. -/
def faults (t : Tape) : ℕ := t.reads.count .fail

variable {t t' : Tape} {n : ℕ}

/-- A read that fails is one fault less, and moves nothing. -/
theorem read_eq_error {cause : DeviceFailure} (h : t.read n = (.error cause, t')) :
    t'.faultless = t.faultless ∧ t'.faults < t.faults := by
  obtain ⟨content, rest, reads, seekFault⟩ := t
  cases reads with
  | nil => cases h
  | cons step reads =>
    cases step with
    | upTo limit => cases h
    | fail =>
      cases h
      refine ⟨rfl, ?_⟩
      rw [faults, faults, List.count_cons_self]
      exact Nat.lt_succ_self _

/-- Any other read is the same without faults. -/
theorem read_eq_ok {bytes : Bytes} (h : t.read n = (.ok bytes, t')) :
    t.faultless.read n = (.ok bytes, t'.faultless) ∧ t'.faults = t.faults := by
  obtain ⟨content, rest, reads, seekFault⟩ := t
  cases reads with
  | nil =>
    cases h
    exact ⟨rfl, rfl⟩
  | cons step reads =>
    cases step with
    | upTo limit =>
      cases h
      refine ⟨rfl, ?_⟩
      rw [faults, faults, List.count_cons_of_ne (by simp)]
    | fail => cases h

end Tape

/-! ## Fetches -/

/-- The source has failed. -/
def Fetched.isInterrupted {α : Type} : Fetched α → Bool
  | interrupted _ => true
  | _ => false

namespace Window

variable {α : Type}

/-- A fetch is interrupted by a fault, and the next one then goes on to what this
    one would have come to without faults. Any other fetch is not touched by the
    faults that are to come. -/
theorem fetch_faultless (decoder : Decoder α) (w : Window) (t : Tape) :
    (∃ cause w' t', w.fetch decoder t = (.interrupted cause, w', t') ∧
      w'.fetch decoder t'.faultless = w.fetch decoder t.faultless ∧ t'.faults < t.faults) ∨
    ∃ fetched w' t', w.fetch decoder t = (fetched, w', t') ∧
      fetched.isInterrupted = false ∧
      w.fetch decoder t.faultless = (fetched, w', t'.faultless) ∧ t'.faults = t.faults := by
  fun_induction fetch decoder w t with
  | case1 w t hover =>
    refine .inr ⟨.ended, w, t, rfl, rfl, ?_, rfl⟩
    rw [fetch, if_pos hover]
  | case2 w t hmore a rest hvalue =>
    refine .inr ⟨.value a, { w with unread := rest }, t, rfl, rfl, ?_, rfl⟩
    rw [fetch, if_neg hmore, hvalue]
  | case3 w t hmore failure hrefused =>
    refine .inr ⟨.failed failure, w, t, rfl, rfl, ?_, rfl⟩
    rw [fetch, if_neg hmore, hrefused]
  | case4 w t hmore missing hshort hend =>
    refine .inr ⟨.failed .truncatedInput, w, t, rfl, rfl, ?_, rfl⟩
    rw [fetch, if_neg hmore, hshort]
    exact dif_pos hend
  | case5 w t hmore missing hshort hopen hlarge =>
    refine .inr ⟨.failed .windowTooSmall, w, t, rfl, rfl, ?_, rfl⟩
    rw [fetch, if_neg hmore, hshort]
    exact (dif_neg hopen).trans (if_pos hlarge)
  | case6 w t hmore missing hshort hopen hroom cause t' hread =>
    obtain ⟨hsame, hfaults⟩ := Tape.read_eq_error hread
    exact .inl ⟨cause, w, t', rfl, by rw [hsame], hfaults⟩
  | case7 w t hmore missing hshort hopen hroom bytes t₁ hread ih =>
    obtain ⟨hread', hfaults⟩ := Tape.read_eq_ok hread
    have hstep : w.fetch decoder t.faultless = (w.fill bytes).fetch decoder t₁.faultless :=
      fetch_of_read hmore hshort hopen hroom hread'
    rw [hstep, ← hfaults]
    exact ih

end Window

/-! ## Streams -/

/-- The answer is that a read has failed. -/
def isFault {α : Type} : Except Failure α → Bool
  | .error (.device _) => true
  | _ => false

/-- If a call answers with a fault, the stream next answers what it would have
    answered now without faults. Any other call is not touched by the faults that
    are to come. -/
def Resumes {ι α : Type} (next : ι → Tape → Except Failure α × ι × Tape) : Prop :=
  ∀ r t,
    (isFault (next r t).1 = true ∧
      next (next r t).2.1 (next r t).2.2.faultless = next r t.faultless ∧
      (next r t).2.2.faults < t.faults) ∨
    (isFault (next r t).1 = false ∧
      next r t.faultless = ((next r t).1, (next r t).2.1, (next r t).2.2.faultless) ∧
      (next r t).2.2.faults = t.faults)

/-- What is left of the answers without the faults are the first answers of a run
    without faults, and no more of them are missing than there are faults. -/
theorem Resumes.exists_filter_answers {ι α : Type} {next : ι → Tape → Except Failure α × ι × Tape}
    (h : Resumes next) {r r₀ : ι} {t t₀ : Tape} (hstart : next r t.faultless = next r₀ t₀) (n : ℕ) :
    ∃ m ≤ n, n ≤ m + t.faults ∧
      (answers (Function.uncurry next) (r, t) n).filter (!isFault ·) =
        answers (Function.uncurry next) (r₀, t₀) m := by
  induction n generalizing r r₀ t t₀ with
  | zero => exact ⟨0, Nat.le_refl 0, Nat.zero_le _, rfl⟩
  | succ n ih =>
    rw [answers, Function.uncurry_apply_pair]
    rcases h r t with ⟨hfault, hsame, hfaults⟩ | ⟨hfault, hsame, hfaults⟩
    · -- The run without faults waits.
      obtain ⟨m, hm, hn, hfilter⟩ := ih (hsame.trans hstart)
      refine ⟨m, Nat.le_succ_of_le hm, by omega, ?_⟩
      rw [List.filter_cons_of_neg (by rw [hfault]; decide)]
      exact hfilter
    · obtain ⟨m, hm, hn, hfilter⟩ := @ih (next r t).2.1 _ (next r t).2.2 _ rfl
      refine ⟨m + 1, Nat.succ_le_succ hm, by omega, ?_⟩
      rw [List.filter_cons_of_pos (by rw [hfault]; decide), answers, Function.uncurry_apply_pair,
        ← hstart, hsame]
      exact congrArg _ hfilter

/-- A stream whose answers are those of a run without faults, but for the faults
    themselves. A fault changes no more of the stream than its window, and any
    other failure is the end of it. -/
structure ToleratesFaults {ι α : Type} (next : ι → Tape → Except Failure (Option α) × ι × Tape)
    (withWindow : ι → Window → ι) : Prop where
  transparent : ∀ r t n, ∃ m ≤ n, n ≤ m + t.faults ∧
    (answers (Function.uncurry next) (r, t) n).filter (!isFault ·) =
      answers (Function.uncurry next) (r, t.faultless) m
  unmoved : ∀ r t, isFault (next r t).1 = true → ∃ w, (next r t).2.1 = withWindow r w
  final : ∀ r t failure, (next r t).1 = .error failure → isFault (next r t).1 = false →
    ∀ n, answer (Function.uncurry next) (next r t).2 n = .ok none

/-- A stream tolerates faults if it resumes after them, and any other failure
    finishes it. -/
theorem Resumes.tolerates {ι α : Type}
    {next : ι → Tape → Except Failure (Option α) × ι × Tape} {withWindow : ι → Window → ι}
    (h : Resumes next) (finished : ι → Bool)
    (hfinished : ∀ {r}, finished r = true → ∀ t, next r t = (.ok none, r, t))
    (herror : ∀ {r r' t t' failure}, next r t = (.error failure, r', t') →
      (∃ cause w, failure = .device cause ∧ r' = withWindow r w) ∨
        isFault (.error failure : Except Failure (Option α)) = false ∧ finished r' = true) :
    ToleratesFaults next withWindow where
  transparent r t n := h.exists_filter_answers rfl n
  unmoved := by
    intro r t hfault
    rcases hnext : next r t with ⟨failure | a, r', t'⟩ <;> rw [hnext] at hfault
    · rcases herror hnext with ⟨cause, w, -, hwindow⟩ | ⟨hother, -⟩
      · exact ⟨w, hwindow⟩
      · exact absurd (hother.symm.trans hfault) Bool.false_ne_true
    · cases hfault
  final := by
    intro r t failure hanswer hother n
    obtain ⟨r', t', hnext⟩ : ∃ r' t', next r t = (.error failure, r', t') :=
      ⟨_, _, Prod.ext hanswer rfl⟩
    rw [hnext] at hother ⊢
    rcases herror hnext with ⟨cause, w, rfl, -⟩ | ⟨-, hend⟩
    · cases hother
    · have hcall : Function.uncurry next (r', t') = (.ok none, r', t') := hfinished hend t'
      exact answer_of_fixed hcall n

/-- What a window fails for by itself is no fault. -/
theorem Window.isFault_of_failed {σ α β : Type} [ByteSource σ] {decoder : Decoder α}
    (hdecoder : ∀ input failure, decoder input ≠ .refused failure) {w w' : Window} {s s' : σ}
    {failure : Failure} (h : w.fetch decoder s = (.failed failure, w', s')) :
    isFault (.error failure : Except Failure β) = false := by
  rcases exists_of_fetch_eq_failed (congrArg Prod.fst h) with rfl | rfl | ⟨unread, hrefused⟩
  · rfl
  · rfl
  · exact absurd hrefused (hdecoder unread failure)

namespace Capture.Stream

theorem resumes_next : Resumes (next (σ := Tape)) := by
  intro r t
  by_cases hfinished : r.finished = true
  · rw [next_of_finished hfinished t, next_of_finished hfinished t.faultless]
    exact .inr ⟨rfl, rfl, rfl⟩
  · rcases r.window.fetch_faultless (Trace.Record.decoder (stored r.limit)) t with
      ⟨cause, w, t', hfetch, hsame, hfaults⟩ | ⟨fetched, w, t', hfetch, hopen, hsame, hfaults⟩
    · refine .inl ?_
      rw [next, if_neg hfinished, hfetch]
      refine ⟨rfl, ?_, hfaults⟩
      rw [next, next, if_neg hfinished, if_neg hfinished, hsame]
    · refine .inr ?_
      rw [next, next, if_neg hfinished, if_neg hfinished, hfetch, hsame]
      cases fetched with
      | value entry => cases entry <;> exact ⟨rfl, rfl, hfaults⟩
      | ended => exact ⟨rfl, rfl, hfaults⟩
      | failed failure =>
        exact ⟨Window.isFault_of_failed (Trace.Record.decoder_ne_refused _) hfetch, rfl, hfaults⟩
      | interrupted cause => cases hopen

/-- A call that fails leaves the stream where it is, or ends it. -/
theorem next_eq_error {σ : Type} [ByteSource σ] {r r' : Stream} {s s' : σ} {failure : Failure}
    (h : r.next s = (.error failure, r', s')) :
    (∃ cause w, failure = .device cause ∧ r' = { r with window := w }) ∨
      isFault (.error failure : Except Failure (Option Packet)) = false ∧ r'.finished = true := by
  rw [next] at h
  split at h
  · cases h
  · rcases hfetch : r.window.fetch (Trace.Record.decoder (stored r.limit)) s with
      ⟨(_ | _) | _ | failure | cause, w, s₁⟩ <;> rw [hfetch] at h <;> cases h
    · exact .inr ⟨Window.isFault_of_failed (Trace.Record.decoder_ne_refused _) hfetch, rfl⟩
    · exact .inl ⟨cause, w, rfl, rfl⟩

end Capture.Stream

namespace Pcap.Stream

theorem resumes_next : Resumes (next (σ := Tape)) := by
  intro r t
  by_cases hfinished : r.finished = true
  · rw [next_of_finished hfinished t, next_of_finished hfinished t.faultless]
    exact .inr ⟨rfl, rfl, rfl⟩
  · rcases r.window.fetch_faultless Entry.decoder t with
      ⟨cause, w, t', hfetch, hsame, hfaults⟩ | ⟨fetched, w, t', hfetch, hopen, hsame, hfaults⟩
    · refine .inl ?_
      rw [next, if_neg hfinished, hfetch]
      refine ⟨rfl, ?_, hfaults⟩
      rw [next, next, if_neg hfinished, if_neg hfinished, hsame]
    · refine .inr ?_
      rw [next, next, if_neg hfinished, if_neg hfinished, hfetch, hsame]
      cases fetched with
      | value entry => exact ⟨rfl, rfl, hfaults⟩
      | ended => exact ⟨rfl, rfl, hfaults⟩
      | failed failure =>
        exact ⟨Window.isFault_of_failed Entry.decoder_ne_refused hfetch, rfl, hfaults⟩
      | interrupted cause => cases hopen

/-- A call that fails leaves the stream where it is, or ends it. -/
theorem next_eq_error {σ : Type} [ByteSource σ] {r r' : Stream} {s s' : σ} {failure : Failure}
    (h : r.next s = (.error failure, r', s')) :
    (∃ cause w, failure = .device cause ∧ r' = { r with window := w }) ∨
      isFault (.error failure : Except Failure (Option Packet)) = false ∧ r'.finished = true := by
  rw [next] at h
  split at h
  · cases h
  · rcases hfetch : r.window.fetch Entry.decoder s with ⟨_ | _ | failure | cause, w, s₁⟩ <;>
      rw [hfetch] at h <;> cases h
    · exact .inr ⟨Window.isFault_of_failed Entry.decoder_ne_refused hfetch, rfl⟩
    · exact .inl ⟨cause, w, rfl, rfl⟩

end Pcap.Stream

/-- Failing reads do no more to a capture trace or a packet file that is streamed
    than delay its packets: whatever the content of the tape, the capacity of the
    window, the reads that are set, and the place where the stream is. -/
theorem toleratesFaults :
    ToleratesFaults Capture.Stream.next (fun r w => { r with window := w }) ∧
      ToleratesFaults Pcap.Stream.next fun r w => { r with window := w } := by
  constructor
  · exact Capture.Stream.resumes_next.tolerates Capture.Stream.finished
      Capture.Stream.next_of_finished Capture.Stream.next_eq_error
  · exact Pcap.Stream.resumes_next.tolerates Pcap.Stream.finished
      Pcap.Stream.next_of_finished Pcap.Stream.next_eq_error

/-- Reads fail before the tag of a record and in the middle of it. -/
example :
    answers (Function.uncurry Capture.Stream.next)
      (({ size := 64, limit := 1500, window := { capacity := 16 } } : Capture.Stream),
        ({ content := [0, 0, 0, 0, 0, 0, 64, 0, 7, 8, 0, 0, 0, 0, 0, 0] ++ List.replicate 48 255
           reads := [.fail, .upTo 3, .fail] } : Tape)) 4 =
      [.error (.device Tape.readFailure), .error (.device Tape.readFailure),
        .ok (some ⟨0, 2, [7, 8]⟩), .ok none] := by
  decide +kernel

end PacketTrace
