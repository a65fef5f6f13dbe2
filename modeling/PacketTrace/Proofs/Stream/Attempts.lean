import PacketTrace.Proofs.Capture.Streaming
import PacketTrace.Proofs.Conversion.Simulation
import PacketTrace.Proofs.Pcap.File

/-!
# How often a source is read

A fetch is a loop: a pass over the window (`Window.pass`) answers, or the window
is refilled (`Window.refill`) and the next pass follows. Refilling a window that
is full would bring nothing and not tell it from the end of the source, so that
the loop would not end. But a decoder that asks for more asks for at least a byte,
and the window has room for what it asks for: a full window is not refilled
(`Window.room_pos_of_pass`), and a pass more than there are bytes of room is
enough for an answer (`Window.passes_eq_fetch`).

How often the source is read is seen by watching it (`Watched`). What a fetch reads
fills the room of its window (`Fills`): every attempt asks for all the room there is
left, which is some, and the first one that brings nothing is the last.

* `Window.fetch_watched`: so it is with every fetch;
* `readsToFill`: hence with the calls of both streams, from any state.
-/

namespace PacketTrace

/-! ## The loop -/

namespace Window

variable {σ α : Type}

/-- A pass over the window: what it answers, and the window after it, or `none` if
    the window has to be refilled first. -/
def pass (decoder : Decoder α) (w : Window) : Option (Fetched α × Window) :=
  if w.unread.isEmpty && w.exhausted then some (.ended, w)
  else match decoder w.unread with
    | .value a rest => some (.value a, { w with unread := rest })
    | .refused failure => some (.failed failure, w)
    | .short missing =>
      if w.exhausted then some (.failed .truncatedInput, w)
      else if w.capacity < w.unread.length + missing then some (.failed .windowTooSmall, w)
      else none

/-- Reads as many bytes as there is room for. Where there is none the source is
    not read, since it would bring no bytes and seem to be at its end. -/
def refill [ByteSource σ] (w : Window) (s : σ) : Except DeviceFailure Window × σ :=
  if w.room = 0 then (.ok w, s)
  else match ByteSource.read w.room s with
    | (.error cause, s) => (.error cause, s)
    | (.ok bytes, s) => (.ok (w.fill bytes), s)

/-- At most so many passes, up to the first that answers. -/
def passes [ByteSource σ] (decoder : Decoder α) :
    Nat → Window → σ → Option (Fetched α × Window × σ)
  | 0, _, _ => none
  | n + 1, w, s =>
    match w.pass decoder with
    | some (fetched, w) => some (fetched, w, s)
    | none =>
      match w.refill s with
      | (.error cause, s) => some (.interrupted cause, w, s)
      | (.ok w, s) => passes decoder n w s

section Pass

variable {decoder : Decoder α} {w w' : Window} {fetched : Fetched α}

/-- A window is refilled if its value is cut short, its source may have more, and
    there is room for what is missing. -/
theorem pass_eq_none_iff : w.pass decoder = none ↔
    ¬ (w.unread.isEmpty && w.exhausted) = true ∧ ∃ missing, decoder w.unread = .short missing ∧
      ¬ w.exhausted = true ∧ ¬ w.capacity < w.unread.length + missing := by
  rw [pass]
  by_cases hover : (w.unread.isEmpty && w.exhausted) = true
  · simp [hover]
  · rw [if_neg hover]
    cases hdecoder : decoder w.unread with
    | value a rest => simp
    | refused failure => simp
    | short missing =>
      by_cases hend : w.exhausted = true
      · simp [hend]
      · by_cases hlarge : w.capacity < w.unread.length + missing <;> simp_all

/-- No window is refilled that is full. -/
theorem room_pos_of_pass (hd : decoder.Stable) (h : w.pass decoder = none) : 0 < w.room := by
  obtain ⟨-, missing, hshort, -, hroom⟩ := pass_eq_none_iff.1 h
  have hmissing := hd.short_pos hshort
  rw [room]
  omega

/-- At the end of the source every pass answers. -/
theorem exists_pass_of_exhausted (decoder : Decoder α) (hend : w.exhausted = true) :
    ∃ fetched w', w.pass decoder = some (fetched, w') := by
  rcases hpass : w.pass decoder with _ | ⟨fetched, w'⟩
  · obtain ⟨-, missing, -, hopen, -⟩ := pass_eq_none_iff.1 hpass
    exact absurd hend hopen
  · exact ⟨fetched, w', rfl⟩

variable [ByteSource σ] {s s' : σ}

theorem fetch_of_pass_some (h : w.pass decoder = some (fetched, w')) (s : σ) :
    w.fetch decoder s = (fetched, w', s) := by
  rw [pass] at h
  rw [fetch]
  by_cases hover : (w.unread.isEmpty && w.exhausted) = true
  · rw [if_pos hover] at h ⊢
    cases h
    rfl
  · rw [if_neg hover] at h ⊢
    cases hdecoder : decoder w.unread with
    | value a rest =>
      simp only [hdecoder] at h
      cases h
      rfl
    | refused failure =>
      simp only [hdecoder] at h
      cases h
      rfl
    | short missing =>
      simp only [hdecoder] at h
      by_cases hend : w.exhausted = true
      · rw [if_pos hend] at h
        cases h
        exact dif_pos hend
      · by_cases hlarge : w.capacity < w.unread.length + missing
        · rw [if_neg hend, if_pos hlarge] at h
          cases h
          exact (dif_neg hend).trans (if_pos hlarge)
        · rw [if_neg hend, if_neg hlarge] at h
          cases h

theorem fetch_of_pass_none (h : w.pass decoder = none) {bytes : Bytes}
    (hread : ByteSource.read w.room s = (.ok bytes, s')) :
    w.fetch decoder s = (w.fill bytes).fetch decoder s' := by
  obtain ⟨hmore, missing, hshort, hopen, hroom⟩ := pass_eq_none_iff.1 h
  exact fetch_of_read hmore hshort hopen hroom hread

theorem fetch_of_pass_none_error (h : w.pass decoder = none) {cause : DeviceFailure}
    (hread : ByteSource.read w.room s = (.error cause, s')) :
    w.fetch decoder s = (.interrupted cause, w, s') := by
  obtain ⟨hmore, missing, hshort, hopen, hroom⟩ := pass_eq_none_iff.1 h
  exact fetch_of_read_error hmore hshort hopen hroom hread

end Pass

theorem room_fill (w : Window) (bytes : Bytes) : (w.fill bytes).room = w.room - bytes.length := by
  rw [room, room, fill, List.length_append, Nat.sub_sub]

theorem room_fill_cons_lt {w : Window} (hpos : 0 < w.room) (b : UInt8) (bytes : Bytes) :
    (w.fill (b :: bytes)).room < w.room := by
  rw [room_fill, List.length_cons]
  exact Nat.sub_lt hpos (Nat.zero_lt_succ _)

/-- The loop comes to what is fetched, within a pass more than there are bytes of
    room. -/
theorem passes_eq_fetch [ByteSource σ] {decoder : Decoder α} (hd : decoder.Stable) {n : Nat}
    {w : Window} (h : w.room < n) (s : σ) :
    passes decoder n w s = some (w.fetch decoder s) := by
  induction n generalizing w s with
  | zero => exact absurd h (Nat.not_lt_zero _)
  | succ n ih =>
    rw [passes]
    rcases hpass : w.pass decoder with _ | ⟨fetched, w'⟩
    · have hpos := room_pos_of_pass hd hpass
      rw [refill, if_neg (Nat.ne_of_gt hpos)]
      rcases hread : ByteSource.read w.room s with ⟨cause | bytes, s'⟩
      · rw [fetch_of_pass_none_error hpass hread]
      · rw [fetch_of_pass_none hpass hread]
        cases bytes with
        | cons b bytes =>
          have hlt := room_fill_cons_lt hpos b bytes
          exact ih (Nat.lt_of_lt_of_le hlt (Nat.le_of_lt_succ h)) s'
        | nil =>
          -- The end of the source leaves the room as it is, but one pass is enough.
          obtain ⟨m, rfl⟩ : ∃ m, n = m + 1 := ⟨n - 1, by omega⟩
          obtain ⟨fetched, w', hlast⟩ :=
            exists_pass_of_exhausted decoder (w := w.fill []) rfl
          simp only [passes, hlast, fetch_of_pass_some hlast]
    · rw [fetch_of_pass_some hpass]

end Window

/-! ## The reads -/

/-- An attempt to read a source. -/
structure Attempt where
  /-- The most bytes that may be read. -/
  asked : Nat
  result : Except DeviceFailure Bytes

/-- A source with the attempts to read it, the last one last. -/
structure Watched (σ : Type) where
  source : σ
  attempts : List Attempt

instance {σ : Type} [ByteSource σ] : ByteSource (Watched σ) where
  read n t :=
    let (result, source) := ByteSource.read n t.source
    (result, { source, attempts := t.attempts ++ [{ asked := n, result }] })
  bound t := ByteSource.bound t.source
  length_read_le := by
    intro n t bytes t' h
    rw [Prod.mk.injEq] at h
    exact ByteSource.length_read_le (Prod.ext h.1 rfl)

theorem read_watched {σ : Type} [ByteSource σ] {n : Nat} {s s' : σ}
    {result : Except DeviceFailure Bytes} (h : ByteSource.read n s = (result, s'))
    (earlier : List Attempt) :
    ByteSource.read n (Watched.mk s earlier) =
      (result, { source := s', attempts := earlier ++ [{ asked := n, result }] }) := by
  rw [ByteSource.read, instByteSourceWatched]
  simp only [h]

/-- The attempts that fill so much room. Each asks for all that is left of it, which
    is some, and is the last one unless it brings bytes. -/
inductive Fills : Nat → List Attempt → Prop where
  | done (room : Nat) : Fills room []
  | failed {room : Nat} (cause : DeviceFailure) (hroom : 0 < room) :
    Fills room [{ asked := room, result := .error cause }]
  | ended {room : Nat} (hroom : 0 < room) : Fills room [{ asked := room, result := .ok [] }]
  | brought {room : Nat} {bytes : Bytes} {attempts : List Attempt} (hroom : 0 < room)
    (hbytes : bytes ≠ []) (hlength : bytes.length ≤ room)
    (hrest : Fills (room - bytes.length) attempts) :
    Fills room ({ asked := room, result := .ok bytes } :: attempts)

/-- There are not more attempts than there are bytes of room. -/
theorem Fills.length_le {room : Nat} {attempts : List Attempt} (h : Fills room attempts) :
    attempts.length ≤ room := by
  induction h with
  | done room => exact Nat.zero_le room
  | failed cause hroom => exact hroom
  | ended hroom => exact hroom
  | brought hroom hbytes hlength hrest ih =>
    have hpos := List.length_pos_iff.2 hbytes
    rw [List.length_cons]
    omega

/-- A source in the state `s`, after attempts that fill the window, no more than its
    capacity, and others before them. -/
def Filling {σ : Type} (w : Window) (earlier : List Attempt) (s : σ) (t : Watched σ) : Prop :=
  t.source = s ∧ ∃ attempts, t.attempts = earlier ++ attempts ∧ Fills w.room attempts ∧
    attempts.length ≤ w.capacity

section Filling

variable {σ : Type} {w : Window} {earlier attempts : List Attempt}

theorem filling_of_fills (h : Fills w.room attempts) (s : σ) :
    Filling w earlier s { source := s, attempts := earlier ++ attempts } :=
  ⟨rfl, attempts, rfl, h, Nat.le_trans h.length_le (Nat.sub_le _ _)⟩

theorem filling_self (w : Window) (earlier : List Attempt) (s : σ) :
    Filling w earlier s { source := s, attempts := earlier } := by
  have hfilling : Filling w earlier s { source := s, attempts := earlier ++ [] } :=
    filling_of_fills (.done _) s
  rwa [List.append_nil] at hfilling

end Filling

/-- What a fetch reads fills its window, from any source and with any decoder that
    asks for some bytes when it asks. -/
theorem Window.fetch_watched {σ α : Type} [ByteSource σ] {decoder : Decoder α}
    (hd : decoder.Stable) (w : Window) (s : σ) (earlier : List Attempt) :
    AlikeWith (Filling w earlier) (w.fetch decoder s)
      (w.fetch decoder (Watched.mk s earlier)) := by
  induction hroom : w.room using Nat.strong_induction_on generalizing w s earlier with
  | _ room ih =>
    rcases hpass : w.pass decoder with _ | ⟨fetched, w'⟩
    · subst hroom
      have hpos := room_pos_of_pass hd hpass
      rcases hread : ByteSource.read w.room s with ⟨cause | bytes, s'⟩
      · rw [fetch_of_pass_none_error hpass hread,
          fetch_of_pass_none_error hpass (read_watched hread earlier)]
        exact ⟨_, rfl, filling_of_fills (.failed cause hpos) s'⟩
      · rw [fetch_of_pass_none hpass hread, fetch_of_pass_none hpass (read_watched hread earlier)]
        cases bytes with
        | nil =>
          obtain ⟨fetched, w', hlast⟩ := exists_pass_of_exhausted decoder (w := w.fill []) rfl
          rw [fetch_of_pass_some hlast, fetch_of_pass_some hlast]
          exact ⟨_, rfl, filling_of_fills (.ended hpos) s'⟩
        | cons b bytes =>
          have hlength := ByteSource.length_read_le hread
          obtain ⟨t, hfetch, hsource, attempts, hattempts, hfills, -⟩ :=
            ih _ (room_fill_cons_lt hpos b bytes) _ s' _ rfl
          obtain ⟨source, _⟩ := t
          subst hsource hattempts
          rw [room_fill] at hfills
          refine ⟨_, hfetch, ?_⟩
          rw [List.append_assoc]
          exact filling_of_fills (.brought hpos (List.cons_ne_nil b bytes) hlength hfills) _
    · rw [fetch_of_pass_some hpass, fetch_of_pass_some hpass]
      exact alikeWith_mk (filling_self w earlier s) _ _

/-! ## The calls -/

/-- The loop that fetches with this decoder ends. It never refills a window that is
    full, and it has what is fetched after a pass more than there is room. -/
structure Ends {α : Type} (decoder : Decoder α) : Prop where
  room_pos : ∀ {w : Window}, w.pass decoder = none → 0 < w.room
  passes : ∀ {σ : Type} [ByteSource σ] (w : Window) (s : σ),
    w.passes decoder (w.room + 1) s = some (w.fetch decoder s)

theorem ends_of_stable {α : Type} {decoder : Decoder α} (hd : decoder.Stable) : Ends decoder where
  room_pos := Window.room_pos_of_pass hd
  passes _ s := Window.passes_eq_fetch hd (Nat.lt_succ_self _) s

/-- The loops of both streams end, and a call in any state of a stream reads any
    source to fill its window. -/
theorem readsToFill {σ : Type} [ByteSource σ] (s : σ) (earlier : List Attempt) :
    (∀ limit, Ends (Trace.Record.decoder (Capture.stored limit))) ∧
    Ends Pcap.Header.decoder ∧ Ends Pcap.Entry.decoder ∧
    (∀ r : Capture.Stream,
      AlikeWith (Filling r.window earlier) (r.next s) (r.next (Watched.mk s earlier))) ∧
    (∀ r : Pcap.Stream,
      AlikeWith (Filling r.window earlier) (r.next s) (r.next (Watched.mk s earlier))) ∧
    ∀ w : Window, Alike (Filling w earlier) (Pcap.Stream.ofWindow w s)
      (Pcap.Stream.ofWindow w (Watched.mk s earlier)) := by
  refine ⟨fun limit => ends_of_stable (Trace.Record.stable_decoder _),
    ends_of_stable Pcap.Header.stable_decoder, ends_of_stable Pcap.Entry.stable_decoder,
    fun r => ?_, fun r => ?_, fun w => ?_⟩
  · exact Capture.Stream.next_alike_of_fetch (filling_self r.window earlier s)
      (Window.fetch_watched (Trace.Record.stable_decoder _) r.window s earlier)
  · exact Pcap.Stream.next_alike_of_fetch (filling_self r.window earlier s)
      (Window.fetch_watched Pcap.Entry.stable_decoder r.window s earlier)
  · exact Pcap.Stream.ofWindow_alike_of_fetch
      (Window.fetch_watched Pcap.Header.stable_decoder w s earlier)

end PacketTrace
