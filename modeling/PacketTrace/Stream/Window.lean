import PacketTrace.Bytes.Decoder
import PacketTrace.Stream.Source

/-!
# Windows

A source is decoded through a *window* of bounded capacity, which holds the
bytes that have been read and not yet decoded (`Window`). To fetch a value
(`Window.fetch`) is to decode what is in the window, and as long as that is
cut short, to read as many bytes as there is room for.

* A source at its end delivers no bytes. If the window is then empty, there
  are no more values; if it is not, the last one is truncated.
* A value that needs more room than the window has is reported before
  anything is read for it, so there is always room when the source is read.
* A source that fails leaves the window as it was, and may be tried again.

Every read either brings bytes into the window or finds the end of the source,
so a fetch reads at most once more than there is room for
(`Window.fetch`, by its termination measure).
-/

namespace PacketTrace

/-- The bytes that have been read from a source and not yet decoded. -/
structure Window where
  /-- The most bytes it can hold. -/
  capacity : Nat
  /-- The bytes it holds. -/
  unread : Bytes := []
  /-- The last read found the end of the source. -/
  exhausted : Bool := false
  deriving DecidableEq

/-- What comes of fetching a value. -/
inductive Fetched (α : Type) where
  /-- A value was decoded. -/
  | value (a : α)
  /-- There are no more values. -/
  | ended
  /-- There is no way to go on. -/
  | failed (failure : Failure)
  /-- The source failed, and may be tried again. -/
  | interrupted (cause : DeviceFailure)
  deriving DecidableEq

namespace Window

variable {σ α : Type}

/-- The number of bytes there is room for. -/
def room (w : Window) : Nat := w.capacity - w.unread.length

/-- The window after bytes were read into it. -/
def fill (w : Window) (bytes : Bytes) : Window :=
  { w with unread := w.unread ++ bytes, exhausted := bytes.isEmpty }

/-- Falls with every read: twice the room, and one more as long as the end of
    the source has not been found. -/
def measure (w : Window) : Nat := 2 * w.room + if w.exhausted then 0 else 1

theorem measure_fill_lt {w : Window} {bytes : Bytes} (hopen : w.exhausted = false)
    (hlength : bytes.length ≤ w.room) : (w.fill bytes).measure < w.measure := by
  cases bytes with
  | nil => simp [measure, room, fill, hopen]
  | cons b bs =>
    simp only [measure, room, fill, hopen, List.isEmpty_cons, Bool.false_eq_true, if_false,
      List.length_append, List.length_cons] at *
    omega

/-- Decodes the next value, reading from the source as needed. -/
def fetch [ByteSource σ] (decoder : Decoder α) (w : Window) (s : σ) : Fetched α × Window × σ :=
  if w.unread.isEmpty && w.exhausted then (.ended, w, s)
  else match decoder w.unread with
    | .value a rest => (.value a, { w with unread := rest }, s)
    | .refused failure => (.failed failure, w, s)
    | .short missing =>
      -- The end of the source counts for more than the want of room: a value
      -- that is cut off is truncated, however long it would have been.
      if _hopen : w.exhausted then (.failed .truncatedInput, w, s)
      else if w.capacity < w.unread.length + missing then (.failed .windowTooSmall, w, s)
      else match _hread : ByteSource.read w.room s with
        | (.error cause, s) => (.interrupted cause, w, s)
        | (.ok bytes, s) => fetch decoder (w.fill bytes) s
termination_by w.measure
decreasing_by
  exact measure_fill_lt (by simpa using _hopen) (ByteSource.length_read_le _hread)

section Read

variable [ByteSource σ] {decoder : Decoder α} {w : Window} {s s' : σ} {missing : Nat}

theorem fetch_of_read (hmore : ¬ (w.unread.isEmpty && w.exhausted) = true)
    (hshort : decoder w.unread = .short missing) (hopen : ¬ w.exhausted = true)
    (hroom : ¬ w.capacity < w.unread.length + missing) {bytes : Bytes}
    (hread : ByteSource.read w.room s = (.ok bytes, s')) :
    w.fetch decoder s = (w.fill bytes).fetch decoder s' := by
  rw [fetch, if_neg hmore, hshort]
  refine (dif_neg hopen).trans ((if_neg hroom).trans ?_)
  split
  next hread' =>
    rw [hread] at hread'
    cases hread'
  next hread' =>
    rw [hread] at hread'
    cases hread'
    rfl

/-- A source that fails leaves the window as it was. -/
theorem fetch_of_read_error (hmore : ¬ (w.unread.isEmpty && w.exhausted) = true)
    (hshort : decoder w.unread = .short missing) (hopen : ¬ w.exhausted = true)
    (hroom : ¬ w.capacity < w.unread.length + missing) {cause : DeviceFailure}
    (hread : ByteSource.read w.room s = (.error cause, s')) :
    w.fetch decoder s = (.interrupted cause, w, s') := by
  rw [fetch, if_neg hmore, hshort]
  refine (dif_neg hopen).trans ((if_neg hroom).trans ?_)
  split
  next hread' =>
    rw [hread] at hread'
    cases hread'
    rfl
  next hread' =>
    rw [hread] at hread'
    cases hread'

end Read

end Window

end PacketTrace
