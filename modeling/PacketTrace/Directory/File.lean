import PacketTrace.Directory.Basic
import PacketTrace.Stream.Sink
import PacketTrace.Stream.Source

/-!
# Open files

Files of a directory as sources and sinks. A file that is read (`InputFile`)
keeps its place in the file and reads ahead a block at a time, except when a
block or more is asked for; a file that is written (`OutputFile`) holds bytes
back until they do not fit in a block.

The files work on the directory as it is at the time, so that a file that is
read while it is written shows what has been written out so far. The states
that hold a directory with its open files are `Writing`, `Reading` and, for
both at once, `Copying`.
-/

namespace PacketTrace

/-- The bytes that are read ahead or held back at most. -/
def blockSize : Nat := 8192

/-- No file is longer than this. -/
def maximalFileSize : Nat := 2 ^ 64

/-- The end of a folder, which has no bytes to count: the last place there
    is. -/
def folderEnd : Nat := 2 ^ 63 - 1

/-! ## Input -/

/-- A file that is read. -/
structure InputFile where
  /-- The file, or a folder, which cannot be read. -/
  target : Found
  /-- The place in the file where the next bytes are read. -/
  offset : Nat := 0
  /-- The bytes that were read ahead. -/
  ahead : Bytes := []

namespace InputFile

/-- Opens what a name stands for. -/
def ofName (d : Directory) (name : String) : Except DeviceFailure InputFile :=
  (d.find name).map fun target => { target }

/-- Reads at most `n` bytes from the file. -/
def readThrough (d : Directory) (n : Nat) (f : InputFile) :
    Except DeviceFailure Bytes × InputFile :=
  match f.target with
  | .folder _ => (.error .isAFolder, f)
  | .file l =>
    let bytes := ((d.content l).extract f.offset (f.offset + n)).data.toList
    (.ok bytes, { f with offset := f.offset + bytes.length })

/-- Takes at most `n` bytes of those that were read ahead. -/
def takeAhead (n : Nat) (f : InputFile) : Except DeviceFailure Bytes × InputFile :=
  (.ok (f.ahead.take n), { f with ahead := f.ahead.drop n })

/-- Reads at most `n` bytes. -/
def read (d : Directory) (n : Nat) (f : InputFile) : Except DeviceFailure Bytes × InputFile :=
  if !f.ahead.isEmpty then f.takeAhead n
  else if blockSize ≤ n then f.readThrough d n
  else
    match f.readThrough d blockSize with
    | (.error cause, f) => (.error cause, f)
    | (.ok ahead, f) => { f with ahead }.takeAhead n

theorem length_read_le {d : Directory} {n : Nat} {f f' : InputFile} {bytes : Bytes}
    (h : f.read d n = (.ok bytes, f')) : bytes.length ≤ n := by
  have hahead : ∀ {g : InputFile}, g.takeAhead n = (.ok bytes, f') → bytes.length ≤ n := by
    intro g hg
    simp only [takeAhead, Prod.mk.injEq, Except.ok.injEq] at hg
    rw [← hg.1, List.length_take]
    omega
  unfold read at h
  split at h
  · exact hahead h
  · split at h
    · unfold readThrough at h
      split at h
      · simp at h
      · simp only [Prod.mk.injEq, Except.ok.injEq] at h
        rw [← h.1, Array.length_toList, ByteArray.size_data, ByteArray.size_extract]
        omega
    · split at h
      · simp at h
      · exact hahead h

/-- The number of bytes yet to be read, if the file stays as it is. -/
def remaining (d : Directory) (f : InputFile) : Nat :=
  match f.target with
  | .folder _ => 0
  | .file l => f.ahead.length + ((d.content l).size - f.offset)

/-- Moves to the end of the file, which tells its size. -/
def seekEnd (d : Directory) (f : InputFile) : Nat × InputFile :=
  let size := match f.target with
    | .folder _ => folderEnd
    | .file l => (d.content l).size
  (size, { f with offset := size, ahead := [] })

/-- Moves to the start of the file. -/
def rewind (f : InputFile) : InputFile := { f with offset := 0, ahead := [] }

end InputFile

/-! ## Output -/

/-- A file that is written. -/
structure OutputFile where
  location : Location
  /-- The bytes that are held back. -/
  held : ByteArray := .empty

/-- A directory with a file that is written. -/
structure Writing where
  directory : Directory
  output : OutputFile

namespace Writing

/-- Writes out the bytes that are held back. -/
def settle (w : Writing) : Writing where
  directory := w.directory.append w.output.location w.output.held
  output := { w.output with held := .empty }

/-- Holds bytes back, or writes them out if they fill a block. -/
def hold (bytes : Bytes) (w : Writing) : Writing :=
  if blockSize ≤ bytes.length then
    { w with directory := w.directory.append w.output.location bytes.toByteArray }
  else { w with output := { w.output with held := w.output.held ++ bytes.toByteArray } }

/-- Writes bytes, after those that are held back if they do not fit with
    them. -/
def write (bytes : Bytes) (w : Writing) : Writing :=
  if blockSize < w.output.held.size + bytes.length then w.settle.hold bytes else w.hold bytes

instance : ByteSink Writing where
  write bytes w := (.ok bytes.length, w.write bytes)
  flush w := (.ok (), w.settle)

end Writing

/-! ## States -/

/-- A directory with a file that is read. -/
structure Reading where
  directory : Directory
  input : InputFile

instance : SeekableSource Reading where
  read n r :=
    let (result, input) := r.input.read r.directory n
    (result, { r with input })
  bound r := r.input.remaining r.directory
  length_read_le := by
    intro n r bytes r' h
    simp only [Prod.mk.injEq] at h
    exact InputFile.length_read_le (Prod.ext h.1 rfl)
  seekEnd r :=
    let (size, input) := r.input.seekEnd r.directory
    (.ok size, { r with input })
  rewind r := (.ok (), { r with input := r.input.rewind })

/-- A directory with a file that is read and one that is written, which may be
    the same. -/
structure Copying extends Writing where
  input : InputFile

instance : ByteSource Copying where
  read n c :=
    let (result, input) := c.input.read c.directory n
    (result, { c with input })
  bound c := c.input.remaining c.directory + maximalFileSize
  length_read_le := by
    intro n c bytes c' h
    simp only [Prod.mk.injEq] at h
    exact InputFile.length_read_le (Prod.ext h.1 rfl)

instance : ByteSink Copying where
  write bytes c := (.ok bytes.length, { c with toWriting := c.toWriting.write bytes })
  flush c := (.ok (), { c with toWriting := c.toWriting.settle })

end PacketTrace
