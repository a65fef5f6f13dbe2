import PacketTrace.CommandLine.Run

/-!
# The program

Answers its arguments (`CommandLine.run`) on the files that they name: those
are loaded into a directory, and what has changed is stored when the answer is
there.
-/

namespace PacketTrace

namespace Program

/-- The number by which the system tells that a folder was read like a file. -/
def folderErrorCode : UInt32 := 21

/-- Adds what is found at a location to a directory. -/
def loadLocation (d : Directory) (l : Location) : IO Directory := do
  try
    let bytes ← IO.FS.readBinFile l.name
    return d.put l bytes
  catch
    | .inappropriateType _ code _ =>
      return if code = folderErrorCode then { d with folders := l :: d.folders } else d
    | _ => return d

/-- Adds what is found along a path. -/
def loadName (d : Directory) (name : String) : IO Directory :=
  (Path.ofName name).visited.foldlM loadLocation d

/-- Stores the files that have changed. -/
def store (before after : Directory) : IO Unit :=
  after.files.forM fun (l, bytes) => do
    if before.content? l ≠ some bytes then IO.FS.writeBinFile l.name bytes

end Program

end PacketTrace

open PacketTrace in
/-- Answers the arguments of the program. -/
def main (arguments : List String) : IO UInt32 := do
  let before ← (CommandLine.names arguments).foldlM Program.loadName {}
  let (report, after) := CommandLine.run arguments before
  Program.store before after
  IO.print report.output
  IO.eprint report.errors
  return UInt32.ofNat report.exitCode
