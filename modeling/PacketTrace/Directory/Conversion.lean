import PacketTrace.ConstantRate
import PacketTrace.Directory.File
import PacketTrace.Totals

/-!
# Working on files

The conversions, the generator and the totals on the files of a directory.
The input is opened and checked before the output is created; from then on,
the output holds what had been written when the work ended, well or not.
-/

namespace PacketTrace

namespace Directory

/-- Creates a file and writes to it: what is held back at the end is written
    out. -/
def writeFile {α : Type} (d : Directory) (name : String)
    (work : Writing → Except Failure α × Writing) : Except Failure α × Directory :=
  match d.create name with
  | .error cause => (.error (.device cause), d)
  | .ok (location, directory) =>
    let (result, writing) := work { directory, output := { location } }
    (result, writing.settle.directory)

/-- Creates a file and writes to it while another one is read, whose first
    bytes may have been read already. -/
def copyFile {α : Type} (r : Reading) (name : String)
    (work : Copying → Except Failure α × Copying) : Except Failure α × Directory :=
  r.directory.writeFile name fun writing =>
    let (result, copying) := work { writing with input := r.input }
    (result, copying.toWriting)

/-- Opens a file to be read. -/
def openInput (d : Directory) (name : String) : Except Failure Reading :=
  match InputFile.ofName d name with
  | .error cause => .error (.device cause)
  | .ok input => .ok { directory := d, input }

/-- Converts a file with a capture trace to a packet file. -/
def captureToPcap (d : Directory) (input output : String) (limit : UInt16) (capacity : Nat) :
    Except Failure Tally × Directory :=
  match d.openInput input with
  | .error failure => (.error failure, d)
  | .ok reading =>
    match Capture.Stream.start capacity limit reading with
    | (.error failure, _) => (.error failure, d)
    | (.ok stream, reading) => copyFile reading output (writePcap stream)

/-- Converts a packet file to a file with a replay trace. -/
def pcapToReplay (d : Directory) (input output : String) (capacity : Nat) :
    Except Failure Tally × Directory :=
  match d.openInput input with
  | .error failure => (.error failure, d)
  | .ok reading =>
    match Pcap.Stream.start capacity reading with
    | (.error failure, _) => (.error failure, d)
    | (.ok stream, reading) => copyFile reading output (writeReplay stream)

/-- The totals of a file with a trace. -/
def totals (d : Directory) (name : String) (kind : TraceKind) : Except Failure Totals :=
  match d.read name with
  | .error cause => .error (.device cause)
  | .ok trace => Totals.ofTrace kind trace

end Directory

end PacketTrace
