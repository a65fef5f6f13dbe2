import PacketTrace.CommandLine.Arguments
import PacketTrace.Directory.Conversion

/-!
# Running commands

What a command does to a directory, and what the program says about it
(`CommandLine.run`): a line about what was written, or the totals of a trace,
and exit code 0; or a line that says what went wrong and with which file, and
exit code 1. Arguments that make no request are answered with exit code 2. A
window beyond all memory (`CommandLine.windowLimit`) breaks the work off where
it would be made, with exit code 101.
-/

namespace PacketTrace

namespace CommandLine

/-- What the program says. -/
structure Report where
  exitCode : Nat
  /-- The text for the standard output. -/
  output : String := ""
  /-- The text for the standard error. -/
  errors : String := ""
  deriving DecidableEq

/-- The name and the version of the program. -/
def versionText : String := "fluent-trace 0.1.0"

/-- How the program is used. -/
def usageText : String :=
  "usage: fluent-trace [--buffer-size N] [-v] COMMAND\n\n" ++
  "  export INPUT OUTPUT MAX_CAPLEN   capture trace to packet file\n" ++
  "  import INPUT OUTPUT              packet file to replay trace\n" ++
  "  generate OUTPUT [--packet-len N] [--rate BITS] [--duration SECONDS]\n" ++
  "                                   traffic at a constant rate as packet file\n" ++
  "  info FILE --format capture --max-caplen N\n" ++
  "  info FILE --format replay        totals of a trace\n"

namespace Report

/-- All went well. -/
def success (text : String) : Report := { exitCode := 0, output := text ++ "\n" }

/-- Something went wrong. -/
def failure (text : String) : Report := { exitCode := 1, errors := "ERROR: " ++ text ++ "\n" }

/-- The arguments make no request. -/
def usage (fault : UsageFault) : Report :=
  { exitCode := 2, errors := "error: " ++ fault.message ++ "\n\n" ++ usageText }

/-- A window cannot be made. -/
def noWindow (capacity : Nat) : Report :=
  { exitCode := 101, errors := s!"a window of {capacity} bytes is too large\n" }

/-- The number of packets written to a file of the given kind. -/
def written (t : Tally) (kind : String) : Report :=
  success s!"Successfully wrote {t.packets} packets to {kind} file"

end Report

/-- Runs a command with windows of the given capacity. -/
def Command.run (capacity : Nat) (d : Directory) : Command → Report × Directory
  | .writePcap input output limit =>
    match d.captureToPcap input output limit capacity with
    | (.ok tally, d) => (.written tally "pcap", d)
    | (.error failure, d) => (.failure s!"exporting {input}: {failure.report}", d)
  | .writeReplay input output =>
    match d.pcapToReplay input output capacity with
    | (.ok tally, d) => (.written tally "trace", d)
    | (.error failure, d) => (.failure s!"importing {input}: {failure.report}", d)
  | .generate output traffic =>
    -- That the file cannot be created is said in other words than the rest.
    match d.create output with
    | .error cause => (.failure s!"creating {output}: {cause.text}", d)
    | .ok _ =>
      match d.writeFile output traffic.writePcap with
      | (.ok tally, d) => (.written tally "pcap", d)
      | (.error failure, d) => (.failure failure.report, d)
  | .summarise file kind =>
    match d.totals file kind with
    | .ok totals => (.success totals.render, d)
    | .error failure => (.failure s!"reading {file}: {failure.report}", d)

/-- No window holds more bytes than this. -/
def windowLimit : Nat := 2 ^ 63 - 1

/-- A window is made for the command, as its input is there and is fit to be
    read. -/
def Command.makesWindow (capacity : Nat) (d : Directory) : Command → Bool
  | .writePcap input _ limit =>
    match d.openInput input with
    | .error _ => false
    | .ok reading => (Capture.Stream.start capacity limit reading).1.isOk
  | .writeReplay input _ => (d.openInput input).isOk
  | .generate .. | .summarise .. => false

/-- The names of the files that a command works on. -/
def Command.names : Command → List String
  | .writePcap input output _ | .writeReplay input output => [input, output]
  | .generate output _ => [output]
  | .summarise file _ => [file]

/-- The names of the files that the arguments ask to work on. -/
def names (arguments : List String) : List String :=
  match parse arguments with
  | .ok (.run _ command) => command.names
  | _ => []

/-- Answers the arguments. -/
def run (arguments : List String) (d : Directory) : Report × Directory :=
  match parse arguments with
  | .error fault => (.usage fault, d)
  | .ok .version => (.success versionText, d)
  | .ok .help => ({ exitCode := 0, output := usageText }, d)
  | .ok (.run capacity command) =>
    if windowLimit < capacity && command.makesWindow capacity d then (.noWindow capacity, d)
    else command.run capacity d

end CommandLine

end PacketTrace
