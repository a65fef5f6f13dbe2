import PacketTrace.Bytes.Instances

/-!
# Failures

What can go wrong while traces and packet files are read, written or
converted. A `Failure` names its cause; the wording is in `Failure.message`,
and `Failure.category` tells who is to blame: the device that bytes come from
or go to, the format of the input, or a limit of the replay hardware.
-/

namespace PacketTrace

/-- A failed operation on a device, in the words of the device. -/
structure DeviceFailure where
  /-- What the device reports. -/
  text : String
  deriving DecidableEq, Inhabited

namespace DeviceFailure

/-- A name that stands for nothing. -/
def notFound : DeviceFailure := ⟨"No such file or directory (os error 2)"⟩

/-- A name that leads through a file as if it were a folder. -/
def notAFolder : DeviceFailure := ⟨"Not a directory (os error 20)"⟩

/-- A folder used as a file. -/
def isAFolder : DeviceFailure := ⟨"Is a directory (os error 21)"⟩

/-- A name, or a component of one, with too many bytes. -/
def nameTooLong : DeviceFailure := ⟨"File name too long (os error 36)"⟩

/-- A name with a zero byte in it. -/
def zeroInName : DeviceFailure := ⟨"file name contained an unexpected NUL byte"⟩

end DeviceFailure

/-- Why a record could not be laid out in its sink. -/
inductive EncodingFault where
  /-- The sink took all but this many bytes of a field. -/
  | short (missing : Nat)
  /-- The sink was given this many bytes too many. -/
  | excess (surplus : Nat)
  /-- A fault of the encoder's own, by number. -/
  | custom (code : UInt32)
  /-- A position outside the sink. -/
  | badOffset
  /-- A form that no encoder exists for. -/
  | unsupported
  deriving DecidableEq

/-- The name of the fault, with its number if it has one. -/
def EncodingFault.describe : EncodingFault → String
  | short missing => s!"BufferTooSmall({missing})"
  | excess surplus => s!"BufferTooBig({surplus})"
  | custom code => s!"CustomError({code})"
  | badOffset => "InvalidOffset"
  | unsupported => "NotYetImplemented"

/-- The magic number of little-endian pcap files with nanosecond timestamps. -/
def nanosecondMagic : UInt32 := 0xa1b23c4d

/-- Why an operation on traces or packet files failed. -/
inductive Failure where
  /-- A read, a write or a seek failed. -/
  | device (cause : DeviceFailure)
  /-- The length of a trace is not a multiple of the block size. -/
  | unalignedTrace (size boundary : Nat)
  /-- The input ends inside a record. -/
  | truncatedInput
  /-- A record is longer than the window it is read through. -/
  | windowTooSmall
  /-- A packet file starts with another magic number. -/
  | unsupportedMagic (magic : UInt32)
  /-- The input violates a rule of its grammar. -/
  | malformed (rule : String)
  /-- A packet is longer than the replay hardware can store. -/
  | packetTooLong (length limit : UInt32)
  /-- A gap has more clock cycles than fit in a replay record. -/
  | gapTooLong (cycles : Nat)
  /-- A packet is earlier than the one before it. -/
  | timeReversal (previous current : Nat)
  /-- A timestamp has more seconds than fit in a packet file. -/
  | timestampTooLate (nanos : Nat)
  /-- A packet was added to a trace that had been finished. -/
  | traceClosed
  /-- A record could not be laid out in its sink. -/
  | encoding (fault : EncodingFault)
  deriving DecidableEq

namespace Failure

/-- Where the cause of a failure lies. -/
inductive Category where
  /-- With the device that bytes come from or go to. -/
  | device
  /-- With the format of the input. -/
  | format
  /-- With a limit of the replay hardware. -/
  | hardware
  deriving DecidableEq

/-- A limit of the replay hardware is no fault of the input. -/
def category : Failure → Category
  | device _ => .device
  | packetTooLong .. | gapTooLong _ => .hardware
  | _ => .format

/-- The digits of `w` in base 16, eight of them. -/
def hex32 (w : UInt32) : String :=
  let digits := Nat.toDigits 16 w.toNat
  String.ofList (List.replicate (8 - digits.length) '0' ++ digits)

/-- The failure in words. -/
def message : Failure → String
  | device cause => s!"I/O error: {cause.text}"
  | unalignedTrace size boundary =>
    s!"input trace file size ({size} bytes) must be a multiple of {boundary} byte"
  | truncatedInput => "unexpected end of file (truncated input?)"
  | windowTooSmall => "buffer too small to hold a complete record"
  | unsupportedMagic magic =>
    s!"pcap magic number is: 0x{hex32 magic}, expected: 0x{hex32 nanosecondMagic}. " ++
      "only nanosecond precision pcap files are supported"
  | malformed rule => s!"parse error: {rule}"
  | packetTooLong length limit =>
    s!"packet size ({length} bytes) exceeds configured maximum length ({limit} bytes)"
  | gapTooLong cycles => s!"inter-packet gap of {cycles} clock cycles does not fit in 32 bits"
  | timeReversal previous current =>
    s!"packet timestamp {current} ns is earlier than previous timestamp {previous} ns"
  | timestampTooLate nanos => s!"timestamp {nanos} ns does not fit in a pcap header"
  | traceClosed => "cannot add packets to a finished replay trace"
  | encoding fault => s!"serialization error: {fault.describe}"

/-- The text of the failure underneath, if there is one. -/
def cause : Failure → Option String
  | device cause => some cause.text
  | _ => none

/-- The failure in words, followed by the one underneath. -/
def report (f : Failure) : String :=
  match f.cause with
  | some text => s!"{f.message}: {text}"
  | none => f.message

end Failure

end PacketTrace
