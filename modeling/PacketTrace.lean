import PacketTrace.Bytes.Instances
import PacketTrace.Bytes.LittleEndian
import PacketTrace.Bytes.Alignment
import PacketTrace.Bytes.Decoder
import PacketTrace.Failure
import PacketTrace.Packet
import PacketTrace.Binary64.Basic
import PacketTrace.Binary64.Arithmetic
import PacketTrace.Binary64.Decimal
import PacketTrace.Clock.Arrival
import PacketTrace.Clock.Departure
import PacketTrace.Trace.Record
import PacketTrace.Trace.Walk
import PacketTrace.Capture.Tag
import PacketTrace.Capture.Walk
import PacketTrace.Replay.Tag
import PacketTrace.Pcap.Header
import PacketTrace.Pcap.Entry
import PacketTrace.Stream.Source
import PacketTrace.Stream.Sink
import PacketTrace.Stream.Window
import PacketTrace.Stream.Tape
import PacketTrace.Stream.Spool
import PacketTrace.Capture.Stream
import PacketTrace.Pcap.Stream
import PacketTrace.Pcap.Encoder
import PacketTrace.Replay.Encoder
import PacketTrace.Conversion
import PacketTrace.ConstantRate
import PacketTrace.Totals
import PacketTrace.Directory.Path
import PacketTrace.Directory.Basic
import PacketTrace.Directory.File
import PacketTrace.Directory.Conversion
import PacketTrace.CommandLine.Arguments
import PacketTrace.CommandLine.Run
import PacketTrace.Main
import PacketTrace.Proofs.Binary64.Rounding
import PacketTrace.Proofs.Binary64.Value
import PacketTrace.Proofs.Binary64.Operation
import PacketTrace.Proofs.Clock.Cycles
import PacketTrace.Proofs.Clock.Quantizer
import PacketTrace.Proofs.Clock.Accumulation
import PacketTrace.Proofs.Stream.Calls
import PacketTrace.Proofs.Stream.Spool
import PacketTrace.Proofs.Trace.Layout
import PacketTrace.Proofs.Replay.Encoder
import PacketTrace.Proofs.Replay.RoundTrip
import PacketTrace.Proofs.Replay.Language
import PacketTrace.Proofs.Replay.Timing
import PacketTrace.Proofs.Bytes.Decoder
import PacketTrace.Proofs.Stream.Delivery
import PacketTrace.Proofs.Stream.Window
import PacketTrace.Proofs.Trace.Record
import PacketTrace.Proofs.Capture.Streaming
import PacketTrace.Proofs.Stream.Pair
import PacketTrace.Proofs.Conversion.Transfer
import PacketTrace.Proofs.Capture.Arrivals
import PacketTrace.Proofs.Pcap.File
import PacketTrace.Proofs.Clock.RoundTrip
import PacketTrace.Proofs.Conversion.Pipeline
import PacketTrace.Proofs.Pcap.Entry
import PacketTrace.Proofs.Pcap.Streaming
import PacketTrace.Proofs.Replay.Rejection
import PacketTrace.Proofs.Conversion.Import
import PacketTrace.Proofs.Conversion.Export
import PacketTrace.Proofs.Stream.Intake
import PacketTrace.Proofs.Pcap.RoundTrip
import PacketTrace.Proofs.Pcap.Rewriting
import PacketTrace.Proofs.Replay.Acceptance
import PacketTrace.Proofs.Stream.Limit
import PacketTrace.Proofs.Stream.Retry
import PacketTrace.Proofs.Conversion.Limit
import PacketTrace.Proofs.Conversion.Reimport
import PacketTrace.Proofs.Trace.Offset
import PacketTrace.Proofs.Capture.Grammar
import PacketTrace.Proofs.Replay.Completion
import PacketTrace.Proofs.Stream.Simulation
import PacketTrace.Proofs.Conversion.Simulation
import PacketTrace.Proofs.Capture.Capacity
import PacketTrace.Proofs.Capture.Restart
import PacketTrace.Proofs.Pcap.Opening
import PacketTrace.Proofs.Conversion.Content
import PacketTrace.Proofs.Directory.File
import PacketTrace.Proofs.Directory.Conversion
import PacketTrace.Proofs.Directory.Faithful
import PacketTrace.Proofs.Stream.Incremental
import PacketTrace.Proofs.Stream.Attempts
import PacketTrace.Proofs.Totals
import PacketTrace.Proofs.Binary64.Order
import PacketTrace.Proofs.ConstantRate
