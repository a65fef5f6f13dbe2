import PacketTrace.Directory.Conversion
import PacketTrace.Proofs.Conversion.Content
import PacketTrace.Proofs.Directory.File

/-!
# Conversions of files

The input of a conversion is checked before its output is created
(`Directory.checkTrace`, `Directory.checkPcap`), and if it is refused, everything
stays as it is (`Directory.Refuses`). Otherwise only the output is written, and if
it is another file than the input, what it holds in the end is what any other
conversion of what is in the input would have made, well or not
(`Directory.Converts`).

* `Directory.captureToPcap_eq`, `Directory.pcapToReplay_eq`: from where a conversion
  goes on once its input is checked;
* `Directory.converts_copyFile`: what is written next to a file that is read.
-/

namespace PacketTrace

namespace Directory

variable {d d₁ : Directory} {name input output : String} {l l₀ : Location} {capacity : ℕ}
  {limit : UInt16}

/-! ## Checks -/

/-- The file that is exported, if there is one and its size is that of a trace. -/
def checkTrace (d : Directory) (input : String) : Except Failure Location :=
  match d.find input with
  | .error cause => .error (.device cause)
  | .ok (.folder _) => .error (.unalignedTrace folderEnd 64)
  | .ok (.file l) =>
    if 64 ∣ (d.content l).size then .ok l else .error (.unalignedTrace (d.content l).size 64)

/-- The file that is imported, if there is one and its header is that of a packet
    file. -/
def checkPcap (d : Directory) (input : String) (capacity : ℕ) : Except Failure Location :=
  match d.find input with
  | .error cause => .error (.device cause)
  | .ok (.folder _) =>
    if capacity < 4 then .error .windowTooSmall else .error (.device .isAFolder)
  | .ok (.file l) => (Pcap.opening capacity (d.content l).data.toList).map fun _ => l

theorem openInput_eq (d : Directory) (name : String) : d.openInput name =
    match d.find name with
    | .error cause => .error (.device cause)
    | .ok target => .ok (Reading.opened d target) := by
  rw [openInput, InputFile.ofName]
  cases d.find name <;> rfl

theorem start_opened (d : Directory) (target : Found) (capacity : ℕ) (limit : UInt16) :
    ∃ s, Capture.Stream.start capacity limit (Reading.opened d target) =
      if 64 ∣ d.extent target then
        (.ok { size := d.extent target, limit, window := { capacity } }, Reading.opened d target)
      else (.error (.unalignedTrace (d.extent target) 64), s) := by
  obtain ⟨s, hseek, hrewind⟩ := Reading.exists_seekEnd_opened d target
  refine ⟨s, ?_⟩
  simp only [Capture.Stream.start, hseek, Trace.checkAligned_eq]
  split_ifs with haligned
  · simp only [hrewind]
  · rfl

/-- An export goes on to the output with the input at its start, or leaves all as it
    is. -/
theorem captureToPcap_eq (d : Directory) (input output : String) (limit : UInt16) (capacity : ℕ) :
    d.captureToPcap input output limit capacity =
      match d.checkTrace input with
      | .error failure => (.error failure, d)
      | .ok l => copyFile (Reading.opened d (.file l)) output
          (writePcap { size := (d.content l).size, limit, window := { capacity } }) := by
  rw [captureToPcap, openInput_eq, checkTrace]
  cases d.find input with
  | error cause => rfl
  | ok target =>
    obtain ⟨s, hstart⟩ := start_opened d target capacity limit
    cases target with
    | folder l =>
      have hunaligned : ¬ 64 ∣ folderEnd := by decide
      rw [extent_folder, if_neg hunaligned] at hstart
      simp only [hstart]
    | file l =>
      rw [extent_file] at hstart
      by_cases haligned : 64 ∣ (d.content l).size
      · rw [if_pos haligned] at hstart
        simp only [hstart, if_pos haligned]
      · rw [if_neg haligned] at hstart
        simp only [hstart, if_neg haligned]

/-- Opening a packet file leaves the directory, and the file that is read. -/
theorem snd_start_opened (d : Directory) (target : Found) (capacity : ℕ) :
    (Pcap.Stream.start capacity (Reading.opened d target)).2.directory = d ∧
      (Pcap.Stream.start capacity (Reading.opened d target)).2.input.target = target := by
  have hopened : Keeps (fun r : Reading => r.directory = d ∧ r.input.target = target)
      (Reading.opened d target) (Reading.opened d target) := ⟨rfl, rfl, rfl⟩
  exact (Pcap.Stream.ofWindow_alike (Reading.isReadSimulation_isReading d target) hopened _).keeps

/-- An import goes on to the output after the header of the input, or leaves all as
    it is. -/
theorem pcapToReplay_eq (d : Directory) (input output : String) (capacity : ℕ) :
    match d.checkPcap input capacity with
    | .error failure => d.pcapToReplay input output capacity = (.error failure, d)
    | .ok l => ∃ header rest stream r,
        d.pcapToReplay input output capacity = copyFile r output (writeReplay stream) ∧
        r.directory = d ∧ r.input.target = .file l ∧
        Pcap.opening capacity (d.content l).data.toList = .ok header ∧
        Pcap.Header.decoder (d.content l).data.toList = .value header rest ∧
        stream.StandsAt capacity rest r := by
  rw [pcapToReplay, openInput_eq, checkPcap]
  cases d.find input with
  | error cause => rfl
  | ok target =>
    cases target with
    | folder l =>
      obtain ⟨r, hread⟩ := Reading.exists_read_folder d l capacity
      by_cases hsmall : capacity < 4
      · simp only [Pcap.Stream.start_of_lt hsmall, if_pos hsmall]
      · simp only [Pcap.Stream.start_of_read_error (Nat.le_of_not_lt hsmall) hread, if_neg hsmall]
    | file l =>
      have hopening := Pcap.Stream.start_eq_opening (Reading.delivers_opened d l) capacity
      cases heq : Pcap.opening capacity (d.content l).data.toList with
      | error failure =>
        rw [heq] at hopening
        obtain ⟨s, hstart⟩ := hopening
        simp only [hstart, heq, Except.map]
      | ok header =>
        rw [heq] at hopening
        obtain ⟨stream, r, rest, hstart, -, hdecoder, hstands⟩ := hopening
        have hkeeps := snd_start_opened d (.file l) capacity
        rw [hstart] at hkeeps
        simp only [hstart, heq, Except.map]
        exact ⟨header, rest, stream, r, rfl, hkeeps.1, hkeeps.2, rfl, hdecoder, hstands⟩

/-! ## The output -/

theorem eq_put_of_create (h : d.create name = .ok (l, d₁)) : d₁ = d.put l .empty := by
  simp only [create, bind, Except.bind, pure, Except.pure] at h
  -- All ways out but the last are failures.
  repeat
    split at h
    · cases h
  cases h
  rfl

/-- A file that is read, and one that has just been created. -/
def copying (d : Directory) (input : InputFile) (l : Location) : Copying where
  directory := d
  output := { location := l }
  input := input

theorem copyFile_of_error {α : Type} {r : Reading} {cause : DeviceFailure}
    (h : r.directory.create name = .error cause) (work : Copying → Except Failure α × Copying) :
    copyFile r name work = (.error (.device cause), r.directory) := by
  rw [copyFile, writeFile, h]

theorem copyFile_of_create {α : Type} (r : Reading) (h : r.directory.create name = .ok (l, d₁))
    (work : Copying → Except Failure α × Copying) :
    copyFile r name work = ((work (d₁.copying r.input l)).1,
      (work (d₁.copying r.input l)).2.toWriting.settle.directory) := by
  rw [copyFile, writeFile, h]
  rfl

/-- What becomes of a conversion of a file that makes this of what is in it: only the
    output changes, if it can be created. If it is another file, what it holds is what
    is made of the input. -/
def Converts (d : Directory) (l₀ : Location) (output : String)
    (makes : Bytes → Except Failure Tally → Bytes → Prop)
    (conversion : Except Failure Tally × Directory) : Prop :=
  match d.create output with
  | .error cause => conversion = (.error (.device cause), d)
  | .ok (l, _) => d.SameBut l conversion.2 ∧
    (l₀ ≠ l → ∃ bytes, conversion.2.content? l = some bytes.toByteArray ∧
      makes (d.content l₀).data.toList conversion.1 bytes)

theorem converts_copyFile {makes : Bytes → Except Failure Tally → Bytes → Prop} {r : Reading}
    (hdirectory : r.directory = d) (htarget : r.input.target = .file l₀)
    {work : Copying → Except Failure Tally × Copying}
    (hkeeps : ∀ {l c}, c.toWriting.IsConfined l d → (work c).2.toWriting.IsConfined l d)
    (hmakes : ∀ {c}, Copying.IsApart l₀ c (r, c.toWriting) → c.toWriting.taken = [] →
      makes (d.content l₀).data.toList (work c).1 (work c).2.toWriting.taken) :
    d.Converts l₀ output makes (copyFile r output work) := by
  subst hdirectory
  rw [Converts]
  cases hcreate : r.directory.create output with
  | error cause => exact copyFile_of_error hcreate work
  | ok created =>
    obtain ⟨l, d₁⟩ := created
    obtain rfl := eq_put_of_create hcreate
    have hsame := sameBut_modify l r.directory fun _ => .empty
    rw [copyFile_of_create r hcreate]
    -- The start is named, so that the bound on the size of files is not computed.
    obtain ⟨c, hc⟩ : ∃ c, c = (r.directory.put l .empty).copying r.input l := ⟨_, rfl⟩
    rw [← hc]
    have hconfined : (work c).2.toWriting.IsConfined l r.directory := by
      rw [hc]
      exact hkeeps ⟨rfl, hsame⟩
    refine ⟨hconfined.settle.sameBut, fun hne => ⟨_, ?_, hmakes ?_ ?_⟩⟩
    · have hcontent := Writing.content?_settle (work c).2.toWriting
      rwa [hconfined.location] at hcontent
    · rw [hc]
      exact ⟨htarget, rfl, hsame.content_eq hne, rfl, hne⟩
    · rw [hc]
      simp [Writing.taken, copying]

/-! ## Both conversions

As long as the output is apart from the input, a conversion of a file goes as one from
a reader of the file to a buffered writer. -/

section Makes

variable {r : Reading} {c : Copying} (h : Copying.IsApart l₀ c (r, c.toWriting))
  (htaken : c.toWriting.taken = [])

include h htaken

theorem exportsTo_writePcap (hdelivers : Delivers (d.content l₀).data.toList r)
    (haligned : 64 ∣ (d.content l₀).size) (capacity : ℕ) (limit : UInt16) :
    let stream : Capture.Stream := { size := (d.content l₀).size, limit, window := { capacity } }
    ExportsTo capacity limit (d.content l₀).data.toList (writePcap stream c).1
      (writePcap stream c).2.toWriting.taken := by
  intro stream
  obtain ⟨packets, failure, hcount, hall⟩ :=
    Capture.Stream.exists_allProduce capacity limit {} (d.content l₀).data.toList
  have hproduces : Produces Capture.Stream.next packets failure stream r :=
    hall (Capture.standsAt_start hdelivers capacity limit) rfl rfl
  obtain ⟨x, hstart, hx⟩ :=
    Pcap.Encoder.start_alike (Copying.isWriteSimulation_isApart l₀) h {}
  have hfirst : x.1 = r := by
    rw [Pcap.Encoder.start_pair] at hstart
    exact (congrArg (·.2.1) hstart).symm
  -- Reading and writing at once is bounded by no less than the reader alone.
  have hbound : packets.length < packetBound stream.window (Pcap.Encoder.start {} c).2 := by
    have hle : ByteSource.bound x.1 ≤ ByteSource.bound (Pcap.Encoder.start {} c).2 := hx.bound_le
    rw [hfirst] at hle
    exact Nat.lt_succ_of_le (Nat.le_add_left_of_le (hcount.trans (hdelivers.length_le.trans hle)))
  obtain ⟨result, r', w', output, hconvert, houtput, houtcome⟩ :=
    writePcapUpTo_outcome Writing.isIntake htaken hproduces hbound
  have halike := writePcapUpTo_alike (Copying.isReadSimulation_isApart l₀)
    (Copying.isWriteSimulation_isApart l₀) h
    (packetBound stream.window (Pcap.Encoder.start {} c).2) stream
  rw [hconvert, ← writePcap_eq_upTo] at halike
  obtain ⟨hresult, hwriting⟩ := Copying.writing_of_alike halike
  rw [hresult, hwriting, houtput]
  exact exportsTo_of_isOutcome haligned hcount hall houtcome

theorem importsTo_writeReplay {stream : Pcap.Stream} {header : Pcap.Header} {rest : Bytes}
    (hopening : Pcap.opening capacity (d.content l₀).data.toList = .ok header)
    (hdecoder : Pcap.Header.decoder (d.content l₀).data.toList = .value header rest)
    (hstands : stream.StandsAt capacity rest r) :
    ImportsTo capacity (d.content l₀).data.toList (writeReplay stream c).1
      (writeReplay stream c).2.toWriting.taken := by
  have hproduces := hstands.produces (Nat.le_trans (by decide) (Pcap.size_le_of_opening hopening))
  have hbound : ((Pcap.scan capacity rest).1.map Pcap.Entry.toPacket).length <
      packetBound stream.window c := by
    have hle : ByteSource.bound r ≤ ByteSource.bound c := h.bound_le
    rw [List.length_map]
    exact Nat.lt_succ_of_le (hstands.length_scan_le.trans (Nat.add_le_add_left hle _))
  obtain ⟨result, r', w', output, hconvert, houtput, houtcome⟩ :=
    writeReplayUpTo_outcome Writing.isIntake htaken hproduces hbound
  have halike := writeReplayUpTo_alike (Copying.isReadSimulation_isApart l₀)
    (Copying.isWriteSimulation_isApart l₀) h (packetBound stream.window c) stream
  rw [hconvert, ← writeReplay_eq_upTo] at halike
  obtain ⟨hresult, hwriting⟩ := Copying.writing_of_alike halike
  rw [hresult, hwriting, houtput]
  exact importsTo_of_isOutcome hopening hdecoder houtcome

end Makes

theorem isConfined_writePcap {c : Copying} (h : c.toWriting.IsConfined l d)
    (stream : Capture.Stream) : (writePcap stream c).2.toWriting.IsConfined l d := by
  have hkeeps : Keeps (fun c : Copying => c.toWriting.IsConfined l d) c c := ⟨rfl, h⟩
  rw [writePcap_eq_upTo]
  exact (writePcapUpTo_alike (Copying.isReadSimulation_isConfined l d)
    (Copying.isWriteSimulation_isConfined l d) hkeeps _ stream).keeps

theorem isConfined_writeReplay {c : Copying} (h : c.toWriting.IsConfined l d)
    (stream : Pcap.Stream) : (writeReplay stream c).2.toWriting.IsConfined l d := by
  have hkeeps : Keeps (fun c : Copying => c.toWriting.IsConfined l d) c c := ⟨rfl, h⟩
  rw [writeReplay_eq_upTo]
  exact (writeReplayUpTo_alike (Copying.isReadSimulation_isConfined l d)
    (Copying.isWriteSimulation_isConfined l d) hkeeps _ stream).keeps

theorem checkTrace_eq_ok (h : d.checkTrace input = .ok l) :
    d.find input = .ok (.file l) ∧ 64 ∣ (d.content l).size := by
  rw [checkTrace] at h
  split at h
  next => cases h
  next => cases h
  next l' hfind =>
    split_ifs at h with haligned
    cases h
    exact ⟨hfind, haligned⟩

theorem checkPcap_eq_ok (h : d.checkPcap input capacity = .ok l) :
    d.find input = .ok (.file l) := by
  rw [checkPcap] at h
  split at h
  next => cases h
  next => split_ifs at h
  next l' hfind =>
    cases hopening : Pcap.opening capacity (d.content l').data.toList <;>
      rw [hopening] at h <;> cases h
    exact hfind

/-- A conversion that refuses its input leaves everything as it is, and if the input
    is a file, any other conversion of what is in it comes to the same failure. -/
def Refuses (d : Directory) (input : String) (failure : Failure)
    (makes : Bytes → Except Failure Tally → Bytes → Prop)
    (conversion : Except Failure Tally × Directory) : Prop :=
  conversion = (.error failure, d) ∧
    ∀ l, d.find input = .ok (.file l) → makes (d.content l).data.toList (.error failure) []

theorem refuses_captureToPcap {failure : Failure} (h : d.checkTrace input = .error failure)
    (output : String) (limit : UInt16) (capacity : ℕ) :
    d.Refuses input failure (ExportsTo capacity limit)
      (d.captureToPcap input output limit capacity) := by
  refine ⟨by rw [captureToPcap_eq, h], fun l hfind => ?_⟩
  rw [checkTrace, hfind] at h
  by_cases haligned : 64 ∣ (d.content l).size
  · simp only [if_pos haligned] at h
    cases h
  · simp only [if_neg haligned] at h
    cases h
    exact exportsTo_of_not_dvd haligned capacity limit

theorem refuses_pcapToReplay {failure : Failure} (h : d.checkPcap input capacity = .error failure)
    (output : String) :
    d.Refuses input failure (ImportsTo capacity) (d.pcapToReplay input output capacity) := by
  have hconversion := pcapToReplay_eq d input output capacity
  rw [h] at hconversion
  refine ⟨hconversion, fun l hfind => ?_⟩
  rw [checkPcap, hfind] at h
  cases hopening : Pcap.opening capacity (d.content l).data.toList <;>
    simp only [hopening, Except.map] at h <;> cases h
  exact importsTo_of_opening hopening

theorem captureToPcap_eq_copyFile (h : d.checkTrace input = .ok l₀) (output : String)
    (limit : UInt16) (capacity : ℕ) : d.captureToPcap input output limit capacity =
      copyFile (Reading.opened d (.file l₀)) output
        (writePcap { size := (d.content l₀).size, limit, window := { capacity } }) := by
  rw [captureToPcap_eq, h]

theorem converts_captureToPcap (h : d.checkTrace input = .ok l₀) (output : String)
    (limit : UInt16) (capacity : ℕ) :
    d.Converts l₀ output (ExportsTo capacity limit)
      (d.captureToPcap input output limit capacity) := by
  have haligned := (checkTrace_eq_ok h).2
  rw [captureToPcap_eq_copyFile h]
  refine converts_copyFile (r := Reading.opened d (.file l₀)) rfl rfl ?_ ?_
  · intro l c hconfined
    exact isConfined_writePcap hconfined _
  · intro c hapart htaken
    exact exportsTo_writePcap hapart htaken (Reading.delivers_opened d l₀) haligned capacity limit

theorem converts_pcapToReplay (h : d.checkPcap input capacity = .ok l₀) (output : String) :
    d.Converts l₀ output (ImportsTo capacity) (d.pcapToReplay input output capacity) := by
  have hconversion := pcapToReplay_eq d input output capacity
  rw [h] at hconversion
  obtain ⟨header, rest, stream, r, heq, hdirectory, htarget, hopening, hdecoder, hstands⟩ :=
    hconversion
  rw [heq]
  exact converts_copyFile hdirectory htarget (fun hconfined => isConfined_writeReplay hconfined _)
    fun hapart htaken => importsTo_writeReplay hapart htaken hopening hdecoder hstands

/-- A conversion whose input is refused leaves everything as it is. One whose input is
    not refused changes no other file than the output, which it creates, and leaves in
    it what it has made of the input, whether that ends well or not. -/
theorem converts_of_checked (d : Directory) (input output : String) (limit : UInt16)
    (capacity : ℕ) :
    (match d.checkTrace input with
      | .error failure => d.Refuses input failure (ExportsTo capacity limit)
          (d.captureToPcap input output limit capacity)
      | .ok l₀ => d.Converts l₀ output (ExportsTo capacity limit)
          (d.captureToPcap input output limit capacity)) ∧
      match d.checkPcap input capacity with
      | .error failure => d.Refuses input failure (ImportsTo capacity)
          (d.pcapToReplay input output capacity)
      | .ok l₀ => d.Converts l₀ output (ImportsTo capacity)
          (d.pcapToReplay input output capacity) := by
  constructor
  · cases h : d.checkTrace input with
    | error failure => exact refuses_captureToPcap h output limit capacity
    | ok l₀ => exact converts_captureToPcap h output limit capacity
  · cases h : d.checkPcap input capacity with
    | error failure => exact refuses_pcapToReplay h output
    | ok l₀ => exact converts_pcapToReplay h output

end Directory

end PacketTrace
