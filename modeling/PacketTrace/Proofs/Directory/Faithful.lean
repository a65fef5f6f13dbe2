import PacketTrace.Proofs.Directory.Conversion

/-!
# Faithful conversions of files

A conversion of a file is faithful if it only ends well when the output holds what a
conversion of the input comes to (`Directory.IsFaithful`). It is if the names stand
for different files (`Directory.Converts.isFaithful`).

A capture trace that is exported onto itself is lost: it is empty once the output has
been created, and while the header is held back, the end of it is taken for the end
of the trace (`Directory.captureToPcap_onto_itself`). Of a packet file that is
imported onto itself nothing is stated: what was read of it along with its header is
converted, and what is beyond that is lost, which is no failure if an entry ends
there.
-/

namespace PacketTrace

namespace Directory

variable {d d₁ : Directory} {input output : String} {l l₀ : Location} {capacity : ℕ}

/-! ## A file onto itself -/

section First

variable {σ : Type} [ByteSource σ] [ByteSink σ] {s s₁ s₂ s₃ : σ} {encoder : Pcap.Encoder}
  {stream stream' : Capture.Stream} (hstart : Pcap.Encoder.start {} s = (.ok encoder, s₁))

include hstart

/-- A stream that is at its end from the start. -/
theorem writePcap_of_next_none (hnext : stream.next s₁ = (.ok none, stream', s₂))
    (hflush : flushSink s₂ = (.ok (), s₃)) :
    writePcap stream s = (.ok ⟨encoder.packets, encoder.bytes⟩, s₃) := by
  simp only [writePcap, hstart, packetBound, transfer, hnext, finishPcap, hflush]

/-- A stream that fails from the start. -/
theorem writePcap_of_next_error {failure : Failure}
    (hnext : stream.next s₁ = (.error failure, stream', s₂)) :
    writePcap stream s = (.error failure, s₂) := by
  simp only [writePcap, hstart, packetBound, transfer, hnext]

end First

/-- The header of a packet file is held back. -/
theorem start_copying (d : Directory) (input : InputFile) (l : Location) :
    ∃ held, Pcap.Encoder.start {} (d.copying input l) =
        (.ok { bytes := Pcap.Header.size },
          { d.copying input l with output := { location := l, held } }) ∧
      held.data.toList = ({} : Pcap.Header).fields.flatten := by
  have hroom : ByteArray.empty.size + ({} : Pcap.Header).fields.flatten.length < blockSize := by
    decide
  obtain ⟨held, hwrite, hheld⟩ := Copying.writeFields_of_lt (c := d.copying input l) hroom
  refine ⟨held, ?_, hheld⟩
  rw [Pcap.Encoder.start, hwrite, Pcap.Header.length_flatten_fields]
  rfl

/-- Nothing is read of an empty file. -/
theorem exists_read_nil {c : Copying} (hempty : c.directory.content l = .empty)
    (hinput : c.input = { target := .file l }) {n : ℕ} (hn : 0 < n) :
    ∃ input, ByteSource.read n c = (.ok [], { c with input }) := by
  have hfile : c.input.target = .file l := by rw [hinput]
  obtain ⟨bytes, input, hread, -, hunread, -⟩ := InputFile.read_cases hfile c.directory hn
  have hnil : c.input.unread c.directory l = [] := by
    rw [InputFile.unread, hinput, hempty]
    rfl
  obtain rfl : bytes = [] := (List.append_eq_nil_iff.1 (hunread.symm.trans hnil)).1
  exact ⟨input, by rw [Copying.read_eq, hread]⟩

/-- No packets are written of a file that has just been created. -/
theorem exists_writePcap_empty (hempty : d.content l = .empty) (hcapacity : 8 ≤ capacity)
    (size : ℕ) (limit : UInt16) :
    ∃ c, writePcap { size, limit, window := { capacity } } (d.copying { target := .file l } l) =
        (.ok ⟨0, Pcap.Header.size⟩, c) ∧
      c.output.location = l ∧ c.toWriting.taken = ({} : Pcap.Header).fields.flatten := by
  obtain ⟨held, hstart, hheld⟩ := start_copying d { target := .file l } l
  obtain ⟨input, hread⟩ := exists_read_nil
    (c := { d.copying { target := .file l } l with output := { location := l, held } })
    hempty rfl (show 0 < capacity by omega)
  obtain ⟨r, hnext⟩ := Capture.Stream.next_of_read_nil hcapacity hread size limit
  refine ⟨_, writePcap_of_next_none hstart hnext rfl, rfl, ?_⟩
  change Writing.taken (Writing.settle _) = _
  rw [Writing.taken_settle]
  simp [Writing.taken, copying, hempty, hheld]

theorem exists_writePcap_of_lt (hsmall : capacity < 8) (d : Directory) (input : InputFile)
    (l : Location) (size : ℕ) (limit : UInt16) :
    ∃ c, writePcap { size, limit, window := { capacity } } (d.copying input l) =
      (.error .windowTooSmall, c) := by
  obtain ⟨held, hstart, hheld⟩ := start_copying d input l
  obtain ⟨r, hnext⟩ := Capture.Stream.next_of_lt hsmall
    { d.copying input l with output := { location := l, held } } size limit
  exact ⟨_, writePcap_of_next_error hstart hnext⟩

section Onto

variable (h : d.checkTrace input = .ok l) (hcreate : d.create output = .ok (l, d₁))

include h hcreate

/-- An export of a file onto itself finds no packets in it. -/
theorem captureToPcap_onto_itself (hcapacity : 8 ≤ capacity) (limit : UInt16) :
    (d.captureToPcap input output limit capacity).1 = .ok ⟨0, Pcap.Header.size⟩ ∧
      (d.captureToPcap input output limit capacity).2.content? l =
        some ({} : Pcap.Header).fields.flatten.toByteArray := by
  have hempty : d₁.content l = .empty := by
    rw [eq_put_of_create hcreate, content_put_self]
  obtain ⟨c, hwrite, hlocation, htaken⟩ :=
    exists_writePcap_empty hempty hcapacity (d.content l).size limit
  have hcontent := Writing.content?_settle c.toWriting
  rw [hlocation, htaken] at hcontent
  have hinput : (Reading.opened d (.file l)).input = { target := .file l } := rfl
  rw [captureToPcap_eq_copyFile h, copyFile_of_create (Reading.opened d (.file l)) hcreate, hinput,
    hwrite]
  exact ⟨rfl, hcontent⟩

theorem captureToPcap_onto_itself_of_lt (hsmall : capacity < 8) (limit : UInt16) :
    (d.captureToPcap input output limit capacity).1 = .error .windowTooSmall := by
  obtain ⟨c, hwrite⟩ := exists_writePcap_of_lt hsmall d₁ (Reading.opened d (.file l)).input l
    (d.content l).size limit
  rw [captureToPcap_eq_copyFile h, copyFile_of_create (Reading.opened d (.file l)) hcreate, hwrite]

end Onto

/-- If a conversion ends well, its tally and what the output then holds are those of a
    conversion of what was in the input before. -/
def IsFaithful (d : Directory) (input output : String)
    (makes : Bytes → Except Failure Tally → Bytes → Prop)
    (conversion : Except Failure Tally × Directory) : Prop :=
  ∀ tally, conversion.1 = .ok tally → ∃ l₀ l d₁ bytes, d.find input = .ok (.file l₀) ∧
    d.create output = .ok (l, d₁) ∧ conversion.2.content? l = some bytes.toByteArray ∧
      makes (d.content l₀).data.toList (.ok tally) bytes

theorem Converts.isFaithful {makes : Bytes → Except Failure Tally → Bytes → Prop}
    {conversion : Except Failure Tally × Directory} (h : d.Converts l₀ output makes conversion)
    (hfind : d.find input = .ok (.file l₀)) (hne : ∀ d₁, d.create output ≠ .ok (l₀, d₁)) :
    d.IsFaithful input output makes conversion := by
  intro tally hok
  rw [Converts] at h
  cases hcreate : d.create output with
  | error cause =>
    rw [hcreate] at h
    rw [h] at hok
    cases hok
  | ok created =>
    obtain ⟨l, d₁⟩ := created
    rw [hcreate] at h
    have hother : l₀ ≠ l := by
      rintro rfl
      exact hne d₁ hcreate
    obtain ⟨bytes, hcontent, hmakes⟩ := h.2 hother
    exact ⟨l₀, l, d₁, bytes, hfind, rfl, hcontent, hok ▸ hmakes⟩

theorem isFaithful_of_error {makes : Bytes → Except Failure Tally → Bytes → Prop}
    {conversion : Except Failure Tally × Directory} {failure : Failure}
    (h : conversion.1 = .error failure) : d.IsFaithful input output makes conversion := by
  intro tally hok
  cases h.symm.trans hok

/-- What is written of a file that is exported onto itself is what a trace without
    packets is exported to. -/
theorem isFaithful_onto_itself_iff (h : d.checkTrace input = .ok l)
    (hcreate : d.create output = .ok (l, d₁)) (hcapacity : 8 ≤ capacity) (limit : UInt16) :
    d.IsFaithful input output (ExportsTo capacity limit)
        (d.captureToPcap input output limit capacity) ↔
      (d.content l).data.toList = [] ∨
        Trace.Record.headTag (d.content l).data.toList = Trace.endTag := by
  obtain ⟨hfind, haligned⟩ := checkTrace_eq_ok h
  obtain ⟨hok, hcontent⟩ := captureToPcap_onto_itself h hcreate hcapacity limit
  have hlength : 64 ∣ (d.content l).data.toList.length := haligned
  rw [← exportsTo_nothing_iff hlength hcapacity limit]
  constructor
  · intro hfaithful
    obtain ⟨l₀, l', d₁', bytes, hfind', hcreate', hcontent', hexports⟩ := hfaithful _ hok
    cases hfind.symm.trans hfind'
    cases hcreate.symm.trans hcreate'
    have hbytes : bytes = ({} : Pcap.Header).fields.flatten := by
      have htoList := congrArg (·.data.toList) (Option.some.inj (hcontent'.symm.trans hcontent))
      simpa using htoList
    rwa [hbytes] at hexports
  · intro hexports tally htally
    cases hok.symm.trans htally
    exact ⟨l, l, d₁, _, hfind, hcreate, hcontent, hexports⟩

/-- An export is faithful unless it is of a file onto itself, ends well, and the file
    has packets. An import is faithful if it is of a file onto another. That is not
    necessary: a file that is read whole before the output is created is imported
    onto itself without loss, and only a longer one may end well with packets lost. -/
theorem isFaithful_iff (d : Directory) (input output : String) (limit : UInt16)
    (capacity : ℕ) :
    (d.IsFaithful input output (ExportsTo capacity limit)
        (d.captureToPcap input output limit capacity) ↔
      ∀ l d₁, d.checkTrace input = .ok l → d.create output = .ok (l, d₁) → 8 ≤ capacity →
        (d.content l).data.toList = [] ∨
          Trace.Record.headTag (d.content l).data.toList = Trace.endTag) ∧
      ((∀ l d₁, d.find input = .ok (.file l) → d.create output ≠ .ok (l, d₁)) →
        d.IsFaithful input output (ImportsTo capacity)
          (d.pcapToReplay input output capacity)) := by
  refine ⟨⟨fun hfaithful l d₁ h hcreate hcapacity => ?_, fun hempty => ?_⟩, fun hother => ?_⟩
  · exact (isFaithful_onto_itself_iff h hcreate hcapacity limit).1 hfaithful
  · cases h : d.checkTrace input with
    | error failure =>
      exact isFaithful_of_error
        (congrArg Prod.fst (refuses_captureToPcap h output limit capacity).1)
    | ok l₀ =>
      -- Onto another file it goes as from a reader, and onto itself it finds nothing.
      by_cases hsame : ∃ d₁, d.create output = .ok (l₀, d₁)
      · obtain ⟨d₁, hcreate⟩ := hsame
        rcases Nat.lt_or_ge capacity 8 with hsmall | hcapacity
        · exact isFaithful_of_error (captureToPcap_onto_itself_of_lt h hcreate hsmall limit)
        · exact (isFaithful_onto_itself_iff h hcreate hcapacity limit).2
            (hempty l₀ d₁ h hcreate hcapacity)
      · exact (converts_captureToPcap h output limit capacity).isFaithful (checkTrace_eq_ok h).1
          fun d₁ hcreate => hsame ⟨d₁, hcreate⟩
  · cases h : d.checkPcap input capacity with
    | error failure =>
      exact isFaithful_of_error (congrArg Prod.fst (refuses_pcapToReplay h output).1)
    | ok l₀ =>
      have hfind := checkPcap_eq_ok h
      exact (converts_pcapToReplay h output).isFaithful hfind fun d₁ => hother l₀ d₁ hfind

/-- A directory with a capture trace of one packet in it. -/
def withTrace : Directory :=
  let trace : Bytes := [0, 0, 0, 0, 0, 0, 64, 0, 7, 8, 0, 0, 0, 0, 0, 0] ++ List.replicate 48 255
  { files := [({ absolute := false, parts := ["a"] }, trace.toByteArray)] }

theorem isFaithful_onto_other :
    (withTrace.captureToPcap "a" "b" 1500 65536).1.toOption = some ⟨1, 42⟩ ∧
      withTrace.IsFaithful "a" "b" (ExportsTo 65536 1500)
        (withTrace.captureToPcap "a" "b" 1500 65536) ∧
      withTrace.IsFaithful "a" "b" (ImportsTo 65536)
        (withTrace.pcapToReplay "a" "b" 65536) := by
  have hinput : withTrace.find "a" = .ok (.file ⟨false, ["a"]⟩) := rfl
  have houtput : withTrace.create "b" = .ok (⟨false, ["b"]⟩, withTrace.put ⟨false, ["b"]⟩ .empty) :=
    rfl
  have hother : ∀ l d₁, withTrace.find "a" = .ok (.file l) →
      withTrace.create "b" ≠ .ok (l, d₁) := by
    intro l d₁ hfind hcreate
    have hne : (⟨false, ["a"]⟩ : Location) ≠ ⟨false, ["b"]⟩ := by decide
    injection hinput.symm.trans hfind with hfound
    injection houtput.symm.trans hcreate with hcreated
    exact hne ((Found.file.inj hfound).trans (congrArg Prod.fst hcreated).symm)
  obtain ⟨hexport, himport⟩ := isFaithful_iff withTrace "a" "b" 1500 65536
  refine ⟨by decide +kernel, hexport.2 fun l d₁ hcheck hcreate => ?_, himport hother⟩
  exact absurd hcreate (hother l d₁ (checkTrace_eq_ok hcheck).1)

/-- An export of a trace with a packet onto itself ends well, and the packet is lost. -/
theorem not_isFaithful_onto_itself :
    (withTrace.captureToPcap "a" "a" 1500 65536).1.toOption = some ⟨0, 24⟩ ∧
      ¬ withTrace.IsFaithful "a" "a" (ExportsTo 65536 1500)
        (withTrace.captureToPcap "a" "a" 1500 65536) := by
  have hcheck : withTrace.checkTrace "a" = .ok ⟨false, ["a"]⟩ := rfl
  have hcreate : withTrace.create "a" = .ok (⟨false, ["a"]⟩, withTrace.put ⟨false, ["a"]⟩ .empty) :=
    rfl
  refine ⟨by decide +kernel, fun hfaithful => ?_⟩
  have hempty := (isFaithful_onto_itself_iff hcheck hcreate (by decide) 1500).1 hfaithful
  revert hempty
  decide +kernel

end Directory

end PacketTrace
