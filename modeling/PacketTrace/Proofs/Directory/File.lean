import PacketTrace.Directory.File
import PacketTrace.Proofs.Stream.Delivery
import PacketTrace.Proofs.Stream.Intake

/-!
# Files as sources and sinks

A file that is read delivers its content, whatever of it is read ahead
(`Reading.isDelivery`), and a file that is written takes everything, whatever of
it is held back (`Writing.isIntake`). Writing touches no other file, and no folder
(`Directory.SameBut`).

A file that is read while another one is written is no different from a file of a
directory that stays as it is, beside a directory in which the other is written
(`Copying.IsApart`): reads and writes do not tell them apart.
-/

namespace PacketTrace

/-! ## What a change leaves -/

/-- The directories have the same folders, and the same files but for the one at
    a location. -/
structure Directory.SameBut (l : Location) (d d' : Directory) : Prop where
  folders : d'.folders = d.folders
  content? : ∀ l', l' ≠ l → d'.content? l' = d.content? l'

namespace Directory

variable {l l' : Location} {d d₁ d₂ : Directory}

theorem SameBut.refl (l : Location) (d : Directory) : SameBut l d d := ⟨rfl, fun _ _ => rfl⟩

theorem SameBut.trans (h : SameBut l d d₁) (h' : SameBut l d₁ d₂) : SameBut l d d₂ where
  folders := h'.folders.trans h.folders
  content? l' hl' := (h'.content? l' hl').trans (h.content? l' hl')

theorem SameBut.content_eq (h : SameBut l d d₁) (hl' : l' ≠ l) : d₁.content l' = d.content l' := by
  rw [content, content, h.content? l' hl']

theorem sameBut_modify (l : Location) (d : Directory) (change : ByteArray → ByteArray) :
    SameBut l d (d.modify l change) where
  folders := by
    rw [modify]
    split <;> rfl
  content? _ hl' := d.content?_modify_of_ne hl' change

end Directory

/-! ## Writing a file -/

namespace Writing

variable {w : Writing} {l : Location} {d : Directory}

/-- What has been written to the file, whether it has been written out or not. -/
def taken (w : Writing) : Bytes :=
  (w.directory.content w.output.location ++ w.output.held).data.toList

/-- Only this file has been written. -/
structure IsConfined (l : Location) (d : Directory) (w : Writing) : Prop where
  location : w.output.location = l
  sameBut : d.SameBut l w.directory

theorem isConfined_self (w : Writing) : w.IsConfined w.output.location w.directory :=
  ⟨rfl, .refl _ _⟩

theorem taken_settle (w : Writing) : w.settle.taken = w.taken := by
  simp [taken, settle]

/-- What has been written is in the file in the end. -/
theorem content?_settle (w : Writing) : w.settle.directory.content? w.output.location =
    some w.taken.toByteArray := by
  rw [settle, Directory.append, Directory.content?_modify_self]
  refine congrArg some (ByteArray.ext ?_)
  simp [taken]

/-- Bytes that fill a block are only written out when none are held back. -/
theorem taken_hold {bytes : Bytes} (h : blockSize ≤ bytes.length → w.output.held = .empty) :
    (w.hold bytes).taken = w.taken ++ bytes := by
  rw [hold]
  split
  next hblock => simp [taken, h hblock]
  next => simp [taken]

/-- Bytes that do not fill a block with those before them are held back. -/
theorem write_of_lt {bytes : Bytes} (h : w.output.held.size + bytes.length < blockSize) :
    w.write bytes =
      { w with output := { w.output with held := w.output.held ++ bytes.toByteArray } } := by
  rw [write, if_neg (by omega), hold, if_neg (by omega)]

theorem taken_write (bytes : Bytes) (w : Writing) : (w.write bytes).taken = w.taken ++ bytes := by
  rw [write]
  split
  · rw [taken_hold fun _ => rfl, taken_settle]
  next hroom =>
    refine taken_hold fun hblock => ?_
    have hempty : w.output.held.size = 0 := by omega
    exact ByteArray.size_eq_zero_iff.1 hempty

/-- A file that is written takes everything. -/
theorem isIntake : IsIntake fun bytes (w : Writing) => w.taken = bytes where
  write := by
    rintro _ w bytes rfl
    exact ⟨w.write bytes, rfl, taken_write bytes w⟩
  flush := by
    rintro _ w rfl
    exact ⟨w.settle, rfl, taken_settle w⟩

theorem IsConfined.append (h : w.IsConfined l d) (bytes held : ByteArray) :
    IsConfined l d { directory := w.directory.append w.output.location bytes
                     output := { w.output with held } } where
  location := h.location
  sameBut := by
    have happend := Directory.sameBut_modify w.output.location w.directory (· ++ bytes)
    rw [h.location] at happend ⊢
    exact h.sameBut.trans happend

theorem IsConfined.settle (h : w.IsConfined l d) : w.settle.IsConfined l d := h.append _ _

theorem IsConfined.hold (h : w.IsConfined l d) (bytes : Bytes) : (w.hold bytes).IsConfined l d := by
  rw [Writing.hold]
  split
  · exact h.append _ _
  · exact ⟨h.location, h.sameBut⟩

theorem IsConfined.write (h : w.IsConfined l d) (bytes : Bytes) :
    (w.write bytes).IsConfined l d := by
  rw [Writing.write]
  split
  · exact h.settle.hold bytes
  · exact h.hold bytes

end Writing

/-! ## Reading a file -/

/-- The size that is found of a file or a folder. -/
def Directory.extent (d : Directory) : Found → ℕ
  | .folder _ => folderEnd
  | .file l => (d.content l).size

@[simp]
theorem Directory.extent_folder (d : Directory) (l : Location) :
    d.extent (.folder l) = folderEnd := rfl

@[simp]
theorem Directory.extent_file (d : Directory) (l : Location) :
    d.extent (.file l) = (d.content l).size := rfl

namespace InputFile

variable {l : Location} {d d' : Directory} {f : InputFile}

/-- The bytes of a file, from where it is read. -/
def unread (d : Directory) (l : Location) (f : InputFile) : Bytes :=
  f.ahead ++ (d.content l).data.toList.drop f.offset

theorem readThrough_eq (h : f.target = .file l) (d : Directory) (n : ℕ) :
    f.readThrough d n =
      (.ok (((d.content l).data.toList.drop f.offset).take n),
        { f with
          offset := f.offset + (((d.content l).data.toList.drop f.offset).take n).length }) := by
  have hextract : ((d.content l).extract f.offset (f.offset + n)).data.toList =
      ((d.content l).data.toList.drop f.offset).take n := by
    simp
  simp only [readThrough, h, hextract]

/-- Bytes are read through up to a place, and the others after it. -/
theorem take_append_drop_offset (bytes : Bytes) (offset n : ℕ) :
    (bytes.drop offset).take n ++ bytes.drop (offset + ((bytes.drop offset).take n).length) =
      bytes.drop offset := by
  have hpart := List.take_prefix n (bytes.drop offset)
  rw [← List.drop_drop]
  exact List.prefix_iff_eq_append.1 hpart

theorem unread_takeAhead (f : InputFile) (d : Directory) (l : Location) (n : ℕ) :
    f.ahead.take n ++ ({ f with ahead := f.ahead.drop n } : InputFile).unread d l =
      f.unread d l := by
  rw [unread, unread, ← List.append_assoc, List.take_append_drop]

/-- A read brings some of what is unread, and leaves the rest. -/
theorem read_cases (h : f.target = .file l) (d : Directory) {n : ℕ} (hn : 0 < n) :
    ∃ bytes f', f.read d n = (.ok bytes, f') ∧ f'.target = .file l ∧
      f.unread d l = bytes ++ f'.unread d l ∧ (bytes = [] → f.unread d l = []) := by
  rw [read]
  by_cases hahead : f.ahead = []
  · -- A block or more is read through, and less than that from a block read ahead.
    have hunread : f.unread d l = (d.content l).data.toList.drop f.offset := by
      rw [unread, hahead, List.nil_append]
    simp only [hahead, List.isEmpty_nil, Bool.not_true, Bool.false_eq_true, if_false,
      readThrough_eq h]
    split
    next =>
      refine ⟨_, _, rfl, h, ?_, fun hnil => ?_⟩
      · rw [hunread, unread, List.nil_append, take_append_drop_offset]
      · exact hunread.trans ((List.take_eq_nil_iff.1 hnil).resolve_left (Nat.ne_of_gt hn))
    next =>
      refine ⟨_, _, rfl, h, ?_, fun hnil => ?_⟩
      · rw [unread_takeAhead, hunread, unread, take_append_drop_offset]
      · have hblock := (List.take_eq_nil_iff.1 hnil).resolve_left (Nat.ne_of_gt hn)
        exact hunread.trans ((List.take_eq_nil_iff.1 hblock).resolve_left (by decide))
  · rw [if_pos (by simpa using hahead)]
    refine ⟨_, _, rfl, h, (unread_takeAhead f d l n).symm, fun hnil => ?_⟩
    exact absurd ((List.take_eq_nil_iff.1 hnil).resolve_left (Nat.ne_of_gt hn)) hahead

theorem length_unread (h : f.target = .file l) (d : Directory) :
    (f.unread d l).length = f.remaining d := by
  simp [unread, remaining, h]

theorem target_readThrough (n : ℕ) (f : InputFile) (d : Directory) :
    (f.readThrough d n).2.target = f.target := by
  rw [readThrough]
  split <;> rfl

theorem target_read (n : ℕ) (f : InputFile) (d : Directory) :
    (f.read d n).2.target = f.target := by
  have hthrough := target_readThrough blockSize f d
  rw [read]
  split
  · rfl
  · split
    · exact target_readThrough n f d
    · rcases hread : f.readThrough d blockSize with ⟨_ | _, f₁⟩ <;> rw [hread] at hthrough <;>
        exact hthrough

/-- Only the content of the file matters to what is read of it. -/
theorem read_congr (h : f.target = .file l) (hcontent : d'.content l = d.content l) (n : ℕ) :
    f.read d' n = f.read d n := by
  rw [read, read, readThrough_eq h, readThrough_eq h, readThrough_eq h, readThrough_eq h, hcontent]

theorem remaining_congr (h : f.target = .file l) (hcontent : d'.content l = d.content l) :
    f.remaining d' = f.remaining d := by
  simp only [remaining, h, hcontent]

end InputFile

namespace Reading

variable {l : Location}

theorem read_eq (n : ℕ) (r : Reading) : ByteSource.read n r =
    ((r.input.read r.directory n).1, { r with input := (r.input.read r.directory n).2 }) := rfl

/-- A file that is read delivers what is unread of it. -/
theorem isDelivery (l : Location) : IsDelivery fun rest (r : Reading) =>
    r.input.target = .file l ∧ r.input.unread r.directory l = rest where
  read := by
    rintro rest r n ⟨hfile, rfl⟩ hn
    obtain ⟨bytes, input, hread, hfile', happend, hend⟩ :=
      InputFile.read_cases hfile r.directory hn
    exact ⟨bytes, input.unread r.directory l, { r with input }, by rw [read_eq, hread], happend,
      hend, hfile', rfl⟩
  bound := by
    rintro rest r ⟨hfile, rfl⟩
    exact Nat.le_of_eq (InputFile.length_unread hfile r.directory)

/-- A file, or a folder, that has just been opened. -/
def opened (d : Directory) (target : Found) : Reading := { directory := d, input := { target } }

/-- Reads change neither the directory nor what is read. -/
theorem isReadSimulation_isReading (d : Directory) (target : Found) :
    IsReadSimulation (Keeps fun r : Reading => r.directory = d ∧ r.input.target = target) :=
  isReadSimulation_of_invariant fun {r} h n =>
    ⟨h.1, (InputFile.target_read n r.input r.directory).trans h.2⟩

/-- No byte of a folder is read. -/
theorem exists_read_folder (d : Directory) (l : Location) (n : ℕ) :
    ∃ r, ByteSource.read n (opened d (.folder l)) = (.error .isAFolder, r) := by
  rw [read_eq, InputFile.read]
  split
  next hahead => cases hahead
  next => split <;> exact ⟨_, rfl⟩

/-- What has just been opened is measured, and then at its start again. -/
theorem exists_seekEnd_opened (d : Directory) (target : Found) :
    ∃ r, SeekableSource.seekEnd (opened d target) = (.ok (d.extent target), r) ∧
      SeekableSource.rewind r = (.ok (), opened d target) := by
  cases target <;> exact ⟨_, rfl, rfl⟩

theorem delivers_opened (d : Directory) (l : Location) :
    Delivers (d.content l).data.toList (opened d (.file l)) := ⟨_, isDelivery l, rfl, rfl⟩

end Reading

/-! ## Both at once -/

namespace Copying

variable {l : Location} {d : Directory}

theorem read_eq (n : ℕ) (c : Copying) : ByteSource.read n c =
    ((c.input.read c.directory n).1, { c with input := (c.input.read c.directory n).2 }) := rfl

/-- Fields that do not fill a block with what is before them are held back. -/
theorem writeFields_of_lt {c : Copying} {fields : List Bytes}
    (h : c.output.held.size + fields.flatten.length < blockSize) :
    ∃ held, writeFields fields c = (.ok fields.flatten.length,
      { c with output := { c.output with held } }) ∧
        held.data.toList = c.output.held.data.toList ++ fields.flatten := by
  induction fields generalizing c with
  | nil => exact ⟨c.output.held, rfl, by simp⟩
  | cons field fields ih =>
    rw [List.flatten_cons, List.length_append] at h
    have hwrite : ByteSink.write field c = (.ok field.length, { c with
        output := { c.output with held := c.output.held ++ field.toByteArray } }) := by
      change (_, { c with toWriting := c.toWriting.write field }) = _
      rw [Writing.write_of_lt (by omega)]
    have hroom : (c.output.held ++ field.toByteArray).size + fields.flatten.length < blockSize := by
      rw [ByteArray.size_append, List.size_toByteArray]
      omega
    obtain ⟨held, hfields, hheld⟩ := ih (c := { c with
      output := { c.output with held := c.output.held ++ field.toByteArray } }) hroom
    refine ⟨held, ?_, ?_⟩
    · rw [writeFields, hwrite]
      simp only [Nat.lt_irrefl, if_false, hfields, List.flatten_cons, List.length_append]
    · rw [hheld]
      simp

/-- Whatever is read and written, only one file is written. -/
theorem isReadSimulation_isConfined (l : Location) (d : Directory) :
    IsReadSimulation (Keeps fun c : Copying => c.toWriting.IsConfined l d) :=
  isReadSimulation_of_invariant fun h _ => h

theorem isWriteSimulation_isConfined (l : Location) (d : Directory) :
    IsWriteSimulation (Keeps fun c : Copying => c.toWriting.IsConfined l d) :=
  isWriteSimulation_of_invariant (fun h bytes => h.write bytes) fun h => h.settle

/-- A file is read while another one is written, and next to it there is a
    directory in which it is read and nothing is written. -/
structure IsApart (l : Location) (c : Copying) (x : Reading × Writing) : Prop where
  target : c.input.target = .file l
  input : x.1.input = c.input
  content : c.directory.content l = x.1.directory.content l
  writing : x.2 = c.toWriting
  ne : l ≠ c.output.location

theorem isReadSimulation_isApart (l : Location) : IsReadSimulation (IsApart l) where
  read := by
    rintro c ⟨⟨d, _⟩, _⟩ ⟨htarget, rfl, hcontent, rfl, hne⟩ n
    have hread : c.input.read d n = c.input.read c.directory n :=
      InputFile.read_congr htarget hcontent.symm n
    refine ⟨({ directory := d, input := (c.input.read d n).2 }, c.toWriting), ?_, ?_, ?_, hcontent,
      rfl, hne⟩
    · change onFirst _ _ = _
      rw [onFirst, Reading.read_eq, Copying.read_eq, hread]
    · exact (InputFile.target_read n c.input c.directory).trans htarget
    · exact congrArg Prod.snd hread

/-- Writing another file changes nothing for the one that is read. -/
theorem IsApart.of_isConfined {c : Copying} {r : Reading} {w : Writing}
    (h : IsApart l c (r, c.toWriting)) (hw : w.IsConfined c.output.location c.directory) :
    IsApart l { c with toWriting := w } (r, w) where
  target := h.target
  input := h.input
  content := (hw.sameBut.content_eq h.ne).trans h.content
  writing := rfl
  ne := hw.location ▸ h.ne

theorem isWriteSimulation_isApart (l : Location) : IsWriteSimulation (IsApart l) where
  write := by
    rintro c ⟨r, w⟩ h bytes
    obtain rfl : w = c.toWriting := h.writing
    exact ⟨(r, c.toWriting.write bytes), rfl,
      h.of_isConfined ((Writing.isConfined_self c.toWriting).write bytes)⟩
  flush := by
    rintro c ⟨r, w⟩ h
    obtain rfl : w = c.toWriting := h.writing
    exact ⟨(r, c.toWriting.settle), rfl,
      h.of_isConfined (Writing.isConfined_self c.toWriting).settle⟩

/-- What comes to the same on both has written the same. -/
theorem writing_of_alike {α : Type} {x : α × Copying} {y : α × Reading × Writing}
    (h : Alike (IsApart l) x y) : x.1 = y.1 ∧ x.2.toWriting = y.2.2 := by
  obtain ⟨_, rfl, hapart⟩ := h
  exact ⟨rfl, hapart.writing.symm⟩

theorem IsApart.bound_le {c : Copying} {x : Reading × Writing} (h : IsApart l c x) :
    ByteSource.bound x ≤ ByteSource.bound c := by
  change x.1.input.remaining x.1.directory ≤ c.input.remaining c.directory + maximalFileSize
  rw [h.input, InputFile.remaining_congr h.target h.content]
  exact Nat.le_add_right _ _

end Copying

end PacketTrace
