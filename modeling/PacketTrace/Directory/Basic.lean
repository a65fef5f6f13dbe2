import PacketTrace.Bytes.LittleEndian
import PacketTrace.Directory.Path

/-!
# Directories

Files by name, as far as the programs that work on them can tell
(`Directory`): their contents, and which folders there are. The components of
a path are followed one by one, and all but the last have to lead to folders
(`Directory.enter`); the first that does not is what is reported.

* `Directory.find`: what a name stands for;
* `Directory.create`: makes a file, or makes an old one empty;
* `Directory.content`, `Directory.append`: the content of a file.
-/

namespace PacketTrace

/-- Files by location, and folders. -/
structure Directory where
  files : List (Location × ByteArray) := []
  /-- The folders, besides the root, the one that names start from, and those
      that it lies in. -/
  folders : List Location := []

/-- What a name stands for. -/
inductive Found where
  | file (location : Location)
  | folder (location : Location)
  deriving DecidableEq

namespace Directory

/-! ## Contents -/

/-- The content of the file at a location. -/
def content? (d : Directory) (l : Location) : Option ByteArray := d.files.lookup l

/-- The content of the file at a location, which is empty if there is none. -/
def content (d : Directory) (l : Location) : ByteArray := (d.content? l).getD .empty

/-- There is a folder at a location. -/
def isFolder (d : Directory) (l : Location) : Bool :=
  l.isOutermost || d.folders.contains l

/-- Changes the content of the file at a location, or makes a file of what
    comes of no content. -/
def modify (d : Directory) (l : Location) (change : ByteArray → ByteArray) : Directory :=
  if (d.content? l).isSome then
    { d with files := d.files.map fun (place, content) =>
        (place, if place = l then change content else content) }
  else { d with files := d.files ++ [(l, change .empty)] }

/-- Replaces the content of the file at a location, or makes a file there. -/
def put (d : Directory) (l : Location) (bytes : ByteArray) : Directory := d.modify l fun _ => bytes

/-- Adds bytes at the end of the file at a location. -/
def append (d : Directory) (l : Location) (bytes : ByteArray) : Directory :=
  d.modify l fun content => content ++ bytes

/-! ### What a change leaves -/

/-- A change at one location changes what is looked up there, and only there. -/
theorem lookup_map_change (files : List (Location × ByteArray)) (l l' : Location)
    (change : ByteArray → ByteArray) :
    (files.map fun (place, content) =>
      (place, if place = l then change content else content)).lookup l' =
        (files.lookup l').map fun content => if l' = l then change content else content := by
  induction files with
  | nil => rfl
  | cons file files ih =>
    obtain ⟨place, content⟩ := file
    rw [List.map_cons, List.lookup_cons, List.lookup_cons]
    by_cases hp : l' = place
    · simp [hp]
    · simp only [beq_false_of_ne hp]
      exact ih

theorem content?_modify_self (d : Directory) (l : Location) (change : ByteArray → ByteArray) :
    (d.modify l change).content? l = some (change (d.content l)) := by
  unfold modify content
  cases h : d.content? l with
  | none =>
    have hlookup : d.files.lookup l = none := h
    simp [content?, List.lookup_append, hlookup]
  | some old =>
    have hlookup : d.files.lookup l = some old := h
    simp [content?, lookup_map_change, hlookup]

theorem content?_modify_of_ne (d : Directory) {l l' : Location} (h : l' ≠ l)
    (change : ByteArray → ByteArray) : (d.modify l change).content? l' = d.content? l' := by
  unfold modify
  split
  · simp [content?, lookup_map_change, h]
  · simp [content?, List.lookup_append, List.lookup_cons, beq_false_of_ne h]

@[simp]
theorem content_put_self (d : Directory) (l : Location) (bytes : ByteArray) :
    (d.put l bytes).content l = bytes := by
  rw [content, put, content?_modify_self, Option.getD_some]

@[simp]
theorem content_append_self (d : Directory) (l : Location) (bytes : ByteArray) :
    (d.append l bytes).content l = d.content l ++ bytes := by
  rw [content, append, content?_modify_self, Option.getD_some]

/-! ## Names -/

/-- Follows a component into a folder. -/
def enter (d : Directory) (l : Location) (component : String) :
    Except DeviceFailure Location := do
  Path.checkComponent component
  let next := l.step component
  if d.isFolder next then return next
  throw (if (d.content? next).isSome then .notAFolder else .notFound)

/-- The folder in which the last component of a path is looked up. -/
def reach (d : Directory) (p : Path) : Except DeviceFailure Location :=
  p.folders.foldlM d.enter (.start p.absolute)

/-- What a name stands for. -/
def find (d : Directory) (name : String) : Except DeviceFailure Found := do
  Path.check name
  let p := Path.ofName name
  let folder ← d.reach p
  Path.checkComponent p.last
  let l := folder.step p.last
  if d.isFolder l then return .folder l
  if (d.content? l).isNone then throw .notFound
  if p.endsInSlash then throw .notAFolder
  return .file l

/-- Makes a file, or makes an old one empty. -/
def create (d : Directory) (name : String) : Except DeviceFailure (Location × Directory) := do
  Path.check name
  let p := Path.ofName name
  let folder ← d.reach p
  let l := folder.step p.last
  -- A slash at the end counts as a folder before the last component is looked
  -- at, however long that is and whatever it leads to.
  if p.endsInSlash || d.isFolder l then throw .isAFolder
  Path.checkComponent p.last
  return (l, d.put l .empty)

/-- The content of the file that a name stands for. -/
def read (d : Directory) (name : String) : Except DeviceFailure Bytes := do
  match ← d.find name with
  | .folder _ => throw .isAFolder
  | .file l => return (d.content l).data.toList

/-- The files in the folder that names start from, with their names. -/
def listing (d : Directory) : List (String × ByteArray) :=
  (d.files.filter fun (l, _) => l.isInside).map fun (l, content) => (l.name, content)

end Directory

end PacketTrace
