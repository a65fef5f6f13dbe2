import PacketTrace.Failure

/-!
# Paths

The name of a file is a *path* (`Path`): components between slashes. The
component `.` stays where it is, `..` leads out to the folder around, and any
other leads into a folder. Where a path leads is its *location* (`Location`).
There are no links, so that the location follows from the path alone
(`Path.location`); whether the way to it is free is for a directory to tell
(`PacketTrace.Directory.Basic`).

* `Location.step`: where a component leads from a location;
* `Path.visited`: the locations on the way along a path;
* `Path.check`, `Path.checkComponent`: refuse what no name can be.
-/

namespace PacketTrace

/-! ## Locations -/

/-- A place among files and folders. -/
structure Location where
  /-- The way to it is from the root, not from the folder that names start
      from. -/
  absolute : Bool
  /-- The names along the way. Only the first of them may be `..`, and only on
      a way that is not from the root. -/
  parts : List String
  deriving DecidableEq

namespace Location

/-- The root, or the folder that other names start from. -/
def start (absolute : Bool) : Location := { absolute, parts := [] }

/-- The root, the folder that names start from, or one that it lies in. -/
def isOutermost (l : Location) : Bool := l.parts.all (· = "..")

/-- The folder around a location. The root lies in itself. -/
def outer (l : Location) : Location :=
  if !l.isOutermost then { l with parts := l.parts.dropLast }
  else if l.absolute then l
  else { l with parts := ".." :: l.parts }

/-- Where a component leads from a location. -/
def step (l : Location) (component : String) : Location :=
  if component = "." then l
  else if component = ".." then l.outer
  else { l with parts := l.parts ++ [component] }

/-- The location lies in the folder that names start from. -/
def isInside (l : Location) : Bool := !l.absolute && l.parts.head? ≠ some ".."

/-- The shortest name of a location. -/
def name (l : Location) : String :=
  let path := String.intercalate "/" l.parts
  if l.absolute then "/" ++ path else if l.parts.isEmpty then "." else path

end Location

/-! ## Paths -/

/-- A name, read as a path. -/
structure Path where
  /-- The path starts from the root. -/
  absolute : Bool
  /-- The components. Slashes next to each other count as one. -/
  components : List String
  /-- The path ends in a slash, and can only stand for a folder. -/
  endsInSlash : Bool
  deriving DecidableEq

namespace Path

/-- The most bytes in a path. -/
def limit : Nat := 4095

/-- The most bytes in a component. -/
def componentLimit : Nat := 255

/-- Refuses the names that no path is read from. -/
def check (name : String) : Except DeviceFailure Unit :=
  if name.toList.contains '\x00' then .error .zeroInName
  else if name = "" then .error .notFound
  else if limit < name.utf8ByteSize then .error .nameTooLong
  else .ok ()

/-- Refuses the components that are longer than any name in a folder. -/
def checkComponent (component : String) : Except DeviceFailure Unit :=
  if componentLimit < component.utf8ByteSize then .error .nameTooLong else .ok ()

/-- Reads a name as a path. -/
def ofName (name : String) : Path :=
  let parts := (name.toList.splitOn '/').map String.ofList
  { absolute := name.toList.head? = some '/'
    components := parts.filter (· ≠ "")
    endsInSlash := parts.getLast? = some "" }

/-- The components that lead through folders. -/
def folders (p : Path) : List String := p.components.dropLast

/-- The last component. A path of slashes leads to the root and stays there. -/
def last (p : Path) : String := p.components.getLast?.getD "."

/-- The locations on the way along a path, both ends included. -/
def visited (p : Path) : List Location :=
  (List.range (p.components.length + 1)).map fun n =>
    (p.components.take n).foldl Location.step (.start p.absolute)

/-- Where a path leads. -/
def location (p : Path) : Location := p.components.foldl Location.step (.start p.absolute)

end Path

end PacketTrace
