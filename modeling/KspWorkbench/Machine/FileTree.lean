import KspWorkbench.Text.PathName
import KspWorkbench.Text.Utf8

/-!
# File trees

Files and directories by their place below the root. A path is followed component by component, so
that `..` leads to the parent of a directory that must exist. Some directories can also be named by
a label at the front of a path.
-/

namespace KspWorkbench

inductive FileError where
  | missing
  | notDirectory
  | isDirectory
  | nameTooLong
  | nulByte
  | notUtf8
  deriving DecidableEq, Repr

namespace FileError

def message : FileError → String
  | .missing => "No such file or directory (os error 2)"
  | .notDirectory => "Not a directory (os error 20)"
  | .isDirectory => "Is a directory (os error 21)"
  | .nameTooLong => "File name too long (os error 36)"
  | .nulByte => "file name contained an unexpected NUL byte"
  | .notUtf8 => "stream did not contain valid UTF-8"

/-- Whether there is something at the path all the same. -/
def isPresent : FileError → Bool
  | .isDirectory | .notUtf8 => true
  | .missing | .notDirectory | .nameTooLong | .nulByte => false

end FileError

/-- The least number of bytes that is too long for a path. -/
def maxPathBytes : Nat :=
  4096

/-- A place below the root: the names on the way to it. -/
abbrev Place := List String

inductive Entry where
  | directory
  | file (content : List UInt8)
  deriving DecidableEq, Repr

/-- Files and directories; the root is always there. Paths that are not rooted start at `here`, and
labels name directories at the front of a path. -/
structure FileTree where
  entries : List (Place × Entry) := []
  here : Place := []
  labels : List (String × Place) := []

namespace FileTree

def entry? (t : FileTree) (place : Place) : Option Entry :=
  if place = [] then some .directory else t.entries.lookup place

def put (t : FileTree) (place : Place) (e : Entry) : FileTree :=
  { t with entries := (place, e) :: t.entries.filter (·.1 ≠ place) }

/-- Makes a directory and all those above it that are missing. -/
def makeDirectory (t : FileTree) (place : Place) : FileTree :=
  (List.range (place.length + 1)).foldl (fun t n =>
    if (t.entry? (place.take n)).isSome then t else t.put (place.take n) .directory) t

/-- Follows names from a place. Every place that is left must be a directory. -/
def follow (t : FileTree) (place : Place) : List String → Except FileError Place
  | [] => .ok place
  | name :: names =>
    match t.entry? place with
    | none => .error .missing
    | some (.file _) => .error .notDirectory
    | some .directory =>
      if name = ".." then t.follow place.dropLast names
      else if 255 < name.utf8ByteSize then .error .nameTooLong
      else t.follow (place ++ [name]) names

/-- The place where a path starts, and its components. -/
def origin (t : FileTree) (path : String) : Place × List String :=
  let name := PathName.ofString path
  match t.labels.find? fun (label, _) => (PathName.split path).head? = some label with
  | some (_, place) => (place, name.names.drop 1)
  | none => (if name.rooted then [] else t.here, name.names)

def locate (t : FileTree) (path : String) : Except FileError Place :=
  if path = "" then .error .missing
  else if path.contains (Char.ofNat 0) then .error .nulByte
  else if maxPathBytes ≤ path.utf8ByteSize then .error .nameTooLong
  else
    let (place, names) := t.origin path
    t.follow place names

/-- Whether a path can only name a directory: it ends with a slash or with a `.` component. -/
def namesDirectory (path : String) : Bool :=
  let parts := PathName.split path
  1 < parts.length && (parts.getLast? = some "" || parts.getLast? = some ".")

def read (t : FileTree) (path : String) : Except FileError (List UInt8) := do
  let place ← t.locate path
  match t.entry? place with
  | none => .error .missing
  | some .directory => .error .isDirectory
  | some (.file content) => if namesDirectory path then .error .notDirectory else .ok content

/-- Writes a file, if its directory is there. -/
def write (t : FileTree) (path : String) (content : List UInt8) : FileTree :=
  match t.locate path with
  | .error _ => t
  | .ok place =>
    match t.entry? place, t.entry? place.dropLast with
    | some .directory, _ => t
    | _, some .directory => if namesDirectory path then t else t.put place (.file content)
    | _, _ => t

def remove (t : FileTree) (path : String) : FileTree :=
  match t.locate path with
  | .error _ => t
  | .ok place =>
    match t.entry? place with
    | some (.file _) => { t with entries := t.entries.filter (·.1 ≠ place) }
    | _ => t

end FileTree

/-- The text of a file, which must be UTF-8. -/
def decodeFile (content : List UInt8) : Except FileError String :=
  match Utf8.decode? content with
  | some cs => .ok (String.ofList cs)
  | none => .error .notUtf8

end KspWorkbench
