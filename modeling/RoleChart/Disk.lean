import RoleChart.Path
/-!
The files that a run can see, as a value: reading looks a path up, and writing gives the files
after it. A path is followed piece by piece from the working directory or from the root. Directories
above the working directory are there, and hold nothing but what is listed here.

These files are simpler than those of a system. There are no links, and no permissions beside the mark
of a file that can be started: every file can be read and every directory written. Nothing fails for want
of space or while it is under way, and nobody else changes a file.
-/
namespace RoleChart

/-- Why an operation of the system failed. Beside the causes that are known here it may have any other,
with a text of its own. -/
inductive SystemError where
  | notFound
  | notExecutableFormat
  | permissionDenied
  | notDirectory
  | isDirectory
  | nameTooLong
  | notUtf8
  | zeroInPath
  | zeroInArgument
  | other (message : String)
  deriving Repr, BEq, DecidableEq, Inhabited

/-- The text of a system error. -/
def SystemError.message : SystemError → String
  | .notFound => "No such file or directory (os error 2)"
  | .notExecutableFormat => "Exec format error (os error 8)"
  | .permissionDenied => "Permission denied (os error 13)"
  | .notDirectory => "Not a directory (os error 20)"
  | .isDirectory => "Is a directory (os error 21)"
  | .nameTooLong => "File name too long (os error 36)"
  | .notUtf8 => "stream did not contain valid UTF-8"
  | .zeroInPath => "file name contained an unexpected NUL byte"
  | .zeroInArgument => "nul byte found in provided data"
  | .other message => message

/-- A place among the files: the pieces that lead there, the first one a slash where the place is
counted from the root, and steps up before all others. -/
abbrev Place := List Path

/-- What stands at a place. -/
inductive DiskEntry where
  | file (content : ByteArray) (executable : Bool)
  | directory
  deriving BEq, Inhabited

-- Written out so that contents are compared by the instance of the core library.
instance : DecidableEq DiskEntry
  | .file content executable, .file content' executable' =>
    match ByteArray.instDecidableEq content content', decEq executable executable' with
    | .isTrue hc, .isTrue he => .isTrue (hc ▸ he ▸ rfl)
    | .isFalse hc, _ => .isFalse fun h => hc (DiskEntry.file.inj h).1
    | _, .isFalse he => .isFalse fun h => he (DiskEntry.file.inj h).2
  | .file _ _, .directory => .isFalse nofun
  | .directory, .file _ _ => .isFalse nofun
  | .directory, .directory => .isTrue rfl

/-- The files and directories that are known. -/
structure Disk where
  entries : List (Place × DiskEntry)
  deriving BEq, DecidableEq, Inhabited

namespace Disk

/-- The working directory without any file. -/
def empty : Disk := ⟨[]⟩

/-- The device that swallows what is written and is empty when read. -/
def nullDevice : Place := [.root, "dev", "null"]

/-- The directories that are there whatever is listed: the working directory and those above it,
and the first ones under the root. -/
def isStanding (place : Place) : Bool :=
  place.all (· == .above) || ([[.root], [.root, "dev"], [.root, "tmp"]] : List Place).contains place

/-- What stands at a place. -/
def find? (disk : Disk) (place : Place) : Option DiskEntry :=
  if isStanding place then some .directory
  else if place = nullDevice then some (.file ByteArray.empty false)
  else disk.entries.lookup place

/-- The files with `entry` at a place. -/
def put (disk : Disk) (place : Place) (entry : DiskEntry) : Disk :=
  if place = nullDevice ∨ isStanding place then disk
  else ⟨(place, entry) :: disk.entries.filter fun e => e.1 != place⟩

/-- The place one step up. -/
def parent (place : Place) : Place :=
  if place = [.root] then place
  else if place.all (· == .above) then .above :: place
  else place.dropLast

/-- The longest name, in bytes, that a file can have. -/
def maxName : Nat := 255

/-- The length, in bytes, from which on a path is too long. -/
def maxPath : Nat := 4096

/-- The place under `place` that a single piece leads to. Only a directory has places under it. -/
def step (disk : Disk) (place : Place) (piece : Path) : Except SystemError Place :=
  match disk.find? place with
  | none => .error .notFound
  | some (.file _ _) => .error .notDirectory
  | some .directory =>
    if piece = .empty ∨ piece = .here then .ok place
    else if piece = .above then .ok (parent place)
    else if piece.bytes.length > maxName then .error .nameTooLong
    else .ok (place ++ [piece])

/-- Refuses a path that no operation of the system takes. -/
def checkPath (path : Path) : Except SystemError Unit :=
  if path.bytes.contains 0 then .error .zeroInPath
  else if path = .empty then .error .notFound
  else if path.bytes.length ≥ maxPath then .error .nameTooLong
  else .ok ()

/-- Where the pieces of a path are counted from. -/
def origin (path : Path) : Place :=
  if path.isAbsolute then [.root] else []

/-- The place that a path leads to; every piece but the last is there. -/
def locate (disk : Disk) (path : Path) : Except SystemError Place := do
  checkPath path
  path.pieces.foldlM disk.step (origin path)

/-- What stands where a path leads to. -/
def lookup (disk : Disk) (path : Path) : Except SystemError DiskEntry := do
  match disk.find? (← disk.locate path) with
  | some entry => return entry
  | none => throw .notFound

/-- Whether a path leads to a directory. -/
def isDirectory (disk : Disk) (path : Path) : Bool :=
  match disk.lookup path with
  | .ok .directory => true
  | _ => false

/-- Whether a path leads to a regular file. -/
def isFile (disk : Disk) (path : Path) : Bool :=
  match disk.locate path, disk.lookup path with
  | .ok place, .ok (.file _ _) => place ≠ nullDevice
  | _, _ => false

/-- The bytes of the file that a path leads to. -/
def readBytes (disk : Disk) (path : Path) : Except SystemError ByteArray := do
  match ← disk.lookup path with
  | .file content _ => return content
  | .directory => throw .isDirectory

/-- The text of the file that a path leads to. -/
def readText (disk : Disk) (path : Path) : Except SystemError String := do
  match String.fromUTF8? (← disk.readBytes path) with
  | some text => return text
  | none => throw .notUtf8

/-- The place of the file that is written under a path. The directory around it is there; the file
need not be. A path that ends with a slash or with dots names a directory. -/
def target (disk : Disk) (path : Path) : Except SystemError Place := do
  checkPath path
  let all := path.pieces
  let named := (all.reverse.dropWhile (· = .empty)).reverse
  let around ← named.dropLast.foldlM disk.step (origin path)
  let around ← disk.step around .here
  match named.getLast? with
  | none => throw .isDirectory
  | some piece =>
    if all.getLast? = some .empty ∨ piece = .here ∨ piece = .above then throw .isDirectory
    let place ← disk.step around piece
    if disk.find? place = some .directory then throw .isDirectory
    return place

/-- The files after `content` is written under a path, in place of what the file held. A file that
was there stays executable. -/
def write (disk : Disk) (path : Path) (content : ByteArray) : Except SystemError Disk := do
  let place ← disk.target path
  let executable := match disk.find? place with
    | some (.file _ executable) => executable
    | _ => false
  return disk.put place (.file content executable)

/-- The files after `content` is put at the end of the file under a path. -/
def append (disk : Disk) (path : Path) (content : ByteArray) : Except SystemError Disk := do
  let place ← disk.target path
  match disk.find? place with
  | some (.file old executable) => return disk.put place (.file (old ++ content) executable)
  | _ => return disk.put place (.file content false)

/-! ## Setting files up -/

/-- The place that pieces lead to from another, where each of them leads to a directory. -/
def placeAfter (place : Place) (pieces : List Path) : Place :=
  pieces.foldl (fun place piece =>
    if piece = .empty ∨ piece = .here then place
    else if piece = .above then parent place
    else place ++ [piece]) place

/-- The place that a path names, where every piece on the way leads to a directory. -/
def placeOf (path : Path) : Place := placeAfter (origin path) path.pieces

/-- The places on the way along a path, and the place that it names. -/
def placesAlong (path : Path) : List Place :=
  (List.range (path.pieces.length + 1)).map fun count =>
    placeAfter (origin path) (path.pieces.take count)

/-- The path of a place. -/
def pathOf (place : Place) : Path :=
  match place with
  | [] => .empty
  | first :: pieces => pieces.foldl Path.join first

/-- The files after an entry is put at a place, with every directory above it. -/
def install (disk : Disk) (place : Place) (entry : DiskEntry) : Disk :=
  let disk := (List.range place.length).foldl
    (fun disk count => if (disk.find? (place.take count)).isSome then disk
      else disk.put (place.take count) .directory) disk
  disk.put place entry

/-- The files that differ from those of `before`, with their contents. -/
def changedSince (before after : Disk) : List (Place × ByteArray) :=
  after.entries.filterMap fun (place, entry) =>
    match entry with
    | .file content _ => if before.find? place = some entry then none else some (place, content)
    | .directory => none

end Disk

end RoleChart
