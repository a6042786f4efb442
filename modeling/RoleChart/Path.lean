import RoleChart.Text.Utf8
/-!
Paths: bytes, whose pieces are separated by slashes. A path names the file whose name is its last
piece, leaving aside empty pieces and single dots. The bytes need not be UTF-8; a path that is has a
text (`Path.toString?`), and any other is shown with replacement characters (`Path.display`).

Where a path divides depends on two marks alone, the slash and the dot (`Path.Marks`), and not on what
stands between them.
-/
namespace RoleChart

/-- A path, by its bytes. -/
structure Path where
  bytes : List UInt8
  deriving Repr, DecidableEq, Inhabited

namespace Path

/-! ## Texts -/

/-- The path that a text spells. -/
def ofString (text : String) : Path := ⟨text.toUTF8.data.toList⟩

instance : Coe String Path := ⟨ofString⟩

/-- The text that a path spells, if its bytes are UTF-8. -/
def toString? (path : Path) : Option String := String.fromUTF8? ⟨path.bytes.toArray⟩

/-- A path as it is shown. -/
def display (path : Path) : String := Text.decodeLossy ⟨path.bytes.toArray⟩

/-! ## Dividing -/

/-- The marks that divide a path: the one between pieces, and the one in front of an extension. -/
structure Marks (α : Type) where
  slash : α
  dot : α
  deriving Repr, DecidableEq, Inhabited

namespace Marks

variable {α : Type} [DecidableEq α]

/-- The pieces of a list between the members `sep`. -/
def splitOn (sep : α) : List α → List (List α)
  | [] => [[]]
  | c :: rest =>
    if c = sep then [] :: splitOn sep rest
    else match splitOn sep rest with
      | [] => [[c]]
      | piece :: pieces => (c :: piece) :: pieces

variable (m : Marks α)

/-- The pieces between slashes, which may be empty. -/
def pieces (path : List α) : List (List α) := splitOn m.slash path

/-- The last piece that is neither empty nor a single dot. -/
def lastPiece? (path : List α) : Option (List α) :=
  (m.pieces path).reverse.find? fun piece => piece ≠ [] ∧ piece ≠ [m.dot]

/-- The name of the file: the last piece, unless that is the parent directory. -/
def fileName? (path : List α) : Option (List α) :=
  (m.lastPiece? path).filter (· ≠ [m.dot, m.dot])

/-- What stands after the last dot and whether anything stands before it, if there is a dot. -/
def afterLastDot? (name : List α) : Option (List α × Bool) :=
  let after := (name.reverse.takeWhile (· ≠ m.dot)).reverse
  let before := name.length - after.length
  if before = 0 then none else some (after, before > 1)

/-- The extension of the file: what follows the last dot of its name, where the name does not start
with that dot. -/
def extension? (path : List α) : Option (List α) := do
  let name ← m.fileName? path
  let (after, isInside) ← m.afterLastDot? name
  if isInside then some after else none

end Marks

/-- The marks of paths: the bytes of `/` and of `.`. -/
def marks : Marks UInt8 := ⟨0x2F, 0x2E⟩

/-- The path without any byte. -/
def empty : Path := ⟨[]⟩

/-- The path of the root. -/
def root : Path := ⟨[marks.slash]⟩

/-- The piece that stays where it is. -/
def here : Path := ⟨[marks.dot]⟩

/-- The piece that leads one step up. -/
def above : Path := ⟨[marks.dot, marks.dot]⟩

/-- The pieces of a path between its slashes, which may be empty. -/
def pieces (path : Path) : List Path := (marks.pieces path.bytes).map mk

/-- The name of the file that a path names. -/
def fileName? (path : Path) : Option Path := (marks.fileName? path.bytes).map mk

/-- The extension of the file that a path names. -/
def extension? (path : Path) : Option Path := (marks.extension? path.bytes).map mk

/-! ## Joining -/

/-- Whether a path starts at the root. -/
def isAbsolute (path : Path) : Bool := path.bytes.head? == some marks.slash

/-- The path `rest` under the directory `base`: one slash joins the two where none ends `base`. A
`rest` that starts at the root replaces `base`. -/
def join (base rest : Path) : Path :=
  if isAbsolute rest then rest
  else if base = empty ∨ base.bytes.getLast? = some marks.slash then ⟨base.bytes ++ rest.bytes⟩
  else ⟨base.bytes ++ marks.slash :: rest.bytes⟩

end Path

end RoleChart
