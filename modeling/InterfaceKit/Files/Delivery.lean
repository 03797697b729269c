import InterfaceKit.Digest
import InterfaceKit.Files.Tree

/-!
# Delivering documents

A document is written when its file is not there or holds something else, which is told by the
digests of both. A file that is to be preserved keeps what it holds. Force overrides both.
-/
namespace InterfaceKit.Files

structure Document where
  path : Path
  text : String
  preserve : Bool := false
  force : Bool := false
  deriving DecidableEq, Repr

structure Delivery extends Document where
  place : Location
  deriving DecidableEq, Repr

def Document.bytes (d : Document) : List UInt8 := d.text.toUTF8.toList

/-- What became of a document. -/
inductive Receipt where
  | created
  | preserved
  | unchanged
  deriving DecidableEq, Repr

namespace Tree

def deliver (t : Tree) (d : Delivery) : Receipt × Tree :=
  match t.bytes? d.place with
  | none => (.created, t.put d.place d.bytes)
  | some old =>
    if d.force then (.created, t.put d.place d.bytes)
    else if Digest.Md5.digest d.bytes = Digest.Md5.digest old then (.unchanged, t)
    else if d.preserve then (.preserved, t)
    else (.created, t.put d.place d.bytes)

/-- Why a row of names does not lead to a folder: a file is at its end, or on the way. -/
inductive Obstacle where
  | atEnd
  | onTheWay
  deriving DecidableEq, Repr

/-- Makes the folders that names lead to from a folder, and gives the last one's place. -/
def makeWay (t : Tree) (l : Location) : List String → Except Obstacle (Location × Tree)
  | [] => .ok (l, t)
  | name :: names =>
    let next := if name = ".." then l.dropLast else l ++ [name]
    if t.isFolder next then makeWay t next names
    else if t.isFile next then .error (if names.isEmpty then .atEnd else .onTheWay)
    else makeWay { t with folders := t.folders ++ [next] } next names

/-- Makes the folder of a path, which is seen from another folder, and gives the place of the
path. -/
def prepare (t : Tree) (folder p : Path) : Except Failure (Location × Tree) :=
  match t.makeWay [] (folder.join p.parent).names with
  | .ok (l, t) =>
    .ok (if p.names.isEmpty then l else if p.name = ".." then l.dropLast else l ++ [p.name], t)
  | .error .atEnd => .error (.fileExists p.parent.toString)
  | .error .onTheWay => .error (.notDirectory p.parent.toString)

end Tree

end InterfaceKit.Files
