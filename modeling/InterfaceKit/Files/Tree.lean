import InterfaceKit.Failure
import InterfaceKit.Files.Path

/-!
# Trees of files

Files and folders by their places: the names on the way from the root. The root is always a folder,
and so is what stands above a file.
-/
namespace InterfaceKit.Files

abbrev Location := List String

structure Tree where
  files : List (Location × List UInt8) := []
  folders : List Location := []
  deriving Repr, Inhabited

namespace Tree

def bytes? (t : Tree) (l : Location) : Option (List UInt8) := t.files.lookup l

def isFile (t : Tree) (l : Location) : Bool := (t.bytes? l).isSome

def isFolder (t : Tree) (l : Location) : Bool := l.isEmpty || t.folders.contains l

def exists? (t : Tree) (l : Location) : Bool := t.isFile l || t.isFolder l

/-- Follows names from a place; two dots lead back. Only folders lead on. -/
def follow (t : Tree) : Location → List String → Option Location
  | l, [] => some l
  | l, name :: names =>
    if t.isFolder l then follow t (if name = ".." then l.dropLast else l ++ [name]) names else none

def locate (t : Tree) (folder : Path) (p : Path) : Option Location :=
  t.follow [] (folder.join p).names

/-- The folders above a place and the place itself, the highest first. -/
def way : Location → List Location
  | [] => []
  | name :: names => [name] :: (way names).map (name :: ·)

/-- Makes a folder and those above it. What is in the way is not a folder. -/
def makeFolder (t : Tree) (l : Location) : Except Location Tree :=
  (way l).foldlM (fun t l =>
    if t.isFolder l then .ok t
    else if t.isFile l then .error l
    else .ok { t with folders := t.folders ++ [l] }) t

def put (t : Tree) (l : Location) (bytes : List UInt8) : Tree :=
  if t.isFile l then { t with files := t.files.map fun f => if f.1 = l then (l, bytes) else f }
  else { t with files := t.files ++ [(l, bytes)] }

def add (t : Tree) (l : Location) (bytes : List UInt8) : Tree :=
  match t.makeFolder l.dropLast with
  | .ok t => t.put l bytes
  | .error _ => t

/-- Order of places: names are compared one after the other. -/
def before (a b : Location) : Bool := compare a b != .gt

end Tree

end InterfaceKit.Files
