import InterfaceKit.Files.Tree

/-!
# Patterns of file names

A star stands for any characters, a question mark for one, and brackets for one of those listed. Two
stars, or two dots, as a name of a pattern have no meaning of their own here. Names that lie in one
folder are visited in the order of their characters; a system may list them in another one.
-/
namespace InterfaceKit.Files

inductive GlobItem where
  | any
  | one
  | char (c : Char)
  | set (negated : Bool) (ranges : List (Char × Char))
  deriving DecidableEq, Repr

namespace Glob

def ranges : List Char → List (Char × Char)
  | a :: '-' :: b :: rest => (a, b) :: ranges rest
  | a :: rest => (a, a) :: ranges rest
  | [] => []

/-- Splits a set behind its opening bracket; a closing bracket in the first place is a member. -/
def setBody? (cs : List Char) : Option (Bool × List Char × List Char) :=
  let (negated, cs) := match cs with
    | '!' :: r => (true, r)
    | r => (false, r)
  let (first, cs) := match cs with
    | ']' :: r => ([']'], r)
    | r => ([], r)
  match cs.dropWhile (· ≠ ']') with
  | _ :: rest => some (negated, first ++ cs.takeWhile (· ≠ ']'), rest)
  | [] => none

def readUpTo : Nat → List Char → List GlobItem
  | 0, _ => []
  | _ + 1, [] => []
  | fuel + 1, c :: cs =>
    if c = '*' then .any :: readUpTo fuel cs
    else if c = '?' then .one :: readUpTo fuel cs
    else if c = '[' then
      match setBody? cs with
      | some (negated, body, rest) => .set negated (ranges body) :: readUpTo fuel rest
      | none => .char c :: readUpTo fuel cs
    else .char c :: readUpTo fuel cs

def ofString (s : String) : List GlobItem := readUpTo (s.length + 1) s.toList

def itemFits (i : GlobItem) (c : Char) : Bool :=
  match i with
  | .any | .one => true
  | .char d => c = d
  | .set negated ranges => (ranges.any fun r => r.1 ≤ c && c ≤ r.2) != negated

def fits : List GlobItem → List Char → Bool
  | [], cs => cs.isEmpty
  | .any :: items, [] => fits items []
  | .any :: items, c :: cs => fits items (c :: cs) || fits (.any :: items) cs
  | _ :: _, [] => false
  | i :: items, c :: cs => itemFits i c && fits items cs
termination_by items cs => items.length + cs.length

end Glob

/-- What lies in a folder at any depth, and the folder itself as the empty way. -/
def Tree.placesIn (t : Tree) (folder : Location) : List Location :=
  let places := (t.files.map (·.1) ++ t.folders).filterMap fun l =>
    if folder.isPrefixOf l && l.length > folder.length then some (l.drop folder.length) else none
  [] :: places.mergeSort Tree.before

/-- The files and folders whose ways from a folder below the given one fit a pattern. Folders come
before those that they hold, and what is found from a folder comes before what is found from the
folders in it. -/
def Tree.search (t : Tree) (folder : Location) (pattern : String) : List Location :=
  let parts := (Path.ofString pattern).names.map Glob.ofString
  let places := t.placesIn folder
  (places.filter fun start => t.isFolder (folder ++ start)).flatMap fun start =>
    places.filter fun l =>
      start.isPrefixOf l && l.length = start.length + parts.length
        && ((l.drop start.length).zip parts).all fun (name, part) => Glob.fits part name.toList

end InterfaceKit.Files
