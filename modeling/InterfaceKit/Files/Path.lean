import InterfaceKit.Text.Lines

/-!
# Paths

A path is a root, which is empty for a relative path, and a row of names. Empty names and single
dots say nothing and are left out; double dots are kept, since what they mean depends on the files.
-/
namespace InterfaceKit.Files

structure Path where
  root : String := ""
  names : List String := []
  deriving DecidableEq, Repr, Inhabited

namespace Path

/-- The names that count in a row of names. -/
def significant (names : List (List Char)) : List String :=
  (names.filter fun n => n ≠ [] && n ≠ ['.']).map String.ofList

/-- Exactly two slashes in front are a root of their own. -/
def rootOf : List Char → String
  | '/' :: '/' :: '/' :: _ => "/"
  | '/' :: '/' :: _ => "//"
  | '/' :: _ => "/"
  | _ => ""

def ofString (s : String) : Path :=
  { root := rootOf s.toList, names := significant (Text.splitAt '/' s.toList) }

def here : Path := {}

def toString (p : Path) : String :=
  match p.root, p.names with
  | "", [] => "."
  | root, names => root ++ String.intercalate "/" names

instance : ToString Path := ⟨toString⟩

def isAbsolute (p : Path) : Bool := p.root ≠ ""

/-- Follows `q` from `p`; an absolute `q` starts anew. -/
def join (p q : Path) : Path :=
  if q.isAbsolute then q else { p with names := p.names ++ q.names }

def child (p : Path) (name : String) : Path := p.join (ofString name)

def parent (p : Path) : Path := { p with names := p.names.dropLast }

def name (p : Path) : String := p.names.getLast?.getD ""

end Path

/-- A text path without its extension: what follows the last dot of the last name, unless nothing
but dots comes before it there. -/
def withoutExtension (s : String) : String :=
  let cs := s.toList
  let (folder, base) := match Text.splitLast? '/' cs with
    | some (before, behind) => (before ++ ['/'], behind)
    | none => ([], cs)
  match Text.splitLast? '.' base with
  | some (stem, _) => if stem.all (· = '.') then s else String.ofList (folder ++ stem)
  | none => s

end InterfaceKit.Files
