import InterfaceKit.Data.Date
import InterfaceKit.Doc.Comment
import InterfaceKit.Files.Path
import InterfaceKit.Model.Place

/-!
# Values

What tags, annotation documents, rule documents and template contexts hold. Lists and mappings live
in a store and are referred to by position, because a document may use one mapping in several
places, and a change through one of them is then seen through all.
-/
namespace InterfaceKit.Data
open Number Model

/-- A value that a template asked for and that is not there. -/
structure Undefined where
  message : String
  strict : Bool
  deriving DecidableEq, Repr

inductive Value where
  | null
  | bool (b : Bool)
  | int (i : Int)
  | float (d : Double)
  | text (s : String)
  | bytes (bs : List UInt8)
  | date (d : Date)
  | moment (m : Moment)
  | ref (cell : Nat)
  | entity (system : Nat) (e : Entity)
  | type (system : Nat) (t : TypeHandle)
  | view (system : Nat) (owner : Entity) (part : Section)
  | comment (c : Doc.Comment)
  | path (p : Files.Path)
  | undefined (u : Undefined)
  | library (name : String)
  | routine (library name : String)
  | other (className : String)
  deriving DecidableEq, Repr

instance : Inhabited Value := ⟨.null⟩

inductive Cell where
  | list (items : List Value)
  | tuple (items : List Value)
  | set (items : List Value)
  | map (entries : List (Value × Value))
  deriving DecidableEq, Repr, Inhabited

/-- Cells are addressed by their position and never removed. -/
structure Store where
  cells : Array Cell := #[]
  deriving Repr, Inhabited

namespace Store

def get? (s : Store) (i : Nat) : Option Cell := s.cells[i]?

def alloc (s : Store) (c : Cell) : Nat × Store := (s.cells.size, { cells := s.cells.push c })

def put (s : Store) (i : Nat) (c : Cell) : Store := { cells := s.cells.setIfInBounds i c }

/-- Deep enough to follow any value that does not contain itself. -/
def depthLimit (s : Store) : Nat := s.cells.size + 1

end Store

/-! ## Moving cells -/

def Value.shift (n : Nat) : Value → Value
  | ref cell => ref (n + cell)
  | v => v

def Cell.shift (n : Nat) : Cell → Cell
  | list items => list (items.map (·.shift n))
  | tuple items => tuple (items.map (·.shift n))
  | set items => set (items.map (·.shift n))
  | map entries => map (entries.map fun e => (e.1.shift n, e.2.shift n))

/-- The cells of another store behind those of this one. -/
def Store.append (s t : Store) : Store :=
  { cells := s.cells ++ t.cells.map (·.shift s.cells.size) }

end InterfaceKit.Data
