/-!
# Tables

Names with what they stand for, in the order in which the names were first set. Setting a name again
keeps its position.
-/
namespace InterfaceKit.Model

abbrev Table (α : Type) := List (String × α)

namespace Table

variable {α : Type}

def get? (t : Table α) (name : String) : Option α := t.lookup name

def has (t : Table α) (name : String) : Bool := (t.get? name).isSome

def set : Table α → String → α → Table α
  | [], name, a => [(name, a)]
  | (n, b) :: rest, name, a => if n = name then (n, a) :: rest else (n, b) :: set rest name a

def modify : Table α → String → (α → α) → Table α
  | [], _, _ => []
  | (n, b) :: rest, name, f => if n = name then (n, f b) :: rest else (n, b) :: modify rest name f

def names (t : Table α) : List String := t.map (·.1)

def values (t : Table α) : List α := t.map (·.2)

end Table

end InterfaceKit.Model
