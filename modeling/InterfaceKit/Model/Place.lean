/-!
# Places

Where a symbol stands in its module. A place names the containers on the way. What a symbol was made
with, its module and the symbol that it was made for, is noted beside it.
-/
namespace InterfaceKit.Model

inductive Place where
  | module
  | interface (i : String)
  | struct (s : String)
  | enum (e : String)
  | property (i p : String)
  | operation (i o : String)
  | signal (i s : String)
  | operationParameter (i o p : String)
  | signalParameter (i s p : String)
  | field (s f : String)
  | member (e m : String)
  deriving DecidableEq, Repr, Inhabited

/-- A symbol of a system: modules are numbered in the order in which they were read. -/
structure Handle where
  module : Nat
  place : Place
  deriving DecidableEq, Repr, Inhabited

/-- What a symbol was made with. -/
structure Origin where
  /-- The symbol itself. -/
  self : Handle
  module : Nat
  /-- The symbol that it was made for. -/
  owner : Handle
  /-- The modules that its type, and what is nested in that, were made with. -/
  types : List Nat
  deriving DecidableEq, Repr, Inhabited

namespace Origin

/-- A module is its own module. -/
def root (module : Nat) : Origin :=
  { self := ⟨module, .module⟩, module, owner := ⟨module, .module⟩, types := [module] }

/-- What is made for a symbol has its module, and so has its type. -/
def inside (o : Origin) (place : Place) : Origin :=
  { self := { o.self with place }, module := o.module, owner := o.self, types := [o.module] }

/-- What is nested in a type has the module of the type; `depth` counts the types. -/
def typed (o : Origin) (depth : Nat) : Origin :=
  { o with types := List.replicate depth (o.types.headD o.module) }

def moduleAt (o : Origin) (depth : Nat) : Nat := o.types.getD depth o.module

end Origin

/-- What a name can stand for in a system. -/
inductive Entity where
  | system
  | symbol (h : Handle)
  deriving DecidableEq, Repr, Inhabited

/-- A type of a system: the type of a symbol, or a type nested `depth` levels inside it. -/
structure TypeHandle where
  owner : Handle
  depth : Nat
  deriving DecidableEq, Repr, Inhabited

/-- The parts of a system or of a symbol that hold symbols. -/
inductive Section where
  | modules | interfaces | structs | enums | properties | operations | signals | parameters
  | fields | members | contents
  deriving DecidableEq, Repr, Inhabited

end InterfaceKit.Model
