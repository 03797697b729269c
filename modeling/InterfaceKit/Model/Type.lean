import InterfaceKit.Model.Place

/-!
# Types

A type is a row of layers: the outermost first, each next one nested in the one before it. The last
layer of a type that was read is a primitive or a complex one, or `void`.
-/
namespace InterfaceKit.Model

/-- What is known about the symbol that a layer refers to. A layer is resolved once; the answer is
kept even when there was none. -/
structure Resolution where
  attempted : Bool := false
  target : Option Entity := none
  deriving DecidableEq, Repr, Inhabited

structure Layer where
  name : String := ""
  isVoid : Bool := false
  isPrimitive : Bool := false
  isComplex : Bool := false
  isList : Bool := false
  isMap : Bool := false
  isModel : Bool := false
  resolution : Resolution := {}
  deriving DecidableEq, Repr, Inhabited

namespace Layer

def isContainer (l : Layer) : Bool := l.isList || l.isMap || l.isModel

/-- A layer says something when it names a type, or is a container and something is nested in it. -/
def isValid (l : Layer) (nested : Bool) : Bool :=
  (l.isPrimitive && l.name ≠ "") || (l.isComplex && l.name ≠ "") || (l.isContainer && nested)

def isPrimitiveNamed (l : Layer) (name : String) : Bool := l.isPrimitive && l.name = name

def void : Layer := { name := "void", isVoid := true }

def primitive (name : String) : Layer := { name, isPrimitive := true }

def complex (name : String) : Layer := { name, isComplex := true }

def list : Layer := { name := "list", isList := true }

def map : Layer := { name := "map", isMap := true }

def model : Layer := { name := "model", isModel := true }

end Layer

/-- A type: its layers from the outside in. A symbol without a type has one that says nothing. -/
structure TypeExpr where
  outer : Layer := {}
  inner : List Layer := []
  deriving DecidableEq, Repr, Inhabited

namespace TypeExpr

def layers (t : TypeExpr) : List Layer := t.outer :: t.inner

def layer? (t : TypeExpr) (depth : Nat) : Option Layer := t.layers[depth]?

def hasNested (t : TypeExpr) (depth : Nat) : Bool := (t.layer? (depth + 1)).isSome

def ofLayers : List Layer → TypeExpr
  | [] => {}
  | l :: ls => { outer := l, inner := ls }

def modify (t : TypeExpr) (depth : Nat) (f : Layer → Layer) : TypeExpr :=
  ofLayers (t.layers.modify depth f)

def truncate (t : TypeExpr) (depth : Nat) : TypeExpr := ofLayers (t.layers.take (depth + 1))

end TypeExpr

end InterfaceKit.Model
