import InterfaceKit.Data.Value
import InterfaceKit.Model.Table
import InterfaceKit.Model.Type

/-!
# Modules and their symbols

A module holds interfaces, structures and enumerations; an interface holds properties, operations
and signals. Every table keeps its symbols under their names in the order of first appearance.
-/
namespace InterfaceKit.Model
open Data

structure Common where
  name : String
  comment : String := ""
  tags : Value := .null
  type : TypeExpr := {}
  origin : Origin := default
  deriving DecidableEq, Repr, Inhabited

namespace Common

def inside (c holder : Common) (place : Place) : Common :=
  { c with origin := holder.origin.inside place }

def withType (c : Common) (type : TypeExpr) : Common :=
  { c with type, origin := c.origin.typed type.layers.length }

end Common

structure Parameter where
  common : Common
  deriving DecidableEq, Repr, Inhabited

structure Property where
  common : Common
  readonly : Bool := false
  const : Bool := false
  value : Option String := none
  deriving DecidableEq, Repr, Inhabited

structure Operation where
  common : Common
  isConst : Bool := false
  parameters : Table Parameter := []
  deriving DecidableEq, Repr, Inhabited

structure Signal where
  common : Common
  parameters : Table Parameter := []
  deriving DecidableEq, Repr, Inhabited

structure Interface where
  common : Common
  base : Option String := none
  properties : Table Property := []
  operations : Table Operation := []
  signals : Table Signal := []
  deriving DecidableEq, Repr, Inhabited

structure Field where
  common : Common
  value : Option String := none
  deriving DecidableEq, Repr, Inhabited

structure Struct where
  common : Common
  fields : Table Field := []
  deriving DecidableEq, Repr, Inhabited

structure Member where
  common : Common
  value : Int := 0
  deriving DecidableEq, Repr, Inhabited

structure Enum where
  common : Common
  isEnum : Bool := true
  isFlag : Bool := false
  members : Table Member := []
  deriving DecidableEq, Repr, Inhabited

structure Module where
  common : Common
  version : String := "1.0"
  /-- The name of an imported module with the text of the import. -/
  imports : Table String := []
  interfaces : Table Interface := []
  structs : Table Struct := []
  enums : Table Enum := []
  deriving DecidableEq, Repr, Inhabited

namespace Module

def name (m : Module) : String := m.common.name

def common? (m : Module) : Place → Option Common
  | .module => some m.common
  | .interface i => (m.interfaces.get? i).map (·.common)
  | .struct s => (m.structs.get? s).map (·.common)
  | .enum e => (m.enums.get? e).map (·.common)
  | .property i p => do ((← m.interfaces.get? i).properties.get? p).map (·.common)
  | .operation i o => do ((← m.interfaces.get? i).operations.get? o).map (·.common)
  | .signal i s => do ((← m.interfaces.get? i).signals.get? s).map (·.common)
  | .operationParameter i o p => do
    ((← (← m.interfaces.get? i).operations.get? o).parameters.get? p).map (·.common)
  | .signalParameter i s p => do
    ((← (← m.interfaces.get? i).signals.get? s).parameters.get? p).map (·.common)
  | .field s f => do ((← m.structs.get? s).fields.get? f).map (·.common)
  | .member e x => do ((← m.enums.get? e).members.get? x).map (·.common)

def modifyInterface (m : Module) (i : String) (f : Interface → Interface) : Module :=
  { m with interfaces := m.interfaces.modify i f }

def modifyOperation (m : Module) (i o : String) (f : Operation → Operation) : Module :=
  m.modifyInterface i fun x => { x with operations := x.operations.modify o f }

def modifySignal (m : Module) (i s : String) (f : Signal → Signal) : Module :=
  m.modifyInterface i fun x => { x with signals := x.signals.modify s f }

def modifyProperty (m : Module) (i p : String) (f : Property → Property) : Module :=
  m.modifyInterface i fun x => { x with properties := x.properties.modify p f }

def modifyStruct (m : Module) (s : String) (f : Struct → Struct) : Module :=
  { m with structs := m.structs.modify s f }

def modifyField (m : Module) (s x : String) (f : Field → Field) : Module :=
  m.modifyStruct s fun y => { y with fields := y.fields.modify x f }

def modifyEnum (m : Module) (e : String) (f : Enum → Enum) : Module :=
  { m with enums := m.enums.modify e f }

def modifyMember (m : Module) (e x : String) (f : Member → Member) : Module :=
  m.modifyEnum e fun y => { y with members := y.members.modify x f }

/-- Changes what the symbol at a place has in common with all others. -/
def modifyCommon (m : Module) (p : Place) (f : Common → Common) : Module :=
  match p with
  | .module => { m with common := f m.common }
  | .interface i => m.modifyInterface i fun x => { x with common := f x.common }
  | .struct s => m.modifyStruct s fun x => { x with common := f x.common }
  | .enum e => m.modifyEnum e fun x => { x with common := f x.common }
  | .property i p => m.modifyProperty i p fun x => { x with common := f x.common }
  | .operation i o => m.modifyOperation i o fun x => { x with common := f x.common }
  | .signal i s => m.modifySignal i s fun x => { x with common := f x.common }
  | .operationParameter i o p => m.modifyOperation i o fun x =>
    { x with parameters := x.parameters.modify p fun y => { y with common := f y.common } }
  | .signalParameter i s p => m.modifySignal i s fun x =>
    { x with parameters := x.parameters.modify p fun y => { y with common := f y.common } }
  | .field s x => m.modifyField s x fun y => { y with common := f y.common }
  | .member e x => m.modifyMember e x fun y => { y with common := f y.common }

def placesIn {α : Type} (t : Table α) (place : String → Place) : List (String × Place) :=
  t.names.map fun n => (n, place n)

/-- The tables that hold the contents of the symbol at a place, the first one hiding the later
ones. -/
def contentTables (m : Module) : Place → List (List (String × Place))
  | .module =>
    [placesIn m.interfaces .interface, placesIn m.structs .struct, placesIn m.enums .enum]
  | .interface i =>
    match m.interfaces.get? i with
    | some x =>
      [placesIn x.properties (.property i), placesIn x.operations (.operation i),
        placesIn x.signals (.signal i)]
    | none => []
  | .struct s =>
    match m.structs.get? s with
    | some x => [placesIn x.fields (.field s)]
    | none => []
  | .enum e =>
    match m.enums.get? e with
    | some x => [placesIn x.members (.member e)]
    | none => []
  | .operation i o =>
    match (m.interfaces.get? i).bind (·.operations.get? o) with
    | some x => [placesIn x.parameters (.operationParameter i o)]
    | none => []
  | .signal i s =>
    match (m.interfaces.get? i).bind (·.signals.get? s) with
    | some x => [placesIn x.parameters (.signalParameter i s)]
    | none => []
  | _ => []

def content? (m : Module) (p : Place) (name : String) : Option Place :=
  (m.contentTables p).findSome? fun t => t.lookup name

/-- The contents of the symbol at a place. Names come from the last table first, each once; what a
name means is decided by the first table that has it. -/
def contents (m : Module) (p : Place) : List Place :=
  let names := ((m.contentTables p).reverse.flatMap (·.map (·.1))).eraseDups
  names.filterMap (m.content? p)

def sectionOf (m : Module) (p : Place) : Section → Option (List Place)
  | .interfaces => if p = .module then some ((placesIn m.interfaces .interface).map (·.2)) else none
  | .structs => if p = .module then some ((placesIn m.structs .struct).map (·.2)) else none
  | .enums => if p = .module then some ((placesIn m.enums .enum).map (·.2)) else none
  | .properties =>
    match p with
    | .interface i => (m.interfaces.get? i).map fun x => x.properties.names.map (.property i)
    | _ => none
  | .operations =>
    match p with
    | .interface i => (m.interfaces.get? i).map fun x => x.operations.names.map (.operation i)
    | _ => none
  | .signals =>
    match p with
    | .interface i => (m.interfaces.get? i).map fun x => x.signals.names.map (.signal i)
    | _ => none
  | .parameters =>
    match p with
    | .operation _ _ | .signal _ _ => some (m.contents p)
    | _ => none
  | .fields =>
    match p with
    | .struct _ => some (m.contents p)
    | _ => none
  | .members =>
    match p with
    | .enum _ => some (m.contents p)
    | _ => none
  | .contents => some (m.contents p)
  | .modules => none

/-- The name of the container that the fully qualified name of a member goes through. -/
def containerName? : Place → Option String
  | .property i _ | .operation i _ | .signal i _ => some i
  | .field s _ => some s
  | .member e _ => some e
  | _ => none

/-- The fully qualified name of a name in a module; a name with dots is taken to be qualified
already. -/
def qualify (m : Module) (name : String) : String :=
  if name.toList.contains '.' then name else m.name ++ "." ++ name

def qualifiedName (m : Module) (p : Place) (name : String) : String :=
  match p with
  | .module => m.name
  | p =>
    match containerName? p with
    | some c => m.name ++ "." ++ c ++ "#" ++ name
    | none => m.qualify name

def nameParts (m : Module) : List String :=
  (Text.splitAt '.' m.name.toList).map String.ofList

def shortName (m : Module) : String := m.nameParts.getLastD ""

end Module

end InterfaceKit.Model
