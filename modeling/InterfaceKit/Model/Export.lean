import InterfaceKit.Model.System

/-!
# Export

Modules and systems as JSON documents. Members that say nothing are left out.
-/
namespace InterfaceKit.Model

/-- A member that is written only if it holds. -/
def flag (name : String) (b : Bool) : List (String × Json) := if b then [(name, .bool true)] else []

def layersToJson : List Layer → Json
  | [] => .object []
  | l :: inner => .object (
    (if l.name = "" then [] else [("name", .text l.name)])
      ++ flag "void" l.isVoid ++ flag "primitive" l.isPrimitive ++ flag "complex" l.isComplex
      ++ flag "list" l.isList ++ flag "map" l.isMap ++ flag "model" l.isModel
      ++ (if inner.isEmpty then [] else [("nested", layersToJson inner)]))

def TypeExpr.toJson (t : TypeExpr) : Json := layersToJson t.layers

def TypeExpr.isValid (t : TypeExpr) : Bool := t.outer.isValid (!t.inner.isEmpty)

def Common.members (c : Common) : List (String × Json) :=
  (if c.name = "" then [] else [("name", .text c.name)])
    ++ (if c.type.isValid then [("type", c.type.toJson)] else [])

def Parameter.toJson (p : Parameter) : Json := .object p.common.members

def listOf {α : Type} (toJson : α → Json) (t : Table α) : Json := .array (t.values.map toJson)

/-- The type of an operation is written even when it says nothing. -/
def Operation.toJson (o : Operation) : Json :=
  .object (o.common.members ++ [("parameters", listOf Parameter.toJson o.parameters)]
    ++ (if o.common.type.isValid then [] else [("type", o.common.type.toJson)]))

def Signal.toJson (s : Signal) : Json :=
  .object (s.common.members ++ [("parameters", listOf Parameter.toJson s.parameters)])

def Property.toJson (p : Property) : Json :=
  .object (p.common.members ++ flag "readonly" p.readonly ++ flag "const" p.const)

def Interface.toJson (i : Interface) : Json :=
  .object (i.common.members ++ [("properties", listOf Property.toJson i.properties),
    ("operations", listOf Operation.toJson i.operations),
    ("signals", listOf Signal.toJson i.signals)])

def Field.toJson (f : Field) : Json := .object f.common.members

def Struct.toJson (s : Struct) : Json :=
  .object (s.common.members ++ [("fields", listOf Field.toJson s.fields)])

def Member.toJson (m : Member) : Json := .object (m.common.members ++ [("value", .int m.value)])

def Enum.toJson (e : Enum) : Json :=
  .object (e.common.members ++ flag "enum" e.isEnum ++ flag "flag" e.isFlag
    ++ [("members", listOf Member.toJson e.members)])

def Module.toJson (m : Module) : Json :=
  .object (m.common.members ++ [("version", .text m.version),
    ("interfaces", listOf Interface.toJson m.interfaces),
    ("structs", listOf Struct.toJson m.structs),
    ("enums", listOf Enum.toJson m.enums)])

def Module.placeToJson (m : Module) : Place → Option Json
  | .module => some m.toJson
  | .interface i => (m.interfaces.get? i).map Interface.toJson
  | .struct s => (m.structs.get? s).map Struct.toJson
  | .enum e => (m.enums.get? e).map Enum.toJson
  | .property i p => do ((← m.interfaces.get? i).properties.get? p).map Property.toJson
  | .operation i o => do ((← m.interfaces.get? i).operations.get? o).map Operation.toJson
  | .signal i s => do ((← m.interfaces.get? i).signals.get? s).map Signal.toJson
  | .operationParameter i o p => do
    ((← (← m.interfaces.get? i).operations.get? o).parameters.get? p).map Parameter.toJson
  | .signalParameter i s p => do
    ((← (← m.interfaces.get? i).signals.get? s).parameters.get? p).map Parameter.toJson
  | .field s f => do ((← m.structs.get? s).fields.get? f).map Field.toJson
  | .member e x => do ((← m.enums.get? e).members.get? x).map Member.toJson

def System.toJson (s : System) : Json :=
  .object [("modules", .array (s.modules.filterMap fun id => (s.module? id).map Module.toJson))]

def System.entityToJson (s : System) : Entity → Json
  | .system => s.toJson
  | .symbol h => ((s.module? h.module).bind (·.placeToJson h.place)).getD .null

def System.typeToJson (s : System) (t : TypeHandle) : Json :=
  layersToJson (((s.common? t.owner).map fun c => c.type.layers.drop t.depth).getD [])

end InterfaceKit.Model
