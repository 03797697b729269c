import InterfaceKit.Filter.Generic

/-!
# Filters for C++

How symbols and types are named, passed and initialised in C++ code that uses Qt.
-/
namespace InterfaceKit.Cpp
open Data Model Generic

/-- The type of a value: that of a symbol, or a type itself. -/
def typeOf (v : Value) : Inquiry (Nat × TypeHandle) := do
  match ← Inquiry.attributeOf v "type" with
  | .type n t => return (n, t)
  | other => Inquiry.unknownAttribute other "is_primitive"

def moduleOf (v : Value) : Inquiry Module := do
  match ← Inquiry.attributeOf v "module" with
  | .entity n (.symbol h) => Inquiry.moduleOf n h.module
  | other => Inquiry.unknownAttribute other "name_parts"

def nameText (v : Value) : Inquiry String := do plainText (← Inquiry.attributeOf v "name")

def typeName (n : Nat) (t : TypeHandle) : Inquiry String := do return (← Inquiry.layer n t).name

def nestedValue (n : Nat) (t : TypeHandle) : Inquiry Value := do
  match ← Inquiry.nested? n t with
  | some u => return .type n u
  | none => return .null

/-- The names of the members of the enumeration that a type refers to; the first one is the
default. -/
def firstMember (members : List String) : Inquiry String :=
  match members with
  | m :: _ => return m
  | [] => throw .exhausted

def membersOf (n : Nat) (t : TypeHandle) : Inquiry (List String) := do
  return ((← Inquiry.targetEnum n t).map fun e => e.members.values.map (·.common.name)).getD []

def className (v : Value) : Inquiry String := do return (← read).cppPrefix ++ (← nameText v)

def unknownType {α : Type} (detail : String) : Inquiry α := throw (.unknownKind detail)

/-- The text of the primitive types. A primitive type of another name is printed and refused. -/
def primitiveName (l : Layer) : Inquiry String :=
  if l.isPrimitiveNamed "string" then return "QString"
  else if l.isPrimitiveNamed "var" then return "QVariant"
  else if l.isPrimitiveNamed "real" then return "qreal"
  else if l.isPrimitiveNamed "int" then return "int"
  else if l.isPrimitiveNamed "bool" then return "bool"
  else if l.isVoid then return "void"
  else do
    Inquiry.print .out l.name
    throw .assertion

/-- The type that an operation returns. The element types of a list must be known, though they do
not show. -/
def returnTypeUpTo : Nat → Value → Inquiry String
  | 0, _ => throw .tooDeep
  | fuel + 1, v => do
    let cppPrefix := (← read).cppPrefix
    let (n, t) ← typeOf v
    let enumeration ← Inquiry.isEnumeration n t
    let l ← Inquiry.layer n t
    if enumeration then return l.name ++ "::" ++ l.name ++ "Enum"
    else if l.isVoid || l.isPrimitive then primitiveName l
    else if l.isList then
      let _ ← returnTypeUpTo fuel (← nestedValue n t)
      return "QVariantList"
    else if l.isModel then return "QAbstractItemModel *"
    else if l.isComplex then
      if ← Inquiry.isInterface n t then return l.name ++ "Base *"
      else return cppPrefix ++ l.name
    else unknownType ""

def typeDepth (v : Value) : Inquiry Nat := do
  match v with
  | .type n t => return (((← Inquiry.system n).common? t.owner).map (·.type.layers.length)).getD 0
  | .entity n (.symbol h) =>
    return (((← Inquiry.system n).common? h).map (·.type.layers.length)).getD 0
  | _ => return 0

def returnType (v : Value) : Inquiry String := do returnTypeUpTo ((← typeDepth v) + 2) v

def parameterType (v : Value) : Inquiry String := do
  let cppPrefix := (← read).cppPrefix
  let (n, t) ← typeOf v
  let enumeration ← Inquiry.isEnumeration n t
  let l ← Inquiry.layer n t
  let name ← plainText v
  if enumeration then return l.name ++ "::" ++ l.name ++ "Enum " ++ name
  else if l.isVoid || l.isPrimitive then
    if l.isPrimitiveNamed "string" then return "const QString &" ++ name
    else if l.isPrimitiveNamed "var" then return "const QVariant &" ++ name
    else if l.isPrimitiveNamed "real" then return "qreal " ++ name
    else if l.isPrimitiveNamed "bool" then return "bool " ++ name
    else if l.isPrimitiveNamed "int" then return "int " ++ name
    else return l.name ++ " " ++ name
  else if l.isList then
    let _ ← returnType (← nestedValue n t)
    return "const QVariantList &" ++ name
  else if l.isModel then return "QAbstractItemModel *" ++ name
  else if l.isComplex then
    if ← Inquiry.isInterface n t then return l.name ++ "Base *" ++ name
    else return "const " ++ cppPrefix ++ l.name ++ " &" ++ name
  else unknownType ""

def primitiveDefault (l : Layer) : Option String :=
  if l.isPrimitiveNamed "int" then some "int(0)"
  else if l.isPrimitiveNamed "bool" then some "bool(false)"
  else if l.isPrimitiveNamed "string" then some "QString()"
  else if l.isPrimitiveNamed "real" then some "qreal(0.0)"
  else if l.isPrimitiveNamed "var" then some "QVariant()"
  else none

def defaultValue (v : Value) : Inquiry String := do
  let cppPrefix := (← read).cppPrefix
  let (n, t) ← typeOf v
  let l ← Inquiry.layer n t
  let refuse : Inquiry String := do unknownType (← Inquiry.quote v)
  if l.isPrimitive then
    match primitiveDefault l with
    | some s => return s
    | none => refuse
  else if l.isVoid then return ""
  else if ← Inquiry.isEnumeration n t then
    let m ← firstMember (← membersOf n t)
    return l.name ++ "::" ++ l.name ++ "Enum::" ++ m
  else
    let kind ← plainText (← Inquiry.attributeOf v "kind")
    if kind = "enum" then
      let names ← (← Inquiry.elements (← Inquiry.attributeOf v "members")).mapM Inquiry.text
      return (← plainText v) ++ "::" ++ (← firstMember names)
    else if ← Inquiry.isFlag n t then return "0"
    else if l.isList then
      let _ ← returnType (← nestedValue n t)
      return "QVariantList()"
    else if ← Inquiry.isStruct n t then return cppPrefix ++ l.name ++ "()"
    else if l.isModel then return "nullptr"
    else if ← Inquiry.isInterface n t then return "nullptr"
    else refuse

def dependencies (v : Value) : Inquiry (List (Nat × TypeHandle)) := do
  let types ← Inquiry.elements (← Inquiry.attributeOf v "dependencies")
  return types.filterMap fun
    | .type n t => some (n, t)
    | _ => none

def joinLines (lines : List String) : String := String.intercalate "\n" lines

def headerDependencies (v : Value) : Inquiry String := do
  let lines ← (← dependencies v).mapM fun (n, t) => do
    let l ← Inquiry.layer n t
    if l.isPrimitive then return []
    let ahead := if ← Inquiry.isInterface n t then ["class " ++ l.name ++ ";"] else []
    let included := if ← Inquiry.isStruct n t then ["#include \"" ++ l.name ++ ".h\""] else []
    return ahead ++ included
  return joinLines lines.flatten

def lowerText (s : String) : String := String.ofList (Text.lower s.toList)

def sourceDependencies (v : Value) : Inquiry String := do
  let types ← dependencies v
  let moduleName := (← moduleOf v).shortName
  let kind ← plainText (← Inquiry.attributeOf v "kind")
  let own := if kind = "module" then [] else ["#include \"" ++ lowerText moduleName ++ "module.h\""]
  let lines ← types.mapM fun (n, t) => do
    let l ← Inquiry.layer n t
    if l.isPrimitive then return []
    if ← Inquiry.isInterface n t then return ["#include \"" ++ lowerText l.name ++ ".h\""]
    else return []
  return joinLines (own ++ lines.flatten)

/-! ## Namespaces -/

def openNamespaces (parts : List String) : String :=
  String.intercalate " " (parts.map fun p => "namespace " ++ p ++ " \x7b")

def scope (parts : List String) : String := String.intercalate "::" parts

def closeNamespaces (parts : List String) : String :=
  String.intercalate " " (parts.map fun _ => "\x7d") ++ " // namespace " ++ scope parts

def openNs (v : Value) : Inquiry String := do return openNamespaces (← moduleOf v).nameParts

def closeNs (v : Value) : Inquiry String := do return closeNamespaces (← moduleOf v).nameParts

def usingNs (v : Value) : Inquiry String := do
  return "using namespace " ++ scope (← moduleOf v).nameParts ++ ";"

/-- The namespace of a symbol; symbols of a primitive type have none. -/
def ns (v : Value) : Inquiry String := do
  let (n, t) ← typeOf v
  if (← Inquiry.layer n t).isPrimitive then return ""
  return scope (← moduleOf v).nameParts ++ "::"

def fqn (v : Value) : Inquiry String := do return (← ns v) ++ "::" ++ (← nameText v)

/-- The name of the signal that tells of changes of a property; other values stand for
themselves. -/
def signalName (v : Value) : Inquiry Value := do
  match v with
  | .entity _ (.symbol ⟨_, .property _ _⟩) => return .text ((← plainText v) ++ "Changed")
  | v => return v

def arguments (v : Value) : Inquiry (List Value) := do
  match v with
  | .entity _ (.symbol h) =>
    match h.place with
    | .operation _ _ | .signal _ _ => Inquiry.elements (← Inquiry.attributeOf v "parameters")
    | .struct _ => Inquiry.elements (← Inquiry.attributeOf v "fields")
    | .property _ _ => return [v]
    | _ => return []
  | _ => return []

/-- Joins texts; other values cannot be joined. -/
def joinTexts (separator : String) (vs : List Value) : Inquiry String := do
  let texts ← vs.mapM fun
    | .text t => (return t : Inquiry String)
    | v => do throw (.wrongType ("sequence item 0: expected str instance, "
        ++ (← Inquiry.store).className v ++ " found"))
  return String.intercalate separator texts

end InterfaceKit.Cpp
