import InterfaceKit.Filter.Cpp

/-!
# Filters for QML
-/
namespace InterfaceKit.Qml
open Data Model Generic Cpp

def className (v : Value) : Inquiry String := do return (← read).qmlPrefix ++ (← nameText v)

def primitiveDefault? : String → Option String
  | "int" => some "0"
  | "real" => some "0.0"
  | "bool" => some "false"
  | "string" => some "''"
  | "var" => some "undefined"
  | _ => none

def defaultValue (v : Value) : Inquiry String := do
  let moduleName ← upperFirst (.text (← moduleOf v).shortName)
  let (n, t) ← typeOf v
  let l ← Inquiry.layer n t
  if l.isPrimitive then
    match primitiveDefault? l.name with
    | some s => return s
    | none => pure ()
  else if ← Inquiry.isEnum n t then
    return moduleName ++ "Module." ++ (← firstMember (← membersOf n t))
  if ← Inquiry.isStruct n t then return moduleName ++ "Module.create" ++ l.name ++ "()"
  if l.isModel then return "ListModel \x7b\x7d"
  return "XXX"

def propertyType (v : Value) : Inquiry Value := do
  let (n, t) ← typeOf v
  if ← Inquiry.isEnum n t then return .text "int"
  let l ← Inquiry.layer n t
  if (l.isVoid || l.isPrimitive) && ["int", "bool", "string"].contains l.name then
    return .text l.name
  if ← Inquiry.isStruct n t then return .text "var"
  if l.isModel then return .text "ListModel"
  return .type n t

end InterfaceKit.Qml
