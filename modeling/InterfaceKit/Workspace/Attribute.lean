import InterfaceKit.Model.Tags
import InterfaceKit.Text.Case
import InterfaceKit.Workspace.Display

/-!
# Attributes

What templates and filters can ask a symbol, a type or another value by name. Asking a type what it
refers to resolves it.
-/
namespace InterfaceKit
open Data Model

namespace Inquiry

/-! ## Types -/

def layer (n : Nat) (t : TypeHandle) : Inquiry Layer := do return ((← system n).layer? t).getD {}

def nested? (n : Nat) (t : TypeHandle) : Inquiry (Option TypeHandle) :=
  do return (← system n).nested? t

/-- The symbol that a complex type refers to; other types refer to none. -/
def target (n : Nat) (t : TypeHandle) : Inquiry (Option Handle) := do
  if !(← layer n t).isComplex then return none
  match ← reference n t with
  | some (.symbol h) => return some h
  | _ => return none

def targetEnum (n : Nat) (t : TypeHandle) : Inquiry (Option Enum) := do
  match ← target n t with
  | some ⟨id, .enum e⟩ => return ((← system n).module? id).bind (·.enums.get? e)
  | _ => return none

def isEnumeration (n : Nat) (t : TypeHandle) : Inquiry Bool := do return (← targetEnum n t).isSome

def isEnum (n : Nat) (t : TypeHandle) : Inquiry Bool := do
  return ((← targetEnum n t).map (·.isEnum)).getD false

def isFlag (n : Nat) (t : TypeHandle) : Inquiry Bool := do
  return ((← targetEnum n t).map (·.isFlag)).getD false

def isStruct (n : Nat) (t : TypeHandle) : Inquiry Bool := do
  match ← target n t with
  | some ⟨_, .struct _⟩ => return true
  | _ => return false

def isInterface (n : Nat) (t : TypeHandle) : Inquiry Bool := do
  match ← target n t with
  | some ⟨_, .interface _⟩ => return true
  | _ => return false

/-- What makes a type valid: its name, or the type that is nested in it. -/
def validity (n : Nat) (t : TypeHandle) : Inquiry Value := do
  let l ← layer n t
  if (l.isPrimitive || l.isComplex) && l.name ≠ "" then return .text l.name
  match ← nested? n t with
  | some u => return if l.isContainer then .type n u else .bool false
  | none => return if l.isModel then .null else .bool false

def moduleOf (n id : Nat) : Inquiry Module := do return ((← system n).module? id).getD default

def qualifiedName (n : Nat) (h : Handle) : Inquiry String := do
  let m ← moduleOf n h.module
  return m.qualifiedName h.place ((m.common? h.place).getD default).name

def qualifiedTypeName (n : Nat) (t : TypeHandle) : Inquiry String := do
  return (← moduleOf n t.owner.module).qualify (← layer n t).name

def unknownAttribute {α : Type} (v : Value) (name : String) : Inquiry α := do
  throw (.missingAttribute ((← store).className v) name)

def originOf (n : Nat) (h : Handle) : Inquiry Model.Origin := do return (← system n).originAt h

def typeAttribute (n : Nat) (t : TypeHandle) (name : String) : Inquiry Value := do
  let l ← layer n t
  match name with
  | "name" => return .text l.name
  | "module" => return .entity n (.symbol ⟨(← originOf n t.owner).moduleAt t.depth, .module⟩)
  | "parent" =>
    if t.depth = 0 then return .entity n (.symbol t.owner)
    else return .type n { t with depth := t.depth - 1 }
  | "type" => return .type n t
  | "qualified_name" => return .text (← qualifiedTypeName n t)
  | "nested" =>
    match ← nested? n t with
    | some u => return .type n u
    | none => return .null
  | "reference" =>
    match ← reference n t with
    | some e => return .entity n e
    | none => return .null
  | "is_valid" => validity n t
  | "is_void" => return .bool l.isVoid
  | "is_primitive" => return .bool l.isPrimitive
  | "is_complex" => return .bool l.isComplex
  | "is_list" => return .bool l.isList
  | "is_map" => return .bool l.isMap
  | "is_model" => return .bool l.isModel
  | "is_bool" => return .bool (l.isPrimitiveNamed "bool")
  | "is_int" => return .bool (l.isPrimitiveNamed "int")
  | "is_real" => return .bool (l.isPrimitiveNamed "real")
  | "is_string" => return .bool (l.isPrimitiveNamed "string")
  | "is_var" => return .bool (l.isPrimitiveNamed "var")
  | "is_enumeration" => return .bool (← isEnumeration n t)
  | "is_enum" => return .bool (← isEnum n t)
  | "is_flag" => return .bool (← isFlag n t)
  | "is_struct" => return .bool (← isStruct n t)
  | "is_interface" => return .bool (← isInterface n t)
  | "toJson" => return .other "method"
  | _ => unknownAttribute (.type n t) name

/-! ## Symbols -/

/-- The parts of a symbol that hold symbols, by name. -/
def sectionNamed? : String → Option Section
  | "modules" => some .modules
  | "interfaces" => some .interfaces
  | "structs" => some .structs
  | "enums" => some .enums
  | "properties" => some .properties
  | "operations" => some .operations
  | "signals" => some .signals
  | "parameters" => some .parameters
  | "fields" => some .fields
  | "members" => some .members
  | "contents" => some .contents
  | _ => none

def kindName (p : Place) : String := String.ofList (Text.lower (placeClass p).toList)

def textList (xs : List String) : Inquiry Value := newList (xs.map .text)

def ownAttribute (n : Nat) (h : Handle) (m : Module) (name : String) : Inquiry (Option Value) := do
  let owner : Inquiry (Option Value) := do return some (.entity n (.symbol (← originOf n h).owner))
  let bool (b : Bool) : Inquiry (Option Value) := return some (.bool b)
  match h.place, name with
  | .module, "version" => return some (.text m.version)
  | .module, "majorVersion" =>
    return some (.text (String.ofList ((Text.splitAt '.' m.version.toList).headD [])))
  | .module, "minorVersion" =>
    match (Text.splitAt '.' m.version.toList)[1]? with
    | some v => return some (.text (String.ofList v))
    | none => throw (.outOfRange "list index out of range")
  | .module, "module_name" => return some (.text m.shortName)
  | .module, "name_parts" => return some (← textList m.nameParts)
  | .module, "imports" => return some (.other "odict_values")
  | .module, "lookup" => return some (.other "method")
  | .module, "checkType" => return some (.other "method")
  | .interface i, "_extends" =>
    match (m.interfaces.get? i).bind (·.base) with
    | some b => return some (.text b)
    | none => return some .null
  | .interface i, "extends" =>
    match (m.interfaces.get? i).bind (·.base) with
    | some b => return some (.entity n (← lift ((← system n).lookupFrom h.module b none)))
    | none => throw (.missingAttribute "NoneType" "rsplit")
  | .property i p, _ =>
    match (m.interfaces.get? i).bind (·.properties.get? p) with
    | none => return none
    | some x =>
      let t : TypeHandle := { owner := h, depth := 0 }
      let nestedLayer (f : Layer → Bool) : Inquiry (Option Value) := do
        if !(← layer n t).isModel then return some (.bool false)
        match ← nested? n t with
        | some u => return some (.bool (f (← layer n u)))
        | none => throw (.missingAttribute "NoneType" "is_primitive")
      match name with
      | "interface" => owner
      | "readonly" => bool x.readonly
      | "const" => bool x.const
      | "writeable" => bool (!x.readonly && !x.const)
      | "is_model" => bool (← layer n t).isModel
      | "is_primitive_model" => nestedLayer (·.isPrimitive)
      | "is_complex_model" => nestedLayer (·.isComplex)
      | "value" => return some (x.value.elim .null .text)
      | _ => return none
  | .operation i o, "is_const" =>
    bool (((m.interfaces.get? i).bind (·.operations.get? o)).map (·.isConst) |>.getD false)
  | .operation _ _, "interface" | .signal _ _, "interface" => owner
  | .operationParameter _ _ _, "operation" | .signalParameter _ _ _, "operation" => owner
  | .field _ _, "struct" => owner
  | .field s f, "value" =>
    return some ((((m.structs.get? s).bind (·.fields.get? f)).bind (·.value)).elim .null .text)
  | .enum e, "is_enum" => bool (((m.enums.get? e).map (·.isEnum)).getD false)
  | .enum e, "is_flag" => bool (((m.enums.get? e).map (·.isFlag)).getD false)
  | .member _ _, "enum" => owner
  | .member e x, "value" =>
    return some (.int ((((m.enums.get? e).bind (·.members.get? x)).map (·.value)).getD 0))
  | .member _ _, "qualified_name" => return some (.other "method")
  | _, _ => return none

def symbolAttribute (n : Nat) (h : Handle) (name : String) : Inquiry Value := do
  let m ← moduleOf n h.module
  match ← ownAttribute n h m name with
  | some v => return v
  | none =>
    let common := (m.common? h.place).getD default
    match name with
    | "name" => return .text common.name
    | "module" => return .entity n (.symbol ⟨(← originOf n h).module, .module⟩)
    | "system" => return .entity n .system
    | "comment" => return .text common.comment
    | "tags" | "_tags" => return common.tags
    | "value" => return .null
    | "type" => return .type n { owner := h, depth := 0 }
    | "kind" => return .text (kindName h.place)
    | "qualified_name" => return .text (← qualifiedName n h)
    | "dependencies" =>
      newList
        ((m.contents h.place).map fun p => .type n { owner := { h with place := p }, depth := 0 })
    | "_contentMap" =>
      return .other (if layered (.symbol h) then "ChainMap" else "OrderedDict")
    | "add_tag" | "add_attribute" | "tag" | "attribute" | "toJson" => return .other "method"
    | _ =>
      match sectionNamed? name with
      | some x =>
        if (m.sectionOf h.place x).isSome then return .view n (.symbol h) x
        else unknownAttribute (.entity n (.symbol h)) name
      | none => unknownAttribute (.entity n (.symbol h)) name

def systemAttribute (n : Nat) (name : String) : Inquiry Value := do
  match name with
  | "tags" | "_tags" => return (← system n).tags
  | "modules" => return .view n .system .modules
  | "_moduleMap" => return .other "OrderedDict"
  | "add_tag" | "add_attribute" | "tag" | "attribute" | "toJson" | "lookup" => return .other "method"
  | "split_typename" => return .other "function"
  | _ => unknownAttribute (.entity n .system) name

/-! ## Other values -/

/-- The routines that a value of a class has; they are known by name only. -/
def routines : String → List String
  | "dict" => ["clear", "copy", "fromkeys", "get", "items", "keys", "pop", "popitem", "setdefault",
      "update", "values"]
  | "list" => ["append", "clear", "copy", "count", "extend", "index", "insert", "pop", "remove",
      "reverse", "sort"]
  | "tuple" => ["count", "index"]
  | "set" => ["add", "clear", "copy", "difference", "difference_update", "discard", "intersection",
      "intersection_update", "isdisjoint", "issubset", "issuperset", "pop", "remove",
      "symmetric_difference", "symmetric_difference_update", "union", "update"]
  | "str" =>
    ["capitalize", "casefold", "center", "count", "encode", "endswith", "expandtabs", "find",
      "format", "format_map", "index", "isalnum", "isalpha", "isascii", "isdecimal", "isdigit",
      "isidentifier", "islower", "isnumeric", "isprintable", "isspace", "istitle", "isupper", "join",
      "ljust", "lower", "lstrip", "maketrans", "partition", "removeprefix", "removesuffix",
        "replace",
      "rfind", "rindex", "rjust", "rpartition", "rsplit", "rstrip", "split", "splitlines",
      "startswith", "strip", "swapcase", "title", "translate", "upper", "zfill"]
  | "int" | "bool" => ["as_integer_ratio", "bit_count", "bit_length", "conjugate", "from_bytes",
      "to_bytes"]
  | _ => []

def entryValue : Doc.Entry → Value
  | .mark => .bool true
  | .text s => .text s

def pathAttribute (p : Files.Path) (name : String) : Inquiry Value := do
  match name with
  | "name" => return .text p.name
  | "parent" => return .path p.parent
  | "stem" => return .text (Files.withoutExtension p.name)
  | "suffix" =>
    return .text (String.ofList (p.name.toList.drop (Files.withoutExtension p.name).length))
  | "parts" => alloc (.tuple ((if p.root = "" then p.names else p.root :: p.names).map .text))
  | _ => unknownAttribute (.path p) name

def attributeOf (v : Value) (name : String) : Inquiry Value := do
  match v with
  | .entity n .system => systemAttribute n name
  | .entity n (.symbol h) => symbolAttribute n h name
  | .type n t => typeAttribute n t name
  | .comment c =>
    match name with
    | "brief" => newList (c.brief.map entryValue)
    | "description" => newList (c.description.map entryValue)
    | "see" => newList (c.see.map entryValue)
    | "deprecated" => return .bool c.deprecated
    | "add_tag" => return .other "method"
    | _ => unknownAttribute v name
  | .path p => pathAttribute p name
  | .undefined u => throw (.undefined u.message .engine)
  | v =>
    if (routines ((← store).className v)).contains name then
      return .other "builtin_function_or_method"
    else unknownAttribute v name

def objectText (v : Value) : Inquiry String := do
  let name := (← store).className v
  match v with
  | .null => return "None"
  | .entity _ _ | .type _ _ => return "qface.idl.domain." ++ name ++ " object"
  | .path _ => return "pathlib." ++ name ++ " object"
  | .comment _ => return "qface.helper.doc." ++ name ++ " object"
  | .library _ => return "jinja2.environment." ++ name ++ " object"
  | .routine _ _ => return "jinja2.runtime." ++ name ++ " object"
  | .view _ _ _ =>
    return (if name = "ValuesView" then "collections.abc." else "") ++ name ++ " object"
  | _ => return name ++ " object"

/-- What stands for an attribute that a value does not have. -/
def undefinedAttribute (strict : Bool) (v : Value) (name : String) : Inquiry Value := do
  let message := Text.quoted (← objectText v) ++ " has no attribute " ++ Text.quoted name
  return .undefined { message, strict }

def elements (v : Value) : Inquiry (List Value) := do
  match v with
  | .view n owner part =>
    return ((← read).symbolsIn n owner part).map fun h => .entity n (.symbol h)
  | .undefined u => if u.strict then throw (.undefined u.message .engine) else return []
  | v => ask (·.elements v)

/-! ## Members -/

def item? (v key : Value) : Inquiry (Option Value) := do
  match ← attempt (ask (·.getItem v key)) with
  | .ok x => return some x
  | .error (.missingKey _ _) | .error (.outOfRange _) | .error (.wrongType _)
  | .error (.missingAttribute _ _) => return none
  | .error e => throw e

def member? (v : Value) (name : String) : Inquiry (Option Value) := do
  match ← attempt (attributeOf v name) with
  | .ok x => return some x
  | .error (.missingAttribute _ _) => return none
  | .error e => throw e

/-- A member of a value: an attribute, else an item of that name. -/
def memberOf (strict : Bool) (v : Value) (name : String) : Inquiry Value := do
  match ← member? v name with
  | some x => return x
  | none =>
    match ← item? v (.text name) with
    | some x => return x
    | none => undefinedAttribute strict v name

/-- An item of a value; a text may also name an attribute. -/
def itemOf (strict : Bool) (v key : Value) : Inquiry Value := do
  match v with
  | .undefined u => throw (.undefined u.message .engine)
  | v =>
    match ← item? v key with
    | some x => return x
    | none =>
      match key with
      | .text name =>
        match ← member? v name with
        | some x => return x
        | none => undefinedAttribute strict v name
      | key =>
        let message := (← objectText v) ++ " has no element " ++ (← quote key)
        return .undefined { message, strict }

end Inquiry

namespace Act

export Inquiry
  (text quote layer nested? reference moduleOf qualifiedName qualifiedTypeName unknownAttribute
  typeAttribute kindName attributeOf elements)

end Act

end InterfaceKit
