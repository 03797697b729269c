import InterfaceKit.Filter.Qml
import InterfaceKit.Json.Reader

/-!
# Filters by name

A filter is applied to a value, with further arguments by position or by name. The names under which
filters are known can be changed, so names and filters are kept apart.
-/
namespace InterfaceKit
open Data Model

inductive Filter where
  | jsonify | upperFirst | lowerFirst | hash | path | identifier
  | qmlClassName | qmlDefaultValue | qmlPropertyType
  | defaultValue | returnType | parameterType | openNs | closeNs | usingNs | ns | fqn | signalName
  | parameters | signature | className | sourceDependencies | headerDependencies
  | parseDoc
  | lower | upper | length | first | join | attr
  deriving DecidableEq, Repr, Inhabited

namespace Filter

/-- The names under which the filters for symbols are known. -/
def standard : Table Filter :=
  [("jsonify", jsonify), ("upper_first", upperFirst), ("lower_first", lowerFirst),
    ("upperfirst", upperFirst), ("lowerfirst", lowerFirst), ("hash", hash), ("path", path),
    ("identifier", identifier), ("qml.className", qmlClassName),
    ("qml.defaultValue", qmlDefaultValue), ("qml.propertyType", qmlPropertyType),
    ("qt.defaultValue", defaultValue), ("qt.returnType", returnType),
    ("qt.parameterType", parameterType), ("qt.open_ns", openNs), ("qt.close_ns", closeNs),
    ("qt.using_ns", usingNs), ("qt.ns", ns), ("qt.fqn", fqn), ("qt.signalName", signalName),
    ("qt.parameters", parameters), ("qt.signature", signature), ("qt.identifier", identifier),
    ("qt.path", path), ("qt.className", className),
    ("qt.source_dependencies", sourceDependencies),
    ("qt.header_dependencies", headerDependencies), ("parse_doc", parseDoc)]

/-- The names of the filters for texts and rows that templates know besides. -/
def basic : Table Filter :=
  [("lower", lower), ("upper", upper), ("length", length), ("count", length), ("first", first),
    ("join", join), ("attr", attr)]

def initial : Table Filter := standard ++ basic

/-- Assigns arguments to parameters, which all may be left out. -/
def assign (parameters : List String) (args : List Value) (named : Table Value) :
    Inquiry (List (Option Value)) := do
  if args.length > parameters.length then throw (.wrongType "too many arguments")
  let free := parameters.drop args.length
  match named.find? fun e => !free.contains e.1 with
  | some e => throw (.wrongType ("unexpected argument " ++ e.1))
  | none => return args.map some ++ free.map named.get?

def lengthOf (v : Value) : Inquiry Int := do
  match v with
  | .text t => return t.length
  | .bytes bs => return bs.length
  | .ref _ => return (← Inquiry.elements v).length
  | .view _ _ _ => return (← Inquiry.elements v).length
  | .undefined u => if u.strict then throw (.undefined u.message .engine) else return 0
  | v => throw (.wrongType ("object of type '" ++ (← Inquiry.store).className v ++ "' has no len()"))

def applyPlain (f : Filter) (v : Value) : Inquiry Value := do
  match f with
  | jsonify => return .text (← Generic.toJson v)
  | upperFirst => return .text (← Generic.upperFirst v)
  | lowerFirst => return .text (← Generic.lowerFirst v)
  | hash => return .text (← Generic.digest v (.text "sha1"))
  | path => return .text (← Generic.pathOf v)
  | identifier => return .text (← Generic.identifier v)
  | qmlClassName => return .text (← Qml.className v)
  | qmlDefaultValue => return .text (← Qml.defaultValue v)
  | qmlPropertyType => Qml.propertyType v
  | defaultValue => return .text (← Cpp.defaultValue v)
  | returnType => return .text (← Cpp.returnType v)
  | parameterType => return .text (← Cpp.parameterType v)
  | openNs => return .text (← Cpp.openNs v)
  | closeNs => return .text (← Cpp.closeNs v)
  | usingNs => return .text (← Cpp.usingNs v)
  | ns => return .text (← Cpp.ns v)
  | fqn => return .text (← Cpp.fqn v)
  | signalName => Cpp.signalName v
  | className => return .text (← Cpp.className v)
  | sourceDependencies => return .text (← Cpp.sourceDependencies v)
  | headerDependencies => return .text (← Cpp.headerDependencies v)
  | parseDoc => Generic.readComment v
  | lower => return .text (String.ofList (Text.lower (← Generic.plainText v).toList))
  | upper => return .text (String.ofList (Text.upper (← Generic.plainText v).toList))
  | length => return .int (← lengthOf v)
  | parameters | signature | first | join | attr => throw (.wrongType "missing argument")

/-- What happens to filters that need the names of others, or the way in which templates see
attributes. -/
structure Setting where
  known : Table Filter
  strict : Bool := false

/-- The filter that an argument asks for: none at all means `default`, a text names one. -/
def chosen (s : Setting) (default : Filter) (argument : Option Value) :
    Inquiry (Value → Inquiry Value) := do
  let v := argument.getD .null
  if !(← Inquiry.store).isTrue v then return default.applyPlain
  match v with
  | .text name =>
    match s.known.get? name with
    | some f => return f.applyPlain
    | none => throw (.missingKey (some name) (Text.quoted name))
  | v =>
    let className := (← Inquiry.store).className v
    return fun _ => throw (.wrongType ("'" ++ className ++ "' object is not callable"))

def truth (default : Bool) (argument : Option Value) : Inquiry Bool := do
  match argument with
  | some v => return (← Inquiry.store).isTrue v
  | none => return default

/-- Follows a dotted name from a value; a part that is a number is an index. -/
def followName (s : Setting) (name : String) (v : Value) : Inquiry Value :=
  ((Text.splitAt '.' name.toList).map String.ofList).foldlM (fun v part =>
    Inquiry.itemOf s.strict v (if part ≠ "" && part.toList.all Char.isDigit
      then .int (Json.decimalValue part.toList) else .text part)) v

/-- The elements of a value, or what a name means in them, with a text between them. -/
def joined (s : Setting) (separator : Value) (name : Option Value) (v : Value) : Inquiry Value := do
  let elements ← Inquiry.elements v
  let elements ← match name with
    | some (.text name) => elements.mapM (followName s name)
    | _ => pure elements
  let texts ← elements.mapM Generic.plainText
  return .text (String.intercalate (← Generic.plainText separator) texts)

def apply (s : Setting) (f : Filter) (v : Value) (args : List Value) (named : Table Value) :
    Inquiry Value := do
  match f with
  | parameters =>
    match ← assign ["filter", "spaces"] args named with
    | [filter, spaces] =>
      let show1 ← chosen s .parameterType filter
      let separator := if ← truth true spaces then ", " else ","
      return .text (← Cpp.joinTexts separator (← (← Cpp.arguments v).mapM show1))
    | _ => return .null
  | signature =>
    match ← assign ["expand", "filter"] args named with
    | [expand, filter] =>
      let show1 ← chosen s .returnType filter
      let arguments ← Cpp.arguments v
      if ← truth false expand then
        let texts ← arguments.mapM fun a => do
          return (← Generic.plainText (← show1 a)) ++ " " ++ (← Cpp.nameText a)
        return .text (String.intercalate ", " texts)
      return .text (← Cpp.joinTexts "," (← arguments.mapM show1))
    | _ => return .null
  | hash =>
    let algorithm := (← assign ["hash_type"] args named).head?.join
    return .text (← Generic.digest v (algorithm.getD (.text "sha1")))
  | first =>
    let _ ← assign [] args named
    match ← Inquiry.elements v with
    | x :: _ => return x
    | [] => return .undefined { message := "No first item, sequence was empty.", strict := s.strict }
  | join =>
    match ← assign ["d", "attribute"] args named with
    | [separator, name] => joined s (separator.getD (.text "")) name v
    | _ => return .null
  | attr =>
    match ← assign ["name"] args named with
    | [some name] =>
      let name ← Generic.plainText name
      match ← Inquiry.attempt (Inquiry.attributeOf v name) with
      | .ok x => return x
      | .error (.missingAttribute _ _) => Inquiry.undefinedAttribute s.strict v name
      | .error e => throw e
    | _ => throw (.wrongType "missing argument")
  | f =>
    let _ ← assign [] args named
    f.applyPlain v

end Filter

end InterfaceKit
