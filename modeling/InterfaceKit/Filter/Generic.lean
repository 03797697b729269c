import InterfaceKit.Digest
import InterfaceKit.Model.Export
import InterfaceKit.Workspace.Attribute

/-!
# General filters

Texts made of any value: documents, names in upper and lower case, digests, paths and identifiers.
-/
namespace InterfaceKit.Generic
open Data Model

/-- A value as a text; an undefined value that must not be printed is a fault. -/
def plainText (v : Value) : Inquiry String := do
  match v with
  | .undefined u => if u.strict then throw (.undefined u.message .engine) else return ""
  | v => Inquiry.text v

/-- Applies `f` to the first character. A text without one has no such form. -/
def mapFirst (f : Char → List Char) (text : String) : Inquiry String :=
  match text.toList with
  | c :: cs => return String.ofList (f c ++ cs)
  | [] => throw (.outOfRange "string index out of range")

def upperFirst (v : Value) : Inquiry String := do mapFirst Text.upperChar (← plainText v)

def lowerFirst (v : Value) : Inquiry String := do mapFirst (fun c => Text.lower [c]) (← plainText v)

def toJson (v : Value) : Inquiry String := do
  match v with
  | .entity n e => return ((← Inquiry.system n).entityToJson e).render
  | .type n t => return ((← Inquiry.system n).typeToJson t).render
  | .undefined u => throw (.undefined u.message .engine)
  | v => return (← Inquiry.ask (·.toJson v)).render

def digest (v algorithm : Value) : Inquiry String := do
  match algorithm with
  | .text name =>
    match Digest.Algorithm.ofName? name with
    | some a => return Digest.hexText (a.digest (Text.utf8Encode (← plainText v).toList))
    | none => throw (.invalidValue ("unsupported hash type " ++ name))
  | _ => throw (.wrongType "name must be a string")

def pathOf (v : Value) : Inquiry String := do
  return String.ofList (Text.replaceChar '.' '/' (← plainText v).toList)

def identifier (v : Value) : Inquiry String := do
  return String.ofList (Text.replaceChar '.' '_' (Text.lower (← plainText v).toList))

/-- A comment taken apart. An empty value holds none. -/
def readComment (v : Value) : Inquiry Value := do
  if !(← Inquiry.store).isTrue v then return .null
  match v with
  | .text t =>
    let (c, log) := Doc.Comment.parse Doc.keepInline t
    Inquiry.printAll log
    return (c.map .comment).getD .null
  | v =>
    let name := (← Inquiry.store).className v
    if name = "list" || name = "tuple" then throw (.missingAttribute name "splitlines")
    else throw (.wrongType ("'" ++ name ++ "' object is not subscriptable"))

end InterfaceKit.Generic
