import InterfaceKit.Template.Library
import InterfaceKit.Template.Render

/-!
# Generators

A generator writes out templates with bindings of its own. Templates are looked for in its folders
and then in the library. Names of templates are completed by a source, names of documents by a path
and a destination.
-/
namespace InterfaceKit
open Data Model Files

/-- What is to be written out: a text, or the template of a name, with bindings. -/
inductive Script where
  | text (t : String) (bindings : Table Value)
  | named (name : String) (bindings : Table Value)
  deriving DecidableEq, Repr

/-- Writes a script out as the templates of this library are. -/
def Script.writtenOut (e : Template.Engine) : Script → Inquiry String
  | text t bindings => Template.renderText e t bindings
  | named name bindings => Template.renderNamed e name bindings

structure Generator where
  /-- The folders that are searched for templates. -/
  folders : List String
  /-- The mapping that holds the bindings. -/
  bindings : Value
  destination : Value := .path .here
  path : Path := .here
  source : Value := .text ""
  /-- Documents are written even if they are to be preserved or hold the same already. -/
  force : Bool := false
  /-- What is asked for by conditions; only generators that follow rules have it. -/
  features : Option (List Value) := none
  /-- Whether undefined values are faults when they are printed. -/
  strict : Bool := false
  filters : Table Filter := Filter.initial
  /-- How templates are written out. Nothing else depends on the language that they are in. -/
  writer : Template.Engine → Script → Inquiry String := Script.writtenOut
  deriving Inhabited

structure Run where
  generator : Generator
  workspace : Workspace
  deriving Inhabited

/-- What a generator does; like other operations it leaves its changes when it fails. -/
abbrev Generate := ExceptT Failure (StateM Run)

instance : MonadLift Act Generate where
  monadLift x := fun r =>
    let (a, workspace) := x.run r.workspace
    (a, { r with workspace })

def Data.textEntries (entries : List (Value × Value)) : Table Value :=
  entries.filterMap fun (k, v) => match k with
    | .text name => some (name, v)
    | _ => none

def Data.Store.bindings (s : Store) (mapping : Value) : Table Value :=
  ((s.mapping? mapping).map fun (_, entries) => textEntries entries).getD []

/-- A text template's own name for files of a folder: the folder, a slash unless it ends in one, the
pieces. -/
def templateFile (folder : String) (pieces : List String) : String :=
  pieces.foldl (fun base piece =>
    if base = "" || base.endsWith "/" then base ++ piece else base ++ "/" ++ piece) folder

/-- The pieces of a template's name; one that leads back finds nothing. -/
def templatePieces (name : String) : Option (List String) :=
  let pieces := (Text.splitAt '/' name.toList).map String.ofList
  if pieces.contains ".." then none else some (pieces.filter fun s => s ≠ "" && s ≠ ".")

namespace Generator

/-- Finds a template in the folders, else in the library. -/
def find (g : Generator) (name : String) : Inquiry (Option Template.Source) := do
  match templatePieces name with
  | none => return none
  | some pieces =>
    for folder in g.folders do
      let file := templateFile folder pieces
      if ← Inquiry.isFile (.ofString file) then
        return some { file, text := String.ofList (← Inquiry.readText (.ofString file)) }
    if String.intercalate "/" pieces = Template.cppLibraryName then
      return some { file := name, text := Template.cppLibrary }
    return none

def engine (g : Generator) : Template.Engine :=
  { filters := g.filters, strict := g.strict, find := g.find }

end Generator

namespace Inquiry

def pairOf (v : Value) : Inquiry (Value × Value) := do
  match ← attempt (elements v) with
  | .ok [key, value] => return (key, value)
  | .ok _ =>
    throw (.invalidValue "dictionary update sequence element has the wrong length; 2 is required")
  | .error _ => throw (.wrongType "cannot convert dictionary update sequence element to a sequence")

def bindings (mapping : Value) : Inquiry (Table Value) := do return (← store).bindings mapping

end Inquiry

namespace Act

export Inquiry (bindings)

/-- Adds to a mapping what another mapping, or a row of pairs, holds. -/
def update (target extra : Value) : Act Unit := do
  match (← store).mapping? extra with
  | some (_, entries) => for (key, value) in entries do setItem target key value
  | none =>
    for v in ← elements extra do
      let (key, value) ← Inquiry.pairOf v
      setItem target key value

end Act

namespace Generate

def generator : Generate Generator := do return (← getThe Run).generator

def modifyGenerator (f : Generator → Generator) : Generate Unit :=
  modifyThe Run fun r => { r with generator := f r.generator }

def attempt {α : Type} (x : Generate α) : Generate (Except Failure α) := fun r =>
  match x.run r with
  | (a, r) => (.ok a, r)

def writeOut (script : Script) : Generate String := do
  let g ← generator
  g.writer g.engine script

/-- A text with the bindings of a mapping, to which the generator's own ones are added. -/
def textScript (mapping template : Value) : Generate Script := do
  Act.update mapping (← generator).bindings
  match template with
  | .text t => return .text t (← Act.bindings mapping)
  | _ => throw (.wrongType "Can't compile non template nodes")

/-- Writes out a text with a mapping to which the generator's own bindings are added. -/
def applyWith (mapping template : Value) : Generate String := do
  writeOut (← textScript mapping template)

def apply (template : Value) : Generate String := do
  applyWith (← get).shared.texts template

/-- The name of a template: a slash in front starts anew, else the source comes first. -/
def templateName (name : Value) : Generate String := do
  match name with
  | .text s =>
    if s.startsWith "/" then return String.ofList (s.toList.drop 1)
    match (← generator).source with
    | .null => return s
    | .text source => return source ++ "/" ++ s
    | _ => throw (.wrongType "sequence item 0: expected str instance")
  | _ => throw (.wrongType "object is not subscriptable")

/-- The template of a name with the bindings of a mapping. From here on the generator is as strict
as is asked for. -/
def namedScript (name mapping : Value) : Generate Script := do
  let strict := (← get).strictTemplates
  modifyGenerator fun g => { g with strict }
  return .named (← templateName name) (← Act.bindings mapping)

def render (name mapping : Value) : Generate String := do
  writeOut (← namedScript name mapping)

/-- Sets the path; what is empty leaves it as it is. -/
def setPath (path : Value) : Generate Unit := do
  if (← get).store.isTrue path then
    let path := Path.ofString (← apply path)
    modifyGenerator fun g => { g with path }

/-- Sets the source; what is empty leaves it as it is. -/
def setSource (source : Value) : Generate Unit := do
  if (← get).store.isTrue source then modifyGenerator fun g => { g with source }

def setDestination (destination : Value) : Generate Unit :=
  modifyGenerator fun g => { g with destination }

def pathOf (v : Value) : Generate Path :=
  match v with
  | .path p => return p
  | .text s => return .ofString s
  | _ => throw (.wrongType "expected str, bytes or os.PathLike object")

def resolvedPath : Generate Path := do
  let g ← generator
  return (← pathOf g.destination).join g.path

end Generate

end InterfaceKit
