import InterfaceKit.Data.Merge
import InterfaceKit.Model.System

/-!
# Tags

The tags of a symbol are a value, in most cases a mapping of tag names to mappings of attributes.
Whatever it is, the operations apply to it as to any value.
-/
namespace InterfaceKit.Model
open Data

/-- Enters a tag without attributes, unless it is there. -/
def addTag (s : Store) (tags tag : Value) : Changed Unit :=
  match s.contains tags tag with
  | .error e => (.error e, s)
  | .ok true => (.ok (), s)
  | .ok false =>
    let (i, s) := s.alloc (.map [])
    match s.setItem tags tag (.ref i) with
    | .ok s => (.ok (), s)
    | .error e => (.error e, s)

/-- Sets an attribute of a tag, which is entered before if it is not there. -/
def addAttribute (s : Store) (tags tag name value : Value) : Changed Unit :=
  match addTag s tags tag with
  | (.error e, s) => (.error e, s)
  | (.ok (), s) =>
    match s.getItem tags tag with
    | .error e => (.error e, s)
    | .ok attributes =>
      match s.setItem attributes name value with
      | .ok s => (.ok (), s)
      | .error e => (.error e, s)

/-- The attribute of a tag; nothing if the tag or the attribute is not there. -/
def tagAttribute (s : Store) (tags tag name : Value) : Except Failure Value := do
  if ← s.contains tags tag then
    if ← s.contains (← s.getItem tags tag) name then
      return ← s.getItem (← s.getItem tags tag) name
  return .null

namespace Module

def mapCommon (f : Common → Common) (m : Module) : Module :=
  let parameters (t : Table Parameter) : Table Parameter :=
    t.map fun (n, x) => (n, { x with common := f x.common })
  { m with
    common := f m.common
    interfaces := m.interfaces.map fun (n, x) => (n, { x with
      common := f x.common
      properties := x.properties.map fun (n, y) => (n, { y with common := f y.common })
      operations := x.operations.map fun (n, y) =>
        (n, { y with common := f y.common, parameters := parameters y.parameters })
      signals := x.signals.map fun (n, y) =>
        (n, { y with common := f y.common, parameters := parameters y.parameters }) })
    structs := m.structs.map fun (n, x) => (n, { x with
      common := f x.common
      fields := x.fields.map fun (n, y) => (n, { y with common := f y.common }) })
    enums := m.enums.map fun (n, x) => (n, { x with
      common := f x.common
      members := x.members.map fun (n, y) => (n, { y with common := f y.common }) }) }

end Module

namespace System

def mapTags (f : Value → Value) (s : System) : System :=
  { s with
    tags := f s.tags
    archive := s.archive.map (·.mapCommon fun c => { c with tags := f c.tags }) }

def tagsOf (s : System) : Entity → Value
  | .system => s.tags
  | .symbol h => ((s.common? h).map (·.tags)).getD .null

end System

end InterfaceKit.Model
