import InterfaceKit.Model.Module

/-!
# Systems

A system knows its modules by name. Reading a module again replaces it, while types that were
resolved before go on referring to the old one; so every module that was ever read is kept, and a
number tells which is meant.
-/
namespace InterfaceKit.Model
open Data

structure System where
  tags : Value := .null
  archive : List Module := []
  directory : Table Nat := []
  deriving DecidableEq, Repr, Inhabited

/-- A name in its three parts: the module before the last dot, the type, and the fragment behind the
last number sign. -/
structure NameParts where
  module : Option String
  type : String
  fragment : Option String
  deriving DecidableEq, Repr, Inhabited

def splitName (name : String) : NameParts :=
  let (rest, fragment) := match Text.splitLast? '#' name.toList with
    | some (before, behind) => (before, some (String.ofList behind))
    | none => (name.toList, none)
  match Text.splitLast? '.' rest with
  | some (before, behind) => ⟨some (String.ofList before), String.ofList behind, fragment⟩
  | none => ⟨none, String.ofList rest, fragment⟩

namespace System

def module? (s : System) (id : Nat) : Option Module := s.archive[id]?

def moduleNamed? (s : System) (name : String) : Option Nat := s.directory.get? name

/-- Adds a module, replacing one of the same name. -/
def register (s : System) (m : Module) : Nat × System :=
  let id := s.archive.length
  (id, { s with archive := s.archive ++ [m], directory := s.directory.set m.name id })

def modifyModule (s : System) (id : Nat) (f : Module → Module) : System :=
  { s with archive := s.archive.modify id f }

def modules (s : System) : List Nat := s.directory.values

/-- A name that stands for itself: a module, or the system. -/
def lookupPlain (s : System) (name : String) : Except Failure Entity :=
  match s.moduleNamed? name with
  | some id => .ok (.symbol ⟨id, .module⟩)
  | none => if name = "system" then .ok .system else .error (.unknownName name)

/-- The symbol of that name in a module, or the part of it that a fragment names. -/
def localSymbol? (s : System) (id : Nat) (name : String) (fragment : Option String) :
    Option (Except Failure Entity) :=
  match s.module? id with
  | none => none
  | some m =>
    match m.content? .module name, fragment.getD "" with
    | none, _ => none
    | some p, "" => some (.ok (.symbol ⟨id, p⟩))
    | some p, f =>
      match m.content? p f with
      | some q => some (.ok (.symbol ⟨id, q⟩))
      | none => some (.error (.missingKey (some f) (Text.quoted f)))

def lookup (s : System) (name : String) : Except Failure Entity :=
  match s.lookupPlain name with
  | .ok e => .ok e
  | .error e =>
    let parts := splitName name
    match parts.module.bind s.moduleNamed? with
    | none => .error e
    | some id =>
      match s.localSymbol? id parts.type parts.fragment with
      | some found => found
      | none => s.lookupPlain parts.type

/-- Finds a symbol as seen from a module: its own symbols first. -/
def lookupFrom (s : System) (id : Nat) (name : String) (fragment : Option String) :
    Except Failure Entity :=
  match s.localSymbol? id name fragment with
  | some found => found
  | none => s.lookup name

def common? (s : System) (h : Handle) : Option Common :=
  (s.module? h.module).bind (·.common? h.place)

/-- What the symbol at a handle was made with. Where there is none, what its module was made with
counts. -/
def originAt (s : System) (h : Handle) : Origin :=
  ((s.common? h).map (·.origin)).getD (.root h.module)

def modifyCommon (s : System) (h : Handle) (f : Common → Common) : System :=
  s.modifyModule h.module (·.modifyCommon h.place f)

def layer? (s : System) (t : TypeHandle) : Option Layer :=
  (s.common? t.owner).bind (·.type.layer? t.depth)

def modifyLayer (s : System) (t : TypeHandle) (f : Layer → Layer) : System :=
  s.modifyCommon t.owner fun c => { c with type := c.type.modify t.depth f }

def nested? (s : System) (t : TypeHandle) : Option TypeHandle :=
  let inner : TypeHandle := { t with depth := t.depth + 1 }
  if (s.layer? inner).isSome then some inner else none

/-- Resolves a type that has not been resolved: what it names is looked up from its module. The
attempt is noted before the name is looked up, so it is made once. A complex type that has a type
nested in it resolves that one. -/
def resolve (s : System) (t : TypeHandle) : Except Failure Unit × System :=
  let s := s.modifyLayer t fun l => { l with resolution.attempted := true }
  match s.layer? t with
  | none => (.ok (), s)
  | some l =>
    if l.isComplex then
      let target := (s.nested? t).getD t
      let name := ((s.layer? target).map (·.name)).getD ""
      match s.lookupFrom t.owner.module name none with
      | .ok e => (.ok (), s.modifyLayer target fun l => { l with resolution.target := some e })
      | .error e => (.error e, s)
    else (.ok (), s)

def reference (s : System) (t : TypeHandle) : Except Failure (Option Entity) × System :=
  let known (s : System) := (s.layer? t).bind (·.resolution.target)
  match s.layer? t with
  | none => (.ok none, s)
  | some l =>
    if l.resolution.attempted then (.ok (known s), s)
    else
      match s.resolve t with
      | (.ok (), s) => (.ok (known s), s)
      | (.error e, s) => (.error e, s)

/-- The symbol at a handle with all that it holds, each part after the whole: modules, then
interfaces with their properties, operations and signals, then structures, then enumerations. -/
def walkModule (m : Module) (id : Nat) : List Handle :=
  let at' (p : Place) : Handle := ⟨id, p⟩
  let part (p : Place) (x : Section) : List Place := (m.sectionOf p x).getD []
  at' .module :: ((part .module .interfaces).flatMap fun i =>
      i :: part i .properties
        ++ (part i .operations).flatMap (fun o => o :: part o .parameters)
        ++ (part i .signals).flatMap (fun g => g :: part g .parameters)).map at'
    ++ ((part .module .structs).flatMap fun x => x :: part x .fields).map at'
    ++ ((part .module .enums).flatMap fun x => x :: part x .members).map at'

def walk (s : System) : List Handle :=
  s.modules.flatMap fun id =>
    match s.module? id with
    | some m => walkModule m id
    | none => []

end System

end InterfaceKit.Model
