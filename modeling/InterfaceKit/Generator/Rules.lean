import InterfaceKit.Documents
import InterfaceKit.Generator.Output

/-!
# Rules

A rule document has targets. A target has rules for the kinds of symbols, and a rule lists the
documents that are written for each symbol of its kind. Targets and rules may ask for features, add
bindings, and set the path and the source. The walk is the same whatever writing means, so that it
can be watched.
-/
namespace InterfaceKit
open Data Model Files

/-- A symbol on the walk through a system, with the kind of rule that applies to it. -/
structure Visit where
  kind : String
  symbol : Value
  deriving DecidableEq, Repr

/-- The symbols that rules apply to: the system, then each module with its interfaces, structures
and enumerations. -/
def Workspace.visits (w : Workspace) (n : Nat) : List Visit :=
  let each (kind : String) (owner : Entity) (part : Section) : List Visit :=
    (w.symbolsIn n owner part).map fun h => { kind, symbol := .entity n (.symbol h) }
  { kind := "system", symbol := .entity n .system } ::
    (w.symbolsIn n .system .modules).flatMap fun m =>
      { kind := "module", symbol := .entity n (.symbol m) } ::
        (each "interface" (.symbol m) .interfaces ++ each "struct" (.symbol m) .structs
          ++ each "enum" (.symbol m) .enums)

/-- The features of which one is asked for: those of a list, or a single one. -/
def Data.Store.conditions (s : Store) : Value → List Value
  | .ref i =>
    match s.get? i with
    | some (.list xs) => xs
    | _ => [.ref i]
  | v => [v]

namespace Generate

def given? (rule : Value) (name : String) : Generate (Option Value) := do
  let store := (← get).store
  match store.mapping? rule with
  | some (_, entries) => return store.findEntry entries (.text name)
  | none => throw (.missingAttribute (store.className rule) "get")

/-- Whether a target or rule applies: it asks for nothing, or for some feature that is there. -/
def applies (rule : Value) : Generate Bool := do
  let asked := (← given? rule "when").getD .null
  let store := (← get).store
  if !store.isTrue asked then return true
  let conditions := store.conditions asked
  for c in conditions do Act.lift (store.requireHashable c)
  let features := ((← generator).features).getD []
  return features.any fun f => conditions.any (store.equal f)

def bind (extra : Value) : Generate Unit := do Act.update (← generator).bindings extra

def bindOne (name : String) (v : Value) : Generate Unit := do
  Act.setItem (← generator).bindings (.text name) v

def bindContext (rule : Value) : Generate Unit := do
  match ← given? rule "context" with
  | some extra => bind extra
  | none => pure ()

/-- What targets and rules both set: bindings, path and source. -/
def enter (rule : Value) : Generate Unit := do
  bindContext rule
  setPath ((← given? rule "path").getD .null)
  setSource ((← given? rule "source").getD .null)

/-- The name and the template that an entry of a rule gives: one entry of a mapping, or itself for
both. -/
def documentOf (entry : Value) : Generate (Value × Value) := do
  match (← get).store.mapping? entry with
  | some (_, first :: _) => return first
  | some (_, []) => throw .exhausted
  | none => return (entry, entry)

def listed (rule : Value) (name : String) : Generate (List Value) := do
  match ← given? rule name with
  | some v => Inquiry.ask (·.elements v)
  | none => return []

/-- What is done on a walk: what a target, or a rule for a symbol, sets is entered, and documents
are written. -/
structure Follower (m : Type → Type) where
  enter : Option Visit → Value → m Unit
  write : Visit → Request → m Unit

section
variable {m : Type → Type} [Monad m] [MonadLiftT Generate m]

def writeListed (write : Request → m Unit) (rule : Value) (name : String) (preserve : Bool) :
    m Unit := do
  for entry in ← (listed rule name : Generate _) do
    let (target, template) ← (documentOf entry : Generate _)
    write { target, template, preserve }

def isFollowed (rule : Value) : Generate Bool := do
  if !(← get).store.isTrue rule then return false
  applies rule

def followRule (f : Follower m) (rule : Value) (v : Visit) : m Unit := do
  if ← (isFollowed rule : Generate Bool) then
    (bindOne v.kind v.symbol : Generate Unit)
    f.enter (some v) rule
    writeListed (f.write v) rule "documents" false
    writeListed (f.write v) rule "preserve" true

/-- Forgets the source, and tells whether a target applies. -/
def openTarget (rules : Value) : Generate Bool := do
  modifyGenerator fun g => { g with source := .null }
  applies rules

def followTarget (f : Follower m) (rules : Value) (n : Nat) : m Unit := do
  if ← (openTarget rules : Generate Bool) then
    f.enter none rules
    for v in (← (get : Generate Workspace)).visits n do
      let rule ← (given? rules v.kind : Generate _)
      followRule f (rule.getD .null) v

def targetsOf (document : Value) : Generate (List (Value × Value)) := do
  let store := (← get).store
  match store.mapping? document with
  | some (_, entries) => return entries
  | none => throw (.missingAttribute (store.className document) "items")

def announce (name : Value) : Generate Unit := do Act.print .out ("process: " ++ (← Act.text name))

def followDocument (f : Follower m) (document : Value) (n : Nat) : m Unit := do
  for (name, rules) in ← (targetsOf document : Generate _) do
    (announce name : Generate Unit)
    followTarget f rules n

end

/-- The way in which rules are followed to generate documents. -/
def Follower.plain : Follower Generate where
  enter _ := Generate.enter
  write _ := Generate.write

def openRules [Yaml.Readers] (path : Path) (n : Nat) : Generate Value := do
  if (← generator).features.isNone then throw (.missingAttribute "Generator" "process_rules")
  bindOne "system" (.entity n .system)
  Act.loadYaml path true

def processRules [Yaml.Readers] (path : Path) (n : Nat) : Generate Unit := do
  followDocument .plain (← openRules path n) n

end Generate

def projectName (destination : Value) : String :=
  match destination with
  | .path p => p.name
  | .text s => (Path.ofString s).name
  | _ => ""

/-- A generator that follows rules; its bindings tell the destination, the project and the
features. -/
def Act.ruleGenerator (folders : List String) (destination bindings : Value) (features : List Value)
    (force : Bool) : Act Generator := do
  let features := features.eraseDups
  let featureSet ← alloc (.set features)
  setItem bindings (.text "dst") destination
  setItem bindings (.text "project") (.text (projectName destination))
  setItem bindings (.text "features") featureSet
  return { folders, bindings, destination, force, features := some features }

end InterfaceKit
