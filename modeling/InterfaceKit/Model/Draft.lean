import InterfaceKit.Grammar.Tree
import InterfaceKit.Model.System
import InterfaceKit.Text.Escape
import InterfaceKit.Yaml.Document

/-!
# Modules from documents

A walk through the tree of a document reads the module that it describes. The walk goes from left to
right and handles each rule twice, when it enters and when it leaves a node. What the handlers tell
each other goes through the focus: the symbols that are being read at the time. A declaration that
repeats a name takes the place of the earlier one. When a value cannot be read the draft holds what
came before it.
-/
namespace InterfaceKit.Model
open Data Grammar Lexical

/-- Why a walk ends early: a value cannot be read, or a handler misses the symbol that it works
on. -/
inductive Obstacle where
  | failed (cause : Failure)
  | noModule
  | noInterface
  | noStruct
  | noEnum
  | noOwner
  | noParameter
  | noField
  deriving DecidableEq, Repr

def Obstacle.failure : Obstacle → Failure
  | failed cause => cause
  | noModule | noInterface | noStruct | noEnum => .assertion
  | noOwner => .missingAttribute "NoneType" "module"
  | noParameter | noField => .missingAttribute "NoneType" "type"

/-- What has parameters: an operation or a signal of an interface. -/
inductive Callable where
  | operation (i o : String)
  | signal (i s : String)
  deriving DecidableEq, Repr

namespace Callable

def parameter : Callable → String → Place
  | operation i o => .operationParameter i o
  | signal i s => .signalParameter i s

def enter (n : String) (make : Common → Common) (m : Module) : Callable → Module
  | operation i o => m.modifyOperation i o fun x =>
    { x with parameters := x.parameters.set n { common := make x.common } }
  | signal i s => m.modifySignal i s fun x =>
    { x with parameters := x.parameters.set n { common := make x.common } }

end Callable

/-- The symbols that are being read. The fields of structures and the members of enumerations share
a place. -/
structure Focus where
  interface : Option String := none
  struct : Option String := none
  enum : Option String := none
  /-- The number of the next member of an enumeration that has none of its own. -/
  counter : Nat := 0
  operation : Option Callable := none
  signal : Option Callable := none
  parameter : Option Place := none
  field : Option Place := none
  deriving DecidableEq, Repr, Inhabited

structure Draft where
  /-- The number that the module will have. -/
  number : Nat
  module : Option Module := none
  focus : Focus := {}
  store : Store
  log : Log := []
  deriving Inhabited

abbrev Drafting := ExceptT Obstacle (StateM Draft)

/-- The number that an integer of the language means: decimal with an optional sign, or hexadecimal.
A decimal number other than zero must not start with a zero. -/
def integerValue (text : String) : Except Failure Int :=
  let (negative, cs) := Yaml.Plain.splitSign text.toList
  let magnitude : Except Failure Nat := match cs with
    | '0' :: x :: digits =>
      if x = 'x' || x = 'X' then Yaml.Plain.numeral 16 digits
      else if cs.all (· = '0') then Yaml.Plain.decimalNumeral cs
      else Yaml.Plain.bad
    | cs => Yaml.Plain.decimalNumeral cs
  magnitude.map fun n => if negative then -(n : Int) else n

namespace Draft

/-- The layers of the type that a tree describes, from the outside in. -/
def layers : Nat → Tree → List Layer
  | 0, _ => []
  | fuel + 1, t =>
    match t.children with
    | kind :: _ =>
      let name := (kind.tokens.head?.map (·.text)).getD ""
      let inner := ((kind.node? .type).map (layers fuel)).getD []
      match kind.rule? with
      | some .primitiveType => [.primitive name]
      | some .complexType => [.complex name]
      | some .listType => .list :: inner
      | some .mapType => .map :: inner
      | some .modelType => .model :: inner
      | _ => []
    | [] => []

/-- The type that a declaration gives; none at all means `void`. -/
def typeOf (t : Tree) : TypeExpr :=
  match t.node? .type with
  | some x => .ofLayers (layers x.depth x)
  | none => { outer := .void }

/-- Whether a module can know what a layer names: primitive types, its own and those of imported
modules. -/
def isKnown (m : Module) (l : Layer) : Bool :=
  l.isPrimitive || (match (splitName l.name).module with
    | some name => name = "" || m.imports.has name
    | none => true)

end Draft

namespace Drafting
open Draft

def fresh (name : String) : Drafting Common := do
  let d ← get
  let (i, store) := d.store.alloc (.map [])
  set { d with store }
  return { name, tags := .ref i }

def edit (f : Module → Module) : Drafting Unit :=
  modify fun d => { d with module := d.module.map f }

def turn (f : Focus → Focus) : Drafting Unit := modify fun d => { d with focus := f d.focus }

/-- What must be there at this point of a walk. -/
def need {α : Type} (o : Obstacle) : Option α → Drafting α
  | some a => return a
  | none => throw o

def print (s : Stream) (text : String) : Drafting Unit :=
  modify fun d => { d with log := d.log ++ Log.line s text }

def readComment (p : Place) (t : Tree) : Drafting Unit :=
  match t.token? .docComment with
  | some c => edit (·.modifyCommon p fun x => { x with comment := c.text })
  | none => pure ()

/-- Reads the tag lines before a declaration. They are one document; if it is malformed the symbol
has no tags. -/
def readTags [Yaml.Readers] (p : Place) (t : Tree) : Drafting Unit := do
  let lines := (t.nodesOfRule .tag).map fun l => l.text.toList.drop 1
  if lines.isEmpty then return
  if (t.nodesOfRule .tag).any (·.hasSurrogate) then throw (.failed .unencodable)
  match Yaml.load Yaml.Readers.tags (← get).store (['\n'].intercalate lines) with
  | .ok (tags, store) =>
    modify fun d => { d with store }
    edit (·.modifyCommon p fun x => { x with tags })
  | .error (.failed e) => throw (.failed e)
  | .error problem => print .out problem.message

def annotate [Yaml.Readers] (p : Place) (t : Tree) : Drafting Unit := do
  readComment p t
  readTags p t

def checkKnown (l : Layer) : Drafting Unit := do
  if !(← get).module.all (isKnown · l) then
    print .warning ("Unknown type: " ++ l.name ++ ". Missing import?")

def giveType (p : Place) (t : Tree) : Drafting Unit := do
  edit (·.modifyCommon p fun x => x.withType (typeOf t))
  (typeOf t).layers.reverse.forM checkKnown

/-- The default value that a declaration gives, without its quotes and escapes. -/
def defaultValue (t : Tree) : Drafting (Option String) :=
  match t.token? .string with
  | none => return none
  | some v =>
    if v.hasSurrogate then throw (.failed .unencodable)
    else
      match Text.Escape.decodeText ((v.text.toList.drop 1).dropLast) with
      | .ok codes => return some (String.ofList (codes.map Char.ofNat))
      | .error _ => throw (.failed .badEscape)

def textOf (t : Tree) (k : Kind) : String := ((t.token? k).map (·.text)).getD ""

def nameOf (t : Tree) : String := textOf t .identifier

/-! ## Handlers -/

def enterModule [Yaml.Readers] (t : Tree) : Drafting Unit := do
  let common ← fresh (nameOf t)
  modify fun d => { d with module := some {
    common := { common with origin := .root d.number }, version := textOf t .version } }
  annotate .module t

def enterImport (t : Tree) : Drafting Unit := do
  let _ ← need .noModule (← get).module
  let name := nameOf t
  edit fun m => { m with imports := m.imports.set name (name ++ " " ++ textOf t .version) }

def enterInterface [Yaml.Readers] (t : Tree) : Drafting Unit := do
  let _ ← need .noModule (← get).module
  let common ← fresh (nameOf t)
  let i := common.name
  edit fun m => { m with
    interfaces := m.interfaces.set i { common := common.inside m.common (.interface i) } }
  turn fun f => { f with interface := some i }
  annotate (.interface i) t
  let base := ((t.tokensOfKind .identifier)[1]?).map (·.text)
  edit (·.modifyInterface i fun x => { x with base })

def enterStruct [Yaml.Readers] (t : Tree) : Drafting Unit := do
  let _ ← need .noModule (← get).module
  let common ← fresh (nameOf t)
  let s := common.name
  edit fun m =>
    { m with structs := m.structs.set s { common := common.inside m.common (.struct s) } }
  turn fun f => { f with struct := some s }
  annotate (.struct s) t

def enterEnum [Yaml.Readers] (t : Tree) : Drafting Unit := do
  let _ ← need .noModule (← get).module
  let common ← fresh (nameOf t)
  let e := common.name
  edit fun m => { m with enums := m.enums.set e { common := common.inside m.common (.enum e) } }
  turn fun f => { f with enum := some e }
  annotate (.enum e) t

/-- The members of a flag count from one, and by doubling. -/
def enterEnumKind (t : Tree) : Drafting Unit := do
  let e ← need .noEnum (← get).focus.enum
  turn fun f => { f with counter := 0 }
  if (t.token? .flagWord).isSome then
    edit (·.modifyEnum e fun x => { x with isEnum := false, isFlag := true })
    turn fun f => { f with counter := 1 }

def enterOperation [Yaml.Readers] (t : Tree) : Drafting Unit := do
  let i ← need .noInterface (← get).focus.interface
  let common ← fresh (nameOf t)
  let o := common.name
  let isConst := (t.node? .operationModifier).isSome
  edit (·.modifyInterface i fun x => { x with
    operations :=
      x.operations.set o { common := common.inside x.common (.operation i o), isConst } })
  turn fun f => { f with operation := some (.operation i o) }
  annotate (.operation i o) t
  giveType (.operation i o) t

def enterSignal [Yaml.Readers] (t : Tree) : Drafting Unit := do
  let i ← need .noInterface (← get).focus.interface
  let common ← fresh (nameOf t)
  let s := common.name
  edit (·.modifyInterface i fun x => { x with
    signals := x.signals.set s { common := common.inside x.common (.signal i s) } })
  turn fun f => { f with signal := some (.signal i s) }
  annotate (.signal i s) t

/-- A parameter belongs to the operation that is being read, or else to the signal. -/
def enterParameter (t : Tree) : Drafting Unit := do
  let focus := (← get).focus
  let owner ← need .noOwner (focus.operation <|> focus.signal)
  let common ← fresh (nameOf t)
  let n := common.name
  edit fun m => owner.enter n (common.inside · (owner.parameter n)) m
  turn fun f => { f with parameter := some (owner.parameter n) }

def exitParameter (t : Tree) : Drafting Unit := do
  giveType (← need .noParameter (← get).focus.parameter) t

def enterProperty [Yaml.Readers] (t : Tree) : Drafting Unit := do
  let i ← need .noInterface (← get).focus.interface
  let common ← fresh (nameOf t)
  let p := common.name
  let has (k : Kind) := ((t.node? .propertyModifier).bind (·.token? k)).isSome
  let readonly := has .readonlyWord
  let const := has .constWord
  edit (·.modifyInterface i fun x => { x with
    properties := x.properties.set p
      { common := common.inside x.common (.property i p), readonly, const } })
  annotate (.property i p) t
  giveType (.property i p) t
  let value ← defaultValue t
  edit (·.modifyProperty i p fun x => { x with value })

def enterField [Yaml.Readers] (t : Tree) : Drafting Unit := do
  let s ← need .noStruct (← get).focus.struct
  let common ← fresh (nameOf t)
  let n := common.name
  edit (·.modifyStruct s fun x => { x with
    fields := x.fields.set n { common := common.inside x.common (.field s n) } })
  turn fun f => { f with field := some (.field s n) }
  annotate (.field s n) t
  let value ← defaultValue t
  edit (·.modifyField s n fun x => { x with value })

def exitField (t : Tree) : Drafting Unit := do
  giveType (← need .noField (← get).focus.field) t
  turn fun f => { f with field := none }

def memberNumber (t : Tree) : Drafting Int := do
  match t.node? .integer with
  | some i =>
    match integerValue i.text with
    | .ok v => return v
    | .error e => throw (.failed e)
  | none => return (← get).focus.counter

def enterMember [Yaml.Readers] (t : Tree) : Drafting Unit := do
  let e ← need .noEnum (← get).focus.enum
  let common ← fresh (nameOf t)
  let n := common.name
  edit (·.modifyEnum e fun x => { x with
    members := x.members.set n { common := common.inside x.common (.member e n) } })
  turn fun f => { f with field := some (.member e n) }
  let value ← memberNumber t
  edit (·.modifyMember e n fun x => { x with value })
  annotate (.member e n) t
  let flag := ((← get).module.bind (·.enums.get? e)).any (·.isFlag)
  turn fun f => { f with counter := if flag then 2 * f.counter else f.counter + 1 }

def enter [Yaml.Readers] : Rule → Tree → Drafting Unit
  | .moduleHead => enterModule
  | .importLine => enterImport
  | .interface => enterInterface
  | .struct => enterStruct
  | .enum => enterEnum
  | .enumKind => enterEnumKind
  | .operation => enterOperation
  | .signal => enterSignal
  | .parameter => enterParameter
  | .property => enterProperty
  | .structField => enterField
  | .enumMember => enterMember
  | _ => fun _ => pure ()

def exit : Rule → Tree → Drafting Unit
  | .interface => fun _ => turn fun f => { f with interface := none }
  | .struct => fun _ => turn fun f => { f with struct := none }
  | .enum => fun _ => turn fun f => { f with enum := none, counter := 0 }
  | .operation => fun _ => turn fun f => { f with operation := none }
  | .signal => fun _ => turn fun f => { f with signal := none }
  | .parameter => exitParameter
  | .structField => exitField
  | .enumMember => fun _ => turn fun f => { f with field := none }
  | _ => fun _ => pure ()

mutual
def walk [Yaml.Readers] : Tree → Drafting Unit
  | .leaf _ => pure ()
  | .node r children => do
    enter r (.node r children)
    walkAll children
    exit r (.node r children)

def walkAll [Yaml.Readers] : List Tree → Drafting Unit
  | [] => pure ()
  | t :: ts => do
    walk t
    walkAll ts
end

end Drafting

/-- Reads the module of a document, which gets a number; the draft is what had been read when
reading ended. -/
def Draft.ofDocument [Yaml.Readers] (number : Nat) (t : Tree) (store : Store) :
    Except Obstacle Unit × Draft :=
  (Drafting.walk t).run { number, store }

end InterfaceKit.Model
