import InterfaceKit.Data.Merge
import InterfaceKit.Files.Tree
import InterfaceKit.Model.System
import InterfaceKit.Text.Utf8

/-!
# The workspace

All that operations read and change: the values, the systems, the files and what was printed. An
operation that fails leaves the changes that it made before.
-/
namespace InterfaceKit
open Data Model Files

/-- The bindings that are used by everyone who brings none: of template texts, of plain generators
and of rule generators. -/
structure SharedBindings where
  texts : Value := .null
  generators : Value := .null
  ruleGenerators : Value := .null
  deriving Repr, Inhabited

structure Workspace where
  store : Store := {}
  systems : List System := []
  files : Tree := {}
  /-- The folder that relative paths start from. -/
  folder : Path := {}
  log : Log := []
  /-- Faults of documents end the program. -/
  strictDocuments : Bool := false
  /-- Faults of templates end the program, and undefined values are faults. -/
  strictTemplates : Bool := false
  cppPrefix : String := ""
  qmlPrefix : String := ""
  /-- Systems that were set aside under a name. -/
  cache : Table System := []
  shared : SharedBindings := {}
  deriving Inhabited

def Workspace.nextModule (w : Workspace) (n : Nat) : Nat := (w.systems.getD n {}).archive.length

abbrev Act := ExceptT Failure (StateM Workspace)

namespace Act

def lift {α : Type} : Except Failure α → Act α
  | .ok a => return a
  | .error e => throw e

def attempt {α : Type} (x : Act α) : Act (Except Failure α) := fun w =>
  match x.run w with
  | (r, w) => (.ok r, w)

def print (s : Stream) (text : String) : Act Unit :=
  modify fun w => { w with log := w.log ++ Log.line s text }

def printAll (log : Log) : Act Unit := modify fun w => { w with log := w.log ++ log }

def store : Act Store := do return (← get).store

def ask {α : Type} (f : Store → Except Failure α) : Act α := do lift (f (← store))

def change {α : Type} (f : Store → Changed α) : Act α := do
  let w ← get
  let (r, store) := f w.store
  set { w with store }
  lift r

def alloc (c : Cell) : Act Value := do
  let w ← get
  let (i, store) := w.store.alloc c
  set { w with store }
  return .ref i

def newMap (entries : List (String × Value)) : Act Value :=
  alloc (.map (entries.map fun (k, v) => (.text k, v)))

def newList (items : List Value) : Act Value := alloc (.list items)

def shareBindings : Act Unit := do
  let texts ← newMap []
  let generators ← newMap []
  let ruleGenerators ← newMap []
  modify fun w => { w with shared := { texts, generators, ruleGenerators } }

def setItem (v key value : Value) : Act Unit := do
  let w ← get
  let store ← lift (w.store.setItem v key value)
  set { w with store }

def system (n : Nat) : Act System := do return (← get).systems.getD n {}

def modifySystem (n : Nat) (f : System → System) : Act Unit :=
  modify fun w => { w with systems := w.systems.modify n f }

/-- Asks a system something that it may note for later. -/
def consult {α : Type} (n : Nat) (f : System → Except Failure α × System) : Act α := do
  let (r, s) := f (← system n)
  modifySystem n fun _ => s
  lift r

def newSystem : Act Nat := do
  let tags ← newMap []
  let w ← get
  let s : System := { tags }
  set { w with systems := w.systems ++ [s] }
  return w.systems.length

def locate (p : Path) : Act (Option Location) := do
  let w ← get
  return w.files.locate w.folder p

def fileExists (p : Path) : Act Bool := do
  return ((← locate p).map (← get).files.exists?).getD false

def isFile (p : Path) : Act Bool := do
  return ((← locate p).map (← get).files.isFile).getD false

def isFolder (p : Path) : Act Bool := do
  return ((← locate p).map (← get).files.isFolder).getD false

def readBytes (p : Path) : Act (List UInt8) := do
  let w ← get
  match w.files.locate w.folder p with
  | none => throw (.fileNotFound p.toString)
  | some l =>
    match w.files.bytes? l with
    | some bytes => return bytes
    | none =>
      throw (if w.files.isFolder l then .isDirectory p.toString else .fileNotFound p.toString)

def readText (p : Path) : Act (List Char) := do
  match Text.utf8Decode? (← readBytes p) with
  | some cs => return cs
  | none => throw .undecodable

end Act

end InterfaceKit
