import InterfaceKit.Files.Glob
import InterfaceKit.Grammar.Diagnostics
import InterfaceKit.Model.Draft
import InterfaceKit.Model.Profile
import InterfaceKit.Model.Tags
import InterfaceKit.Workspace

/-!
# Reading documents

Interface documents are read into a system. Beside a document there may be an annotation document of
the same name, which is merged into the tags of the symbols that it names.
-/
namespace InterfaceKit
open Data Model Files Grammar Lexical

/-- Whether a failure means that a text could not be understood. -/
def Failure.isRejection : Failure → Bool
  | .rejectedText _ | .invalidValue _ | .badEscape | .undecodable | .unencodable => true
  | _ => false

namespace Act

/-- Reads the tree of a document into a system. The module is there also when the walk ends
early. -/
def readTree [Yaml.Readers] (n : Nat) (tree : Grammar.Tree) : Act Unit := fun w =>
  let (result, draft) := Draft.ofDocument (w.nextModule n) tree w.store
  let systems := match draft.module with
    | some m => w.systems.modify n fun s => (s.register m).2
    | none => w.systems
  (result.mapError Obstacle.failure,
    { w with store := draft.store, log := w.log ++ draft.log, systems })

/-- Reads a source into a system; `document` names it in reports. Only the full language can be
read. -/
def readTokens [Yaml.Readers] (n : Nat) (profile : Profile) (document : String) (source : Source) :
    Act Unit := do
  let outcome := parse .document source
  printAll (outcome.log document source)
  match outcome with
  | .failed e _ => throw (.rejectedText (e.report document))
  | .parsed tree _ =>
    if profile ≠ .full then throw (.missingAttribute "Logger" "secho")
    readTree n tree

def readSource [Yaml.Readers] (n : Nat) (profile : Profile) (document : String) (text : List Char) :
    Act Unit :=
  readTokens n profile document (.ofText text)

/-- Reads code points. In comments and reports a replacement character is left of a surrogate. -/
def readCodes [Yaml.Readers] (n : Nat) (profile : Profile) (codes : List Text.Code) : Act Unit :=
  readTokens n profile "<TEXT>" (.ofCodes codes)

def readSystemText [Yaml.Readers] (n : Nat) (profile : Profile) (text : String) : Act Unit :=
  readSource n profile "<TEXT>" text.toList

/-- A text with every line break written as a single line feed. -/
def joinBreaks : List Char → List Char
  | '\r' :: '\n' :: cs => '\n' :: joinBreaks cs
  | '\r' :: cs => '\n' :: joinBreaks cs
  | c :: cs => c :: joinBreaks cs
  | [] => []

/-- The value of a data document. One that is malformed is reported and counts as an empty mapping,
and so does one that is not there. -/
def loadYaml [Yaml.Readers] (p : Path) (required : Bool) : Act Value := do
  if !(← fileExists p) then
    if required then
      print .err ("yaml document does not exists: " ++ p.toString)
      if (← get).strictDocuments then throw (.exit (-1))
    return ← newMap []
  let text ← readText p
  let w ← get
  match Yaml.load Yaml.Readers.documents w.store (joinBreaks text) with
  | .ok (v, store) =>
    set { w with store }
    return v
  | .error (.failed e) => throw e
  | .error problem =>
    let place := match problem.line? with
      | some line => p.toString ++ ":" ++ toString line
      | none => p.toString
    print .err (place ++ ": error: " ++ problem.message)
    if w.strictDocuments then throw (.exit (-1))
    newMap []

def annotated (n : Nat) (key : Value) : Act Entity := do
  match key with
  | .text name => lift ((← system n).lookup name)
  | .bytes _ => throw (.wrongType "a bytes-like object is required, not 'str'")
  | v => throw (.missingAttribute ((← store).className v) "rsplit")

/-- Merges what a mapping has under a key into the tags of the symbol that the key names. -/
def annotateKey (n : Nat) (data key : Value) : Act Unit := do
  let value ← ask (·.getItem data key)
  let e ← annotated n key
  let tags := (← system n).tagsOf e
  change (·.merge tags value)

/-- Merges all that a mapping has into the tags of the symbols that its keys name. The mapping must
not get new keys meanwhile. -/
def annotateAll (n : Nat) (data : Value) : Act Unit := do
  match (← store).mapping? data with
  | none => throw (.missingAttribute ((← store).className data) "items")
  | some (_, entries) =>
    for (key, _) in entries do
      annotateKey n data key
      ask (·.requireSize data entries.length)

/-- Merges an annotation document into a system. A fault is reported and ends the merge. -/
def mergeAnnotations [Yaml.Readers] (n : Nat) (document : String) : Act Unit := do
  let p := Path.ofString document
  if !(← fileExists p) then return
  let data ← loadYaml p false
  if !(← store).isTrue data then
    print .out ("skipping empty: " ++ p.name)
    return
  print .out ("merge: " ++ p.name)
  match ← attempt (annotateAll n data) with
  | .ok () => pure ()
  | .error e =>
    print .err ("Error parsing annotation " ++ document ++ ": " ++ e.message)
    if (← get).strictDocuments then throw (.exit (-1))

def readFile [Yaml.Readers] (n : Nat) (profile : Profile) (document : String) : Act Unit := do
  let text ← readText (.ofString document)
  readSource n profile document text
  mergeAnnotations n (withoutExtension document ++ ".yaml")

/-- Reads a document with its annotations. Faults are reported; the answer tells whether there was
none. -/
def readDocument [Yaml.Readers] (n : Nat) (profile : Profile) (document : String) : Act Bool := do
  match ← attempt (readFile n profile document) with
  | .ok () => return true
  | .error (.exit code) => throw (.exit code)
  | .error e =>
    match e with
    | .fileNotFound _ => print .err (document ++ ": error: file not found")
    | e => if !e.isRejection then print .err ("Error parsing document " ++ document)
    if (← get).strictDocuments then throw (.exit (-1))
    return false

/-! ## Many documents -/

/-- Reads a document, or all documents in a folder whose names fit a pattern. -/
def readInput [Yaml.Readers] (n : Nat) (pattern : String) (input : String) : Act Unit := do
  let p := (← get).folder.child input
  if ← isFile p then
    let _ ← readDocument n .full p.toString
  else
    match ← locate p with
    | none => pure ()
    | some l =>
      for found in (← get).files.search l pattern do
        let _ ← readDocument n .full (p.join { names := found }).toString

/-- A copy of a system that shares nothing with it. -/
def copySystem (s : System) : Act System := do
  let w ← get
  let (store, move) := w.store.double
  set { w with store }
  return s.mapTags move

structure CacheUse where
  identifier : String := "system"
  use : Bool := false
  clear : Bool := true

def restore (n : Nat) (cache : CacheUse) : Act Unit := do
  if cache.use then
    if cache.clear then
      modify fun w => { w with cache := w.cache.filter fun e => e.1 ≠ cache.identifier }
    match (← get).cache.get? cache.identifier with
    | some s =>
      let s ← copySystem s
      modifySystem n fun _ => s
    | none => pure ()

def setAside (n : Nat) (cache : CacheUse) : Act Unit := do
  if cache.use then
    let s ← copySystem (← system n)
    modify fun w => { w with cache := w.cache.set cache.identifier s }

/-- Reads inputs into a new system, or into what the cache holds under an identifier. -/
def readAll [Yaml.Readers] (inputs : List String) (pattern : String) (cache : CacheUse) :
    Act Nat := do
  let n ← newSystem
  restore n cache
  for input in inputs do readInput n pattern input
  setAside n cache
  return n

end Act

end InterfaceKit
