import InterfaceKit.Files.Delivery
import InterfaceKit.Generator.Basic

/-!
# Writing documents

A document is a template written out into a file whose name is a template too. Faults of templates
are reported and spoil only their own document; in strict mode they end the program.
-/
namespace InterfaceKit
open Data Model Files

/-- How a fault of a template is reported. Other failures are no faults of templates. -/
def Failure.templateReport? : Failure → Option String
  | .templateFault message file line => some (file ++ ":" ++ toString line ++ ": error: " ++ message)
  | .templateNotFound name => some (name ++ ": error: Template not found")
  | .undefined message (.line file line) =>
    some (file ++ ":" ++ toString line ++ ": error: " ++ message)
  | .undefined message .engine => some ("<JINJA>: error: " ++ message)
  | _ => none

def Files.Receipt.report (p : Path) : Receipt → Log
  | .created => Log.line .out ("create: " ++ p.toString)
  | .preserved => Log.line .out ("preserve: " ++ p.toString)
  | .unchanged => []

namespace Act

def prepare (p : Path) : Act Location := do
  let w ← get
  match w.files.prepare w.folder p with
  | .ok (place, files) =>
    set { w with files }
    return place
  | .error e => throw e

def deliver (d : Delivery) : Act Unit := do
  let w ← get
  if w.files.isFolder d.place then throw (.isDirectory d.path.toString)
  else
    let delivered := w.files.deliver d
    set { w with files := delivered.2, log := w.log ++ delivered.1.report d.path }

end Act

namespace Generate

/-- What is to be written: a document's name, its template, and the bindings if they are not the
generator's. -/
structure Request where
  target : Value
  template : Value
  bindings : Option Value := none
  preserve : Bool := false
  force : Bool := false

/-- Writes out the name of a document and makes its folder. Gives its path and the place of it. -/
def approach (q : Request) (mapping : Value) : Generate (Path × Location) := do
  let name ← applyWith mapping q.target
  let path := (← resolvedPath).join (.ofString name)
  return (path, ← Act.prepare path)

/-- Writes out the name of a document and its text, and makes its folder in between. -/
def compose (q : Request) (mapping : Value) : Generate Delivery := do
  let aim ← approach q mapping
  let text ← render q.template mapping
  let force := (← generator).force || q.force
  return { path := aim.1, text, preserve := q.preserve, force, place := aim.2 }

def produce (q : Request) (mapping : Value) : Generate Unit := do
  Act.deliver (← compose q mapping)

def write (q : Request) : Generate Unit := do
  let store := (← get).store
  if !store.isTrue q.target || !store.isTrue q.template then
    Act.print .out "source or target missing for document"
    return
  let given := q.bindings.getD .null
  let own := (← generator).bindings
  let mapping := if store.isTrue given then given else own
  match ← attempt (produce q mapping) with
  | .ok () => pure ()
  | .error e =>
    match e.templateReport? with
    | none => throw e
    | some report =>
      Act.print .err report
      if (← get).strictTemplates then throw (.exit 1)

end Generate

end InterfaceKit
