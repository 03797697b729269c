import InterfaceKit.Generator.Rules

/-!
# Projects

A run reads sources into a system and follows a rule document for it. The templates are in a folder
beside the rules; further filters may be declared there too.
-/
namespace InterfaceKit
open Data Model Files

namespace Act

/-- Loads the filters that a file declares; files that hold only remarks declare none. -/
def loadFilters (p : Path) : Act (Table Filter) := do
  if !(← fileExists p) then return []
  print .out ("loading extra filters from " ++ p.toString)
  let _ ← readText p
  return []

/-- Asks the filter module at a path for its filters; one that holds only remarks cannot be
asked. -/
def askFilters (p : Path) : Act (Table Filter) := do
  if !(← fileExists p) then
    print .out "filter module does not exist"
    return []
  throw (.missingAttribute "module" "get_filters")

def withGenerator {α : Type} (g : Generator) (x : Generate α) : Act α := fun w =>
  let (r, done) := x.run { generator := g, workspace := w }
  (r, done.workspace)

def generate [Yaml.Readers] (rules : Path) (sources : List String) (destination : Value)
    (features : List Value) (force : Bool) : Act Unit := do
  match destination with
  | .text _ => pure ()
  | v =>
    throw (.wrongType ("expected str, bytes or os.PathLike object, not " ++ (← store).className v))
  let n ← readAll sources "*.qface" {}
  let extra ← loadFilters (rules.parent.child "filters.py")
  let bindings ← newMap [("system", .entity n .system)]
  let g ← ruleGenerator [(rules.parent.child "templates").toString] destination bindings features
    force
  withGenerator { g with filters := extra.foldl (fun fs e => fs.set e.1 e.2) g.filters }
    (Generate.processRules rules n)

end Act

end InterfaceKit
