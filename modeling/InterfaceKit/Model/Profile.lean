import InterfaceKit.Failure

/-!
# Language profiles

A profile is the set of features of the language that a document may use.
-/
namespace InterfaceKit.Model

inductive Feature where
  | constOperation | extendInterface | imports | maps | defaultValues
  deriving DecidableEq, Repr, Inhabited

namespace Feature

def all : List Feature := [constOperation, extendInterface, imports, maps, defaultValues]

def name : Feature → String
  | constOperation => "const_operation"
  | extendInterface => "extend_interface"
  | imports => "import"
  | maps => "maps"
  | defaultValues => "default_values"

def ofName? (s : String) : Option Feature := all.find? fun f => f.name = s

end Feature

inductive Profile where
  | micro | advanced | full
  deriving DecidableEq, Repr, Inhabited

namespace Profile

def all : List Profile := [micro, advanced, full]

def name : Profile → String
  | micro => "micro"
  | advanced => "advanced"
  | full => "full"

def ofName? (s : String) : Option Profile := all.find? fun p => p.name = s

def features : Profile → List Feature
  | micro => []
  | advanced => [.extendInterface, .imports, .maps, .defaultValues]
  | full => Feature.all

/-- Whether a feature may be used. A missing one counts as usable unless it is reported; the report
itself fails, except where reports are silenced. -/
def supports (p : Profile) (f : Feature) (report quiet : Bool) : Except Failure Bool :=
  if p.features.contains f || !report then .ok true
  else if quiet then .ok false
  else .error (.wrongType "unexpected keyword argument")

end Profile

end InterfaceKit.Model
