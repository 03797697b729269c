import InterfaceKit.Filter.Registry
import InterfaceKit.Template.Reader

/-!
# Writing out templates

A name that is not bound is undefined. Undefined values are false and empty and print as nothing;
other uses of them are faults, and in strict mode printing them is one too. Libraries are templates
whose routines are called; a routine sees its arguments only.
-/
namespace InterfaceKit.Template
open Data Model

/-- A template as it was found: the file that it came from and its text. -/
structure Source where
  file : String
  text : String
  deriving Repr, Inhabited

/-- What templates have in common. -/
structure Engine where
  filters : Table Filter
  strict : Bool := false
  find : String → Inquiry (Option Source)

/-- Where in a template we are, and what is bound there. -/
structure Place where
  file : String
  line : Nat := 1
  /-- The template's own pieces, among which its routines are found. -/
  pieces : List Node := []
  /-- Bindings from the innermost scope outwards. -/
  scopes : List (Table Value) := [[]]
  deriving Inhabited

namespace Place

def lookup (p : Place) (name : String) : Option Value := p.scopes.findSome? (·.get? name)

def bind (p : Place) (name : String) (v : Value) : Place :=
  { p with scopes := ((p.scopes.headD []).set name v) :: p.scopes.drop 1 }

def enter (p : Place) (bindings : Table Value) : Place := { p with scopes := bindings :: p.scopes }

/-- The failure that the use of an undefined value is. -/
def misuse {α : Type} (p : Place) (u : Undefined) : Inquiry α :=
  throw (.undefined u.message (.line p.file p.line))

end Place

def Engine.setting (e : Engine) : Filter.Setting := { known := e.filters, strict := e.strict }

def literalValue : Literal → Value
  | .null => .null
  | .bool b => .bool b
  | .int n => .int n
  | .float d => .float d
  | .text s => .text s

def truth (v : Value) : Inquiry Bool := do
  match v with
  | .view _ _ _ => return !(← Inquiry.elements v).isEmpty
  | v => return (← Inquiry.store).isTrue v

def Engine.pieces (e : Engine) (name : String) : Inquiry (Source × List Node) := do
  match ← e.find name with
  | none => throw (.templateNotFound name)
  | some s =>
    match parse e.filters.names s.text with
    | .ok ns => return (s, ns)
    | .error f => throw (.templateFault f.message s.file f.line)

structure Routine where
  parameters : List (String × Option Expr)
  body : List Node
  deriving Inhabited

def routine? (pieces : List Node) (name : String) : Option Routine :=
  pieces.reverse.findSome? fun
    | .routine _ n parameters body => if n = name then some { parameters, body } else none
    | _ => none

def memberOf (e : Engine) (v : Value) (name : String) : Inquiry Value := do
  match v with
  | .library library =>
    let (_, pieces) ← e.pieces library
    if (routine? pieces name).isSome then return .routine library name
    Inquiry.undefinedAttribute e.strict v name
  | v => Inquiry.memberOf e.strict v name

/-! ## Operators -/

def wrongOperands {α : Type} (sign : String) (a b : Value) : Inquiry α := do
  let s ← Inquiry.store
  throw (.wrongType
    ("unsupported operand type(s) for " ++ sign ++ ": '" ++ s.className a ++ "' and '"
    ++ s.className b ++ "'"))

def toDouble? : Value → Option Number.Double
  | .float d => some d
  | v => v.integer?.map Number.Double.ofInt

/-- Arithmetic on integers, else on floats. -/
def arithmetic (sign : String) (ints : Int → Int → Int)
    (floats : Number.Double → Number.Double → Number.Double) (a b : Value) : Inquiry Value := do
  match a.integer?, b.integer? with
  | some x, some y => return .int (ints x y)
  | _, _ =>
    match toDouble? a, toDouble? b with
    | some x, some y => return .float (floats x y)
    | _, _ => wrongOperands sign a b

def add (a b : Value) : Inquiry Value := do
  match a, b with
  | .text s, .text t => return .text (s ++ t)
  | .ref i, .ref j =>
    let s ← Inquiry.store
    match s.get? i, s.get? j with
    | some (.list xs), some (.list ys) => Inquiry.newList (xs ++ ys)
    | _, _ => wrongOperands "+" a b
  | a, b => arithmetic "+" (· + ·) (·.add ·) a b

def less (a b : Value) : Inquiry Bool := do
  match a, b with
  | .text s, .text t => return s < t
  | a, b =>
    match a.integer?, b.integer? with
    | some x, some y => return x < y
    | _, _ => wrongOperands "<" a b

def contained (x row : Value) : Inquiry Bool := do
  match row with
  | .view _ _ _ => return (← Inquiry.elements row).any (· == x)
  | .undefined _ => return false
  | row => Inquiry.ask (·.contains row x)

/-- The first undefined operand that the operator cannot take. -/
def culprit? (op : Operator) (a b : Value) : Option Undefined :=
  let refused (u : Undefined) : Bool :=
    match op with
    | .equal | .unequal | .isIn | .isNotIn | .concat => u.strict
    | _ => true
  [a, b].findSome? fun
    | .undefined u => if refused u then some u else none
    | _ => none

def operate (p : Place) (op : Operator) (a b : Value) : Inquiry Value := do
  match culprit? op a b with
  | some u => p.misuse u
  | none =>
    match op with
    | .add => add a b
    | .subtract => arithmetic "-" (· - ·) (fun x y => x.add y.neg) a b
    | .multiply => arithmetic "*" (· * ·) (·.mul ·) a b
    | .concat => return .text ((← Inquiry.text a) ++ (← Inquiry.text b))
    | .equal => return .bool ((← Inquiry.store).comparesEqual a b)
    | .unequal => return .bool (!(← Inquiry.store).comparesEqual a b)
    | .less => return .bool (← less a b)
    | .lessEqual => return .bool (!(← less b a))
    | .greater => return .bool (← less b a)
    | .greaterEqual => return .bool (!(← less a b))
    | .isIn => return .bool (← contained a b)
    | .isNotIn => return .bool (!(← contained a b))

def loopValue (index count : Nat) : Inquiry Value :=
  Inquiry.newMap [("index", .int (index + 1)), ("index0", .int index), ("first", .bool (index = 0)),
    ("last", .bool (index + 1 = count)), ("length", .int count), ("revindex", .int (count - index)),
    ("revindex0", .int (count - index - 1))]

def outputText (p : Place) (v : Value) : Inquiry String := do
  match v with
  | .undefined u => if u.strict then p.misuse u else return ""
  | v => Inquiry.text v

def rounds (p : Place) (v : Value) : Inquiry (List Value) := do
  match v with
  | .undefined u => if u.strict then p.misuse u else return []
  | v => Inquiry.elements v

/-- Binds the targets of a loop: one takes the element, several take its parts. -/
def bindTargets (targets : List String) (v : Value) : Inquiry (Table Value) := do
  match targets with
  | [t] => return [(t, v)]
  | ts =>
    let parts ← Inquiry.elements v
    if parts.length = ts.length then return ts.zip parts
    else throw (.invalidValue "wrong number of values to unpack")

def assignArguments (name : String) (parameters : List String) (args : List Value)
    (named : Table Value) : Inquiry (List (Option Value)) := do
  let free := parameters.drop args.length
  match named.find? fun e => !free.contains e.1 with
  | some e => throw (.wrongType ("macro '" ++ name ++ "' takes no keyword argument '" ++ e.1 ++ "'"))
  | none =>
    if args.length > parameters.length then
      throw (.wrongType ("macro '" ++ name ++ "' takes not more than " ++ toString parameters.length
        ++ " argument(s)"))
    return args.map some ++ free.map named.get?

/-- Applies a filter; the length of an undefined value is asked for by the template itself. -/
def applyFilter (e : Engine) (p : Place) (f : Filter) (v : Value) (args : List Value)
    (named : Table Value) : Inquiry Value :=
  match f, v with
  | .length, .undefined u => if u.strict then p.misuse u else return .int 0
  | f, v => f.apply e.setting v args named

mutual
def evaluate (e : Engine) (fuel : Nat) (p : Place) (x : Expr) : Inquiry Value := do
  match fuel with
  | 0 => throw .tooDeep
  | fuel + 1 =>
    match x with
    | .literal l => return literalValue l
    | .name n =>
      match p.lookup n with
      | some v => return v
      | none =>
        if (routine? p.pieces n).isSome then return .routine "" n
        return .undefined { message := "'" ++ n ++ "' is undefined", strict := e.strict }
    | .member x name => memberOf e (← evaluate e fuel p x) name
    | .item x key =>
      let v ← evaluate e fuel p x
      Inquiry.itemOf e.strict v (← evaluate e fuel p key)
    | .list xs => Inquiry.newList (← xs.mapM (evaluate e fuel p))
    | .call f args named =>
      let f ← evaluate e fuel p f
      let args ← args.mapM (evaluate e fuel p)
      let named ← named.mapM fun (n, x) => do return (n, ← evaluate e fuel p x)
      match f with
      | .routine library name => return .text (← call e fuel p library name args named)
      | .undefined u => throw (.undefined u.message .engine)
      | f => throw (.wrongType ("'" ++ (← Inquiry.store).className f ++ "' object is not callable"))
    | .filter x name args named =>
      let v ← evaluate e fuel p x
      let args ← args.mapM (evaluate e fuel p)
      let named ← named.mapM fun (n, x) => do return (n, ← evaluate e fuel p x)
      match e.filters.get? name with
      | some f => applyFilter e p f v args named
      | none => throw (.undefined ("No filter named '" ++ name ++ "' found.") (.line p.file p.line))
    | .negate x =>
      match ← evaluate e fuel p x with
      | .undefined u => p.misuse u
      | .float d => return .float d.neg
      | v =>
        match v.integer? with
        | some i => return .int (-i)
        | none => wrongOperands "unary -" v v
    | .not x => return .bool (!(← truth (← evaluate e fuel p x)))
    | .both a b =>
      let v ← evaluate e fuel p a
      if ← truth v then evaluate e fuel p b else return v
    | .either a b =>
      let v ← evaluate e fuel p a
      if ← truth v then return v else evaluate e fuel p b
    | .binary op a b =>
      let v ← evaluate e fuel p a
      operate p op v (← evaluate e fuel p b)
    | .choice test a b =>
      if ← truth (← evaluate e fuel p test) then evaluate e fuel p a
      else
        match b with
        | some b => evaluate e fuel p b
        | none =>
          let message := "the inline if-expression on line " ++ toString p.line
            ++ " evaluated to false and no else section was defined."
          return .undefined { message, strict := e.strict }
    | .isDefined x =>
      match ← evaluate e fuel p x with
      | .undefined _ => return .bool false
      | _ => return .bool true

def call (e : Engine) (fuel : Nat) (p : Place) (library name : String) (args : List Value)
    (named : Table Value) : Inquiry String := do
  match fuel with
  | 0 => throw .tooDeep
  | fuel + 1 =>
    let start : Place ←
      if library = "" then pure { p with scopes := p.scopes.reverse.take 1 }
      else do
        let (source, pieces) ← e.pieces library
        pure { file := source.file, pieces }
    match routine? start.pieces name with
    | none => throw (.missingAttribute "TemplateModule" name)
    | some r =>
      let given ← assignArguments name (r.parameters.map (·.1)) args named
      let mut place := start.enter []
      for ((n, otherwise), value) in r.parameters.zip given do
        let v ← match value, otherwise with
          | some v, _ => pure v
          | none, some x => evaluate e fuel place x
          | none, none => pure (.undefined
              { message := "parameter '" ++ n ++ "' was not provided", strict := e.strict })
        place := place.bind n v
      let (text, _) ← write e fuel place r.body
      return text

/-- Writes out pieces one after the other; assignments are seen by the later ones. -/
def write (e : Engine) (fuel : Nat) (p : Place) (pieces : List Node) : Inquiry (String × Place) := do
  match fuel with
  | 0 => throw .tooDeep
  | fuel + 1 =>
    let mut place := p
    let mut text := ""
    for piece in pieces do
      let (s, q) ← writePiece e fuel place piece
      text := text ++ s
      place := q
    return (text, place)

def writePiece (e : Engine) (fuel : Nat) (p : Place) (piece : Node) : Inquiry (String × Place) := do
  match fuel with
  | 0 => throw .tooDeep
  | fuel + 1 =>
    match piece with
    | .text s => return (s, p)
    | .output line x =>
      let here := { p with line }
      return (← outputText here (← evaluate e fuel here x), p)
    | .branch line test body other =>
      let here := { p with line }
      let (s, q) ← write e fuel p (if ← truth (← evaluate e fuel here test) then body else other)
      return (s, q)
    | .loop line targets row body other =>
      let here := { p with line }
      let vs ← rounds here (← evaluate e fuel here row)
      if vs.isEmpty then
        let (s, _) ← write e fuel (p.enter []) other
        return (s, p)
      let mut text := ""
      for (v, i) in vs.zipIdx do
        let bound ← bindTargets targets v
        let loop ← loopValue i vs.length
        let (s, _) ← write e fuel (p.enter (bound ++ [("loop", loop)])) body
        text := text ++ s
      return (text, p)
    | .scope line bindings body =>
      let here := { p with line }
      let bound ← bindings.mapM fun (n, x) => do return (n, ← evaluate e fuel here x)
      let (s, _) ← write e fuel (p.enter bound) body
      return (s, p)
    | .assign line name x =>
      let v ← evaluate e fuel { p with line } x
      return ("", p.bind name v)
    | .library line x name =>
      match ← evaluate e fuel { p with line } x with
      | .text library =>
        let _ ← e.pieces library
        return ("", p.bind name (.library library))
      | .undefined u => throw (.undefined u.message .engine)
      | _ => throw (.wrongType "a template is named by a text")
    | .routine _ _ _ _ => return ("", p)
end

/-- How deep templates, routines and expressions may be nested in each other. -/
def depthLimit : Nat := 1000

def render (e : Engine) (file : String) (pieces : List Node) (bindings : Table Value) :
    Inquiry String := do
  match ← Inquiry.attempt (write e depthLimit { file, pieces, scopes := [bindings] } pieces) with
  | .ok (s, _) => return s
  | .error .exhausted => throw .interrupted
  | .error f => throw f

def renderText (e : Engine) (text : String) (bindings : Table Value) : Inquiry String := do
  match parse e.filters.names text with
  | .ok pieces => render e "<template>" pieces bindings
  | .error f => throw (.templateFault f.message "None" f.line)

def renderNamed (e : Engine) (name : String) (bindings : Table Value) : Inquiry String := do
  let (source, pieces) ← e.pieces name
  render e source.file pieces bindings

def callRoutine (e : Engine) (library name : String) (args : List Value) (named : Table Value) :
    Inquiry String := do
  let (source, pieces) ← e.pieces library
  call e depthLimit { file := source.file, pieces } library name args named

end InterfaceKit.Template
