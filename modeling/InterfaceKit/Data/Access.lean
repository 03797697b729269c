import InterfaceKit.Data.Value

/-!
# Reading and changing values

Values are untyped, so each operation says what happens for a value that it does not fit.
-/
namespace InterfaceKit.Data
open Number Model

def placeClass : Place → String
  | .module => "Module"
  | .interface _ => "Interface"
  | .struct _ => "Struct"
  | .enum _ => "Enum"
  | .property _ _ => "Property"
  | .operation _ _ => "Operation"
  | .signal _ _ => "Signal"
  | .operationParameter _ _ _ | .signalParameter _ _ _ => "Parameter"
  | .field _ _ => "Field"
  | .member _ _ => "EnumMember"

def entityClass : Entity → String
  | .system => "System"
  | .symbol h => placeClass h.place

/-- Whether the contents of a symbol are drawn from several tables. -/
def layered : Entity → Bool
  | .symbol h =>
    match h.place with
    | .operation _ _ | .signal _ _ | .struct _ | .enum _ => false
    | _ => true
  | .system => false

def Cell.className : Cell → String
  | list _ => "list"
  | tuple _ => "tuple"
  | set _ => "set"
  | map _ => "dict"

def Store.className (s : Store) : Value → String
  | .null => "NoneType"
  | .bool _ => "bool"
  | .int _ => "int"
  | .float _ => "float"
  | .text _ => "str"
  | .bytes _ => "bytes"
  | .date _ => "datetime.date"
  | .moment _ => "datetime.datetime"
  | .ref i => ((s.get? i).map Cell.className).getD "dict"
  | .entity _ e => entityClass e
  | .type _ _ => "TypeSymbol"
  | .view _ owner part => if part = .contents && layered owner then "ValuesView" else "odict_values"
  | .comment _ => "DocObject"
  | .path _ => "PosixPath"
  | .undefined u => if u.strict then "TestableUndefined" else "Undefined"
  | .library _ => "TemplateModule"
  | .routine _ _ => "Macro"
  | .other name => name

namespace Value

/-- The number that a value stands for when it is compared; truth values count as 0 and 1. -/
def integer? : Value → Option Int
  | bool b => some (if b then 1 else 0)
  | int i => some i
  | _ => none

/-- What a value is compared as: a number that is an integer counts as this integer, however it is
held. -/
def canonical : Value → Value
  | bool b => int (if b then 1 else 0)
  | float d =>
    match d.integer? with
    | some i => int i
    | none => float d
  | v => v

def sameScalar (a b : Value) : Bool := a.canonical = b.canonical

end Value

namespace Store

mutual
/-- Equality of values, cells being compared by what they hold. -/
def same (s : Store) : Nat → Value → Value → Bool
  | 0, a, b => a.sameScalar b
  | fuel + 1, .ref i, .ref j =>
    if i = j then true
    else
      match s.get? i, s.get? j with
      | some (.list xs), some (.list ys) => sameAll s fuel xs ys
      | some (.tuple xs), some (.tuple ys) => sameAll s fuel xs ys
      | some (.set xs), some (.set ys) =>
        xs.length = ys.length && xs.all fun x => ys.any (x.sameScalar ·)
      | some (.map xs), some (.map ys) =>
        xs.length = ys.length && xs.all fun x =>
          match ys.find? fun y => x.1.sameScalar y.1 with
          | some y => same s fuel x.2 y.2
          | none => false
      | _, _ => false
  | _ + 1, a, b => a.sameScalar b

def sameAll (s : Store) : Nat → List Value → List Value → Bool
  | _, [], [] => true
  | 0, _, _ => false
  | fuel + 1, x :: xs, y :: ys => same s fuel x y && sameAll s fuel xs ys
  | _ + 1, _, _ => false
end

def equal (s : Store) (a b : Value) : Bool := s.same (2 * s.depthLimit + 64) a b

/-- Whether two values are equal when they are compared: what is no number is not even equal to
itself. -/
def comparesEqual (s : Store) (a b : Value) : Bool :=
  match a with
  | .float d => !d.isNan && s.equal a b
  | _ => s.equal a b

def hashable (s : Store) : Value → Bool
  | .ref i =>
    match s.get? i with
    | some (.tuple _) => true
    | _ => false
  | _ => true

def requireHashable (s : Store) (v : Value) : Except Failure Unit :=
  if s.hashable v then .ok () else .error (.wrongType ("unhashable type: '" ++ s.className v ++ "'"))

def findEntry (s : Store) (entries : List (Value × Value)) (key : Value) : Option Value :=
  (entries.find? fun e => s.equal e.1 key).map (·.2)

/-- Sets a key; a key that is there keeps its position. -/
def setEntry (s : Store) (entries : List (Value × Value)) (key value : Value) :
    List (Value × Value) :=
  match entries with
  | [] => [(key, value)]
  | e :: rest => if s.equal e.1 key then (e.1, value) :: rest else e :: setEntry s rest key value

def mapping? (s : Store) : Value → Option (Nat × List (Value × Value))
  | .ref i =>
    match s.get? i with
    | some (.map entries) => some (i, entries)
    | _ => none
  | _ => none

def isMapping (s : Store) (v : Value) : Bool := (s.mapping? v).isSome

/-- The position that an index means in a row of `length` elements; negative ones count from the
end. -/
def position? (length : Nat) (i : Int) : Option Nat :=
  let j := if i < 0 then i + length else i
  if 0 ≤ j ∧ j < length then some j.toNat else none

def display (key : Value) : String :=
  match key with
  | .text t => Text.quoted t
  | .int i => toString i
  | .bool b => if b then "True" else "False"
  | .null => "None"
  | .float d => d.text
  | _ => ""

def missing (key : Value) : Failure :=
  match key with
  | .text t => .missingKey (some t) (Text.quoted t)
  | k => .missingKey none (display k)

def element {α : Type} (row : String) (s : Store) (xs : List α) (key : Value) (wrong : String) :
    Except Failure α :=
  match key.integer? with
  | some i =>
    match position? xs.length i with
    | some n =>
      match xs[n]? with
      | some x => .ok x
      | none => .error (.outOfRange (row ++ " index out of range"))
    | none => .error (.outOfRange (row ++ " index out of range"))
  | none => .error (.wrongType (row ++ wrong ++ s.className key))

def getItem (s : Store) (v key : Value) : Except Failure Value :=
  match v with
  | .text t =>
    match key.integer? with
    | some _ => (element "string" s t.toList key "").map fun c => .text (String.singleton c)
    | none =>
      .error (.wrongType ("string indices must be integers, not '" ++ s.className key ++ "'"))
  | .bytes bs =>
    (element "byte" s bs key " indices must be integers or slices, not ").map fun b => .int b.toNat
  | .ref i =>
    match s.get? i with
    | some (.list xs) => element "list" s xs key " indices must be integers or slices, not "
    | some (.tuple xs) => element "tuple" s xs key " indices must be integers or slices, not "
    | some (.map entries) => do
      s.requireHashable key
      match s.findEntry entries key with
      | some x => .ok x
      | none => .error (missing key)
    | _ => .error (.wrongType ("'" ++ s.className v ++ "' object is not subscriptable"))
  | _ => .error (.wrongType ("'" ++ s.className v ++ "' object is not subscriptable"))

def setItem (s : Store) (v key value : Value) : Except Failure Store :=
  match v with
  | .ref i =>
    match s.get? i with
    | some (.list xs) =>
      match key.integer? with
      | some k =>
        match position? xs.length k with
        | some n => .ok (s.put i (.list (xs.set n value)))
        | none => .error (.outOfRange "list assignment index out of range")
      | none =>
        .error (.wrongType ("list indices must be integers or slices, not " ++ s.className key))
    | some (.map entries) => do
      s.requireHashable key
      .ok (s.put i (.map (s.setEntry entries key value)))
    | _ => refused
  | _ => refused
where
  refused : Except Failure Store :=
    .error (.wrongType ("'" ++ s.className v ++ "' object does not support item assignment"))

/-- Whether a value is found in another: as a part of a text, as an element, or as a key. -/
def contains (s : Store) (v x : Value) : Except Failure Bool :=
  match v with
  | .text t =>
    match x with
    | .text p => .ok (Text.occursIn p.toList t.toList)
    | _ =>
      .error (.wrongType ("'in <string>' requires string as left operand, not " ++ s.className x))
  | .bytes bs =>
    match x.integer? with
    | some i => .ok (bs.any fun b => (b.toNat : Int) = i)
    | none =>
      .error (.wrongType ("a bytes-like object is required, not '" ++ s.className x ++ "'"))
  | .ref i =>
    match s.get? i with
    | some (.list xs) | some (.tuple xs) => .ok (xs.any (s.equal x))
    | some (.set xs) => do
      s.requireHashable x
      .ok (xs.any (s.equal x))
    | some (.map entries) => do
      s.requireHashable x
      .ok (s.findEntry entries x).isSome
    | none => .ok false
  | _ => .error (.wrongType ("argument of type '" ++ s.className v ++ "' is not iterable"))

def elements (s : Store) (v : Value) : Except Failure (List Value) :=
  match v with
  | .text t => .ok (t.toList.map fun c => .text (String.singleton c))
  | .bytes bs => .ok (bs.map fun b => .int b.toNat)
  | .ref i =>
    match s.get? i with
    | some (.list xs) | some (.tuple xs) | some (.set xs) => .ok xs
    | some (.map entries) => .ok (entries.map (·.1))
    | none => .ok []
  | _ => .error (.wrongType ("'" ++ s.className v ++ "' object is not iterable"))

/-- Fails when a mapping has not got as many keys as it had. -/
def requireSize (s : Store) (v : Value) (size : Nat) : Except Failure Unit :=
  match s.mapping? v with
  | some (_, entries) => if entries.length = size then .ok () else .error .resized
  | none => .ok ()

/-- The method by which a mapping gives what it has for a key, or nothing. -/
def lookUp (s : Store) (v key : Value) : Except Failure Value :=
  match s.mapping? v with
  | some (_, entries) => do
    s.requireHashable key
    .ok ((s.findEntry entries key).getD .null)
  | none => .error (.missingAttribute (s.className v) "get")

/-- Whether a value counts as true. Empty texts and rows, zeros and nothing do not. -/
def isTrue (s : Store) : Value → Bool
  | .null => false
  | .bool b => b
  | .int i => i ≠ 0
  | .float d => !d.isZero
  | .text t => t ≠ ""
  | .bytes bs => bs ≠ []
  | .ref i =>
    match s.get? i with
    | some (.list xs) | some (.tuple xs) | some (.set xs) => !xs.isEmpty
    | some (.map entries) => !entries.isEmpty
    | none => false
  | .undefined _ => false
  | _ => true

mutual
def load (s : Store) : Json → Value × Store
  | .null => (.null, s)
  | .bool b => (.bool b, s)
  | .int i => (.int i, s)
  | .float d => (.float d, s)
  | .text t => (.text t, s)
  | .array xs =>
    let (vs, s) := loadItems s xs
    let (i, s) := s.alloc (.list vs)
    (.ref i, s)
  | .object ms =>
    let (es, s) := loadMembers s ms
    let (i, s) := s.alloc (.map es)
    (.ref i, s)

def loadItems (s : Store) : List Json → List Value × Store
  | [] => ([], s)
  | x :: xs =>
    let (v, s) := load s x
    let (vs, s) := loadItems s xs
    (v :: vs, s)

def loadMembers (s : Store) : List (String × Json) → List (Value × Value) × Store
  | [] => ([], s)
  | (k, x) :: ms =>
    let (v, s) := load s x
    let (es, s) := loadMembers s ms
    ((.text k, v) :: es, s)
end

def keyText (s : Store) : Value → Except Failure String
  | .text t => .ok t
  | .bool b => .ok (if b then "true" else "false")
  | .null => .ok "null"
  | .int i => .ok (toString i)
  | .float d => .ok (Double.render Json.number d)
  | v => .error (.wrongType
      ("keys must be str, int, float, bool or None, not " ++ s.className v))

mutual
def toJsonUpTo (s : Store) : Nat → Value → Except Failure Json
  | _, .null => .ok .null
  | _, .bool b => .ok (.bool b)
  | _, .int i => .ok (.int i)
  | _, .float d => .ok (.float d)
  | _, .text t => .ok (.text t)
  | 0, .ref _ => .error (.invalidValue "Circular reference detected")
  | fuel + 1, .ref i =>
    match s.get? i with
    | some (.list xs) | some (.tuple xs) => (toJsonItems s fuel xs).map .array
    | some (.map es) => (toJsonMembers s fuel es).map .object
    | _ => unfit s (.ref i)
  | _, v => unfit s v
where
  unfit (s : Store) (v : Value) : Except Failure Json :=
    .error (.wrongType ("Object of type " ++ s.className v ++ " is not JSON serializable"))

def toJsonItems (s : Store) : Nat → List Value → Except Failure (List Json)
  | _, [] => .ok []
  | 0, _ :: _ => .error (.invalidValue "Circular reference detected")
  | fuel + 1, x :: xs => do
    let j ← toJsonUpTo s fuel x
    let js ← toJsonItems s fuel xs
    .ok (j :: js)

def toJsonMembers (s : Store) : Nat → List (Value × Value) → Except Failure (List (String × Json))
  | _, [] => .ok []
  | 0, _ :: _ => .error (.invalidValue "Circular reference detected")
  | fuel + 1, (k, x) :: es => do
    let k ← s.keyText k
    let j ← toJsonUpTo s fuel x
    let js ← toJsonMembers s fuel es
    .ok ((k, j) :: js)
end

/-- The size of everything in the store: no walk through it that meets nothing twice is longer. -/
def extent (s : Store) : Nat :=
  s.cells.foldl (fun n c => n + 2 + (match c with
    | .list xs | .tuple xs | .set xs => xs.length
    | .map es => es.length)) 1

/-- The value that a value becomes when all cells move on by `n`. -/
def moved (n : Nat) : Value → Value
  | .ref i => .ref (i + n)
  | v => v

def movedCell (n : Nat) : Cell → Cell
  | .list xs => .list (xs.map (moved n))
  | .tuple xs => .tuple (xs.map (moved n))
  | .set xs => .set (xs.map (moved n))
  | .map es => .map (es.map fun e => (moved n e.1, moved n e.2))

/-- Adds a copy of every cell, and gives the way from a value to its copy. -/
def double (s : Store) : Store × (Value → Value) :=
  let n := s.cells.size
  ({ cells := s.cells ++ s.cells.map (movedCell n) }, moved n)

def toJson (s : Store) (v : Value) : Except Failure Json := toJsonUpTo s s.extent v

end Store

end InterfaceKit.Data
