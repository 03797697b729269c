import InterfaceKit.Data.Access
import InterfaceKit.Yaml.Node
import InterfaceKit.Yaml.Plain

/-!
# Documents

The value of a document. A node becomes one value however often it is used. Collections are made
empty and filled afterwards, in the order in which they were met, so that a collection may be used
inside itself.
-/
namespace InterfaceKit.Yaml
open Data

/-! ## Bytes written in 64 letters -/

namespace Base64

def letterValue? (c : Char) : Option Nat :=
  if 'A' ≤ c && c ≤ 'Z' then some (c.toNat - 'A'.toNat)
  else if 'a' ≤ c && c ≤ 'z' then some (c.toNat - 'a'.toNat + 26)
  else if '0' ≤ c && c ≤ '9' then some (c.toNat - '0'.toNat + 52)
  else if c = '+' then some 62
  else if c = '/' then some 63
  else none

/-- Reads letters in groups of four; `place` tells how far the present group has come, `left` holds
the bits that have not made a byte, `pads` counts the padding. Other characters are passed over. -/
def decodeFrom (place left pads : Nat) : List Char → Option (List UInt8)
  | [] => if place = 0 then some [] else none
  | c :: cs =>
    if c = '=' then
      if place ≥ 2 && place + pads + 1 ≥ 4 then some [] else decodeFrom place left (pads + 1) cs
    else
      match letterValue? c with
      | none => decodeFrom place left pads cs
      | some v =>
        match place with
        | 0 => decodeFrom 1 v 0 cs
        | 1 => (decodeFrom 2 (v % 16) 0 cs).map ((left * 4 + v / 16).toUInt8 :: ·)
        | 2 => (decodeFrom 3 (v % 4) 0 cs).map ((left * 16 + v / 4).toUInt8 :: ·)
        | _ => (decodeFrom 0 0 0 cs).map ((left * 64 + v).toUInt8 :: ·)

def decode? (text : List Char) : Option (List UInt8) := decodeFrom 0 0 0 text

end Base64

/-! ## Values -/

inductive Problem where
  /-- A character that no text may contain, and the number of bytes before it. -/
  | unacceptable (c : Char) (offset : Nat)
  /-- The line at fault, counted from zero. -/
  | malformed (line : Nat)
  /-- A value that cannot be made. -/
  | failed (f : Failure)
  deriving Repr

def Problem.message : Problem → String
  | unacceptable c offset =>
    "unacceptable character #x" ++ String.ofList (Json.hex 4 c.toNat)
      ++ ": control characters are not allowed\n  in \"<unicode string>\", position "
      ++ toString offset
  | malformed _ => "<yaml>"
  | failed f => f.message

/-- The line that is at fault, counted from one, if it is known. -/
def Problem.line? : Problem → Option Nat
  | malformed line => some (line + 1)
  | _ => none

structure Maker where
  graph : Graph
  store : Store
  made : List (Nat × Value) := []
  /-- The collections that are to be filled: their cells and nodes, the last one first. -/
  pending : List (Nat × Nat) := []

abbrev Make := StateT Maker (Except Problem)

namespace Make

def nodeAt (id : Nat) : Make Node := do
  return (← get).graph.nodes.getD id { body := .scalar "" true, line := 0 }

def fault {α : Type} (n : Node) : Make α := throw (.malformed n.line)

def lift {α : Type} : Except Failure α → Make α
  | .ok a => return a
  | .error e => throw (.failed e)

def tagOf (n : Node) : Tag :=
  match n.tag, n.body with
  | some t, _ => .ofName t
  | none, .scalar text true => Plain.tagOf text.toList
  | none, .scalar _ false => .text
  | none, .sequence _ => .sequence
  | none, .mapping _ => .mapping

/-- The text of a scalar. A mapping stands for the text under its equals sign. -/
def scalarText : Nat → Node → Make (List Char)
  | fuel, n => do
    match n.body, fuel with
    | .scalar text _, _ => return text.toList
    | .mapping pairs, fuel + 1 =>
      for (k, v) in pairs do
        if tagOf (← nodeAt k) = .value then return ← scalarText fuel (← nodeAt v)
      fault n
    | _, _ => fault n

def alloc (id : Nat) (c : Cell) : Make Value := do
  let s ← get
  let (cell, store) := s.store.alloc c
  set { s with store, pending := (cell, id) :: s.pending }
  return .ref cell

/-- The value of a node, which is not yet filled if it is a collection. -/
def create (id : Nat) : Make Value := do
  let n ← nodeAt id
  let text := scalarText (← get).graph.nodes.size n
  match tagOf n with
  | .null => do
    let _ ← text
    return .null
  | .bool => return .bool (← lift (Plain.bool (← text)))
  | .int => return .int (← lift (Plain.int (← text)))
  | .float => return .float (← lift (Plain.float (← text)))
  | .timestamp => lift (Plain.timestamp (← text))
  | .text => return .text (String.ofList (← text))
  | .binary =>
    let cs ← text
    if cs.any (·.toNat ≥ 128) then fault n
    match Base64.decode? cs with
    | some bytes => return .bytes bytes
    | none => fault n
  | .sequence | .omap | .pairs => alloc id (.list [])
  | .mapping => alloc id (.map [])
  | .set => alloc id (.set [])
  | .merge | .value | .other _ => fault n

def value (id : Nat) : Make Value := do
  match (← get).made.lookup id with
  | some v => return v
  | none =>
    let v ← create id
    modify fun s => { s with made := (id, v) :: s.made }
    return v

def pairsOf (n : Node) : Make (List (Nat × Nat)) :=
  match n.body with
  | .mapping pairs => return pairs
  | _ => fault n

/-- The pairs of a mapping; those of the mappings that are merged into it come first. An equals sign
as a key is a text. -/
def flatten : Nat → Nat → Make (List (Nat × Nat))
  | 0, id => do fault (← nodeAt id)
  | fuel + 1, id => do
    let n ← nodeAt id
    let mut merged : List (Nat × Nat) := []
    let mut own : List (Nat × Nat) := []
    for (k, v) in ← pairsOf n do
      let key ← nodeAt k
      match tagOf key with
      | .merge =>
        let source ← nodeAt v
        match source.body with
        | .mapping _ => merged := merged ++ (← flatten fuel v)
        | .sequence items =>
          let mut parts : List (List (Nat × Nat)) := []
          for item in items do
            let part ← nodeAt item
            match part.body with
            | .mapping _ => parts := (← flatten fuel item) :: parts
            | _ => fault part
          merged := merged ++ parts.flatten
        | .scalar _ _ => fault source
      | .value =>
        modify fun s =>
          { s with graph := { nodes := s.graph.nodes.modify k fun n =>
            { n with tag := some "tag:yaml.org,2002:str" } } }
        own := own ++ [(k, v)]
      | _ => own := own ++ [(k, v)]
    let pairs := merged ++ own
    modify fun s =>
      { s with
        graph := { nodes := s.graph.nodes.modify id fun n => { n with body := .mapping pairs } } }
    return pairs

def entries (id : Nat) : Make (List (Value × Value)) := do
  let _ ← pairsOf (← nodeAt id)
  let mut result : List (Value × Value) := []
  for (k, v) in ← flatten ((← get).graph.nodes.size + 1) id do
    let key ← value k
    if !(← get).store.hashable key then fault (← nodeAt k)
    let x ← value v
    result := (← get).store.setEntry result key x
  return result

/-- The pairs that a row of mappings with one pair each lists. -/
def listed (id : Nat) : Make (List (Value × Value)) := do
  let n ← nodeAt id
  match n.body with
  | .sequence items =>
    items.mapM fun item => do
      let part ← nodeAt item
      match part.body with
      | .mapping [(k, v)] => return (← value k, ← value v)
      | _ => fault part
  | _ => fault n

def fill (cell id : Nat) : Make Unit := do
  let n ← nodeAt id
  let c : Cell ← match tagOf n with
    | .mapping => do pure (.map (← entries id))
    | .set => do pure (.set ((← entries id).map (·.1)))
    | .omap | .pairs => do
      let items ← (← listed id).mapM fun (k, v) => do
        let s ← get
        let (i, store) := s.store.alloc (.tuple [k, v])
        set { s with store }
        pure (Value.ref i)
      pure (.list items)
    | _ =>
      match n.body with
      | .sequence items => do pure (.list (← items.mapM value))
      | _ => fault n
  modify fun s => { s with store := s.store.put cell c }

/-- Fills the pending collections, then those that they brought up, and so on. -/
def fillAll : Nat → Make Unit
  | 0 => pure ()
  | fuel + 1 => do
    let pending := (← get).pending.reverse
    if pending.isEmpty then return
    modify fun s => { s with pending := [] }
    for (cell, id) in pending do fill cell id
    fillAll fuel

end Make

/-- What a text holds: a value and the cells that it leads to. -/
structure Document where
  root : Value := .null
  store : Store := {}

abbrev Reader := List Char → Except Problem Document

/-- Reads the document that a text holds; an empty text holds nothing. -/
def read : Reader := fun text => do
  let (text, offset) := match text with
    | c :: cs => if c.toNat = 0xFEFF then (cs, 3) else (c :: cs, 0)
    | [] => ([], 0)
  match firstUnacceptable offset text with
  | some (c, n) => throw (.unacceptable c n)
  | none =>
    match Graph.ofText text with
    | .error line => throw (.malformed line)
    | .ok (none, _) => return {}
    | .ok (some root, graph) =>
      let make : Make Value := do
        let v ← Make.value root
        Make.fillAll (graph.nodes.size + 1)
        return v
      let (v, m) ← make.run { graph, store := {} }
      return { root := v, store := m.store }

/-- Reads a text and puts the cells of its document behind those of a store. -/
def load (read : Reader) (s : Store) (text : List Char) : Except Problem (Value × Store) :=
  (read text).map fun d => (d.root.shift s.cells.size, s.append d.store)

section
variable {read : Reader} {text : List Char}

theorem load_of_ok {d : Document} (h : read text = .ok d) (s : Store) :
    load read s text = .ok (d.root.shift s.cells.size, s.append d.store) := by
  rw [load, h]
  rfl

theorem load_error_iff {s : Store} {p : Problem} :
    load read s text = .error p ↔ read text = .error p := by
  rw [load]
  cases read text <;> simp [Except.map]

end

/-- How texts are read. Tags in comments and documents in files are read in their own ways. -/
class Readers where
  tags : Reader
  documents : Reader

instance : Readers := ⟨read, read⟩

end InterfaceKit.Yaml
