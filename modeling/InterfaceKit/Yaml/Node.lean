import InterfaceKit.Yaml.Tokens

/-!
# Nodes

A document is a graph of nodes: an alias is the node that it names. Nodes are numbered in the order
in which they start, and refer to each other by number.
-/
namespace InterfaceKit.Yaml

inductive NodeBody where
  /-- `plain` texts may stand for something other than a text. -/
  | scalar (text : String) (plain : Bool)
  | sequence (items : List Nat)
  | mapping (pairs : List (Nat × Nat))
  deriving DecidableEq, Repr, Inhabited

structure Node where
  body : NodeBody
  tag : Option String := none
  line : Nat
  deriving DecidableEq, Repr, Inhabited

structure Graph where
  nodes : Array Node := #[]
  deriving Repr, Inhabited

structure Builder where
  tokens : List Token
  /-- The line of the fault that stands behind the tokens. -/
  fault : Option Nat
  graph : Graph := {}
  anchors : List (String × Nat) := []
  handles : List (String × String) := []

abbrev Build := StateT Builder (Except Nat)

namespace Build

def peek : Build Token := do
  let s ← get
  match s.tokens with
  | t :: _ => return t
  | [] => throw (s.fault.getD 0)

def skip : Build Unit := modify fun s => { s with tokens := s.tokens.drop 1 }

def nextIn (kinds : List TokenKind) : Build Bool := do return kinds.contains (← peek).kind

def add (n : Node) : Build Nat := do
  let s ← get
  set { s with graph := { nodes := s.graph.nodes.push n } }
  return s.graph.nodes.size

def setBody (id : Nat) (body : NodeBody) : Build Unit := modify fun s =>
  { s with graph := { nodes := s.graph.nodes.modify id fun n => { n with body } } }

def emptyNode (line : Nat) : Build Nat := add { body := .scalar "" true, line }

def nameNode (anchor : Option String) (id line : Nat) : Build Unit := do
  match anchor with
  | none => pure ()
  | some a =>
    if ((← get).anchors.lookup a).isSome then throw line
    modify fun s => { s with anchors := (a, id) :: s.anchors }

structure Properties where
  anchor : Option String := none
  tag : Option (String × String × Nat) := none
  line : Option Nat := none

def properties : Build Properties := do
  let t ← peek
  match t.kind with
  | .anchor a =>
    skip
    let u ← peek
    match u.kind with
    | .tag h x =>
      skip
      return { anchor := some a, tag := some (h, x, u.line), line := some t.line }
    | _ => return { anchor := some a, line := some t.line }
  | .tag h x =>
    skip
    let u ← peek
    match u.kind with
    | .anchor a =>
      skip
      return { anchor := some a, tag := some (h, x, t.line), line := some t.line }
    | _ => return { tag := some (h, x, t.line), line := some t.line }
  | _ => return {}

def fullTag : Option (String × String × Nat) → Build (Option String)
  | none => return none
  | some ("", suffix, _) => return some suffix
  | some (handle, suffix, line) => do
    match (← get).handles.lookup handle with
    | some value => return some (value ++ suffix)
    | none => throw line

mutual
/-- Builds the node that comes next. In a mapping a sequence may stand without further
indentation. -/
def node (fuel : Nat) (block indentless : Bool) : Build Nat := do
  match fuel with
  | 0 => throw (← peek).line
  | fuel + 1 =>
    let first ← peek
    match first.kind with
    | .alias name =>
      skip
      match (← get).anchors.lookup name with
      | some id => return id
      | none => throw first.line
    | _ =>
      let p ← properties
      let tag ← fullTag p.tag
      let t ← peek
      let line := p.line.getD t.line
      let collected := if tag = some "!" then none else tag
      let start (body : NodeBody) : Build Nat := do
        let id ← add { body, tag := collected, line }
        nameNode p.anchor id line
        return id
      let row (items : Build (List Nat)) : Build Nat := do
        let id ← start (.sequence [])
        setBody id (.sequence (← items))
        return id
      let table (pairs : Build (List (Nat × Nat))) : Build Nat := do
        let id ← start (.mapping [])
        setBody id (.mapping (← pairs))
        return id
      match t.kind, block with
      | .scalar text plain, _ =>
        skip
        start (.scalar text (tag = some "!" || (plain && tag = none)))
      | .flowSequenceStart, _ =>
        skip
        row (flowItems fuel true)
      | .flowMappingStart, _ =>
        skip
        table (flowPairs fuel true)
      | .blockSequenceStart, true =>
        skip
        row (blockItems fuel)
      | .blockMappingStart, true =>
        skip
        table (blockPairs fuel)
      | kind, _ =>
        if indentless && kind = .blockEntry then row (indentlessItems fuel)
        else if p.line.isSome then start (.scalar "" (tag = none))
        else throw t.line

def blockItems (fuel : Nat) : Build (List Nat) := do
  let t ← peek
  match fuel, t.kind with
  | fuel + 1, .blockEntry =>
    skip
    let id ← if ← nextIn [.blockEntry, .blockEnd] then emptyNode t.line else node fuel true false
    return id :: (← blockItems fuel)
  | _, .blockEnd =>
    skip
    return []
  | _, _ => throw t.line

def indentlessItems (fuel : Nat) : Build (List Nat) := do
  let t ← peek
  match fuel, t.kind with
  | fuel + 1, .blockEntry =>
    skip
    let id ← if ← nextIn [.blockEntry, .key, .value, .blockEnd] then emptyNode t.line
      else node fuel true false
    return id :: (← indentlessItems fuel)
  | _, _ => return []

/-- The value of a pair in a block; it may be missing. -/
def blockValue (fuel : Nat) : Build Nat := do
  let t ← peek
  match fuel, t.kind with
  | fuel + 1, .value =>
    skip
    if ← nextIn [.key, .value, .blockEnd] then emptyNode t.line else node fuel true true
  | _, _ => emptyNode t.line

def blockPairs (fuel : Nat) : Build (List (Nat × Nat)) := do
  let t ← peek
  match fuel, t.kind with
  | fuel + 1, .key =>
    skip
    let k ← if ← nextIn [.key, .value, .blockEnd] then emptyNode t.line else node fuel true true
    let v ← blockValue fuel
    return (k, v) :: (← blockPairs fuel)
  | _, .blockEnd =>
    skip
    return []
  | _, _ => throw t.line

/-- The value of a pair in a flow collection; it may be missing. -/
def flowValue (fuel : Nat) (closing : TokenKind) : Build Nat := do
  let t ← peek
  match fuel, t.kind with
  | fuel + 1, .value =>
    skip
    if ← nextIn [.flowEntry, closing] then emptyNode t.line else node fuel false false
  | _, _ => emptyNode t.line

def flowItems (fuel : Nat) (first : Bool) : Build (List Nat) := do
  match fuel with
  | 0 => throw (← peek).line
  | fuel + 1 =>
    if ← nextIn [.flowSequenceEnd] then
      skip
      return []
    if !first then
      if ← nextIn [.flowEntry] then skip else throw (← peek).line
    let t ← peek
    match t.kind with
    | .flowSequenceEnd =>
      skip
      return []
    | .key =>
      skip
      let id ← add { body := .mapping [], line := t.line }
      let u ← peek
      let k ← if ← nextIn [.value, .flowEntry, .flowSequenceEnd] then
          skip
          emptyNode u.line
        else node fuel false false
      let v ← flowValue fuel .flowSequenceEnd
      setBody id (.mapping [(k, v)])
      return id :: (← flowItems fuel false)
    | _ =>
      let id ← node fuel false false
      return id :: (← flowItems fuel false)

def flowPairs (fuel : Nat) (first : Bool) : Build (List (Nat × Nat)) := do
  match fuel with
  | 0 => throw (← peek).line
  | fuel + 1 =>
    if ← nextIn [.flowMappingEnd] then
      skip
      return []
    if !first then
      if ← nextIn [.flowEntry] then skip else throw (← peek).line
    let t ← peek
    match t.kind with
    | .flowMappingEnd =>
      skip
      return []
    | .key =>
      skip
      let k ← if ← nextIn [.value, .flowEntry, .flowMappingEnd] then emptyNode t.line
        else node fuel false false
      let v ← flowValue fuel .flowMappingEnd
      return (k, v) :: (← flowPairs fuel false)
    | _ =>
      let k ← node fuel false false
      let v ← emptyNode t.line
      return (k, v) :: (← flowPairs fuel false)
end

/-! ## Documents -/

def standardHandles : List (String × String) := [("!", "!"), ("!!", "tag:yaml.org,2002:")]

/-- Reads the directives before a document and puts its handles in force. -/
def directives : Nat → Bool → List (String × String) → Build Unit
  | 0, _, _ => pure ()
  | fuel + 1, versioned, handles => do
    let t ← peek
    match t.kind with
    | .versionDirective major minor =>
      if versioned || major ≠ 1 || (minor ≠ 1 && minor ≠ 2) then throw t.line
      skip
      directives fuel true handles
    | .tagDirective handle value =>
      if (handles.lookup handle).isSome then throw t.line
      skip
      directives fuel versioned ((handle, value) :: handles)
    | _ => modify fun s => { s with handles := handles ++ standardHandles }

def atDirective : Build Bool := do
  match (← peek).kind with
  | .versionDirective _ _ | .tagDirective _ _ => return true
  | _ => return false

/-- Reads what stands before a document that is announced by a marker. -/
def explicitStart : Build Unit := do
  directives ((← get).tokens.length + 1) false []
  let t ← peek
  if t.kind = .documentStart then skip else throw t.line

def root : Build Nat := do
  let fuel := 2 * (← get).tokens.length + 4
  if (← atDirective) || (← nextIn [.documentStart]) then
    explicitStart
    let t ← peek
    if (← atDirective) || (← nextIn [.documentStart, .documentEnd, .streamEnd]) then emptyNode t.line
    else node fuel true false
  else
    directives 1 false []
    node fuel true false

/-- The root of the only document, if there is one. -/
def document : Build (Option Nat) := do
  if ← nextIn [.streamEnd] then return none
  let id ← root
  modify fun s => { s with tokens := s.tokens.dropWhile fun t => t.kind = .documentEnd }
  let t ← peek
  if t.kind = .streamEnd then return some id
  explicitStart
  throw t.line

end Build

/-- The graph of a text and its root; or the line that is at fault. -/
def Graph.ofText (text : List Char) : Except Nat (Option Nat × Graph) :=
  let row := TokenRow.ofText text
  match Build.document.run { tokens := row.tokens, fault := row.fault } with
  | .ok (root, s) => .ok (root, s.graph)
  | .error line => .error line

end InterfaceKit.Yaml
