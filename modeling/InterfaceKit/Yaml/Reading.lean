import InterfaceKit.Yaml.Token

/-!
# The state of reading tokens

What has been read of the text, which blocks are open, and which token may still turn out to be a
key: that is known only when a colon follows it, and its key token then comes before it.
-/
namespace InterfaceKit.Yaml

structure Mark where
  index : Nat := 0
  line : Nat := 0
  column : Nat := 0
  deriving DecidableEq, Repr, Inhabited

/-- A token that may be a key. It must be one when it stands where its block expects a key. -/
structure Candidate where
  required : Bool
  number : Nat
  mark : Mark
  deriving DecidableEq, Repr, Inhabited

structure Reading where
  rest : List Char
  mark : Mark := {}
  /-- How many flow collections are open. -/
  flow : Nat := 0
  /-- The column of the innermost block; below zero outside of all. -/
  indent : Int := -1
  indents : List Int := []
  keyAllowed : Bool := true
  /-- The candidates, one for each level of flow collections, the innermost first. -/
  candidates : List (Option Candidate) := [none]
  delivered : Nat := 0
  queue : List Token := []
  finished : Bool := false

/-- A step of reading; it may fail on the line that it has come to. -/
abbrev Scan := StateT Reading (Except Nat)

namespace Scan

def fail {α : Type} : Scan α := do throw (← get).mark.line

def charAt (n : Nat) : Scan Char := do return ((← get).rest.drop n).headD '\x00'

def peek : Scan Char := charAt 0

def skip : Scan Unit := modify fun s =>
  { s with
    rest := s.rest.drop 1
    mark := { s.mark with index := s.mark.index + 1, column := s.mark.column + 1 } }

def skipBy : Nat → Scan Unit
  | 0 => pure ()
  | n + 1 => do
    skip
    skipBy n

/-- The line break at the front of a text: how many characters it takes and what it counts as. -/
def breakAt : List Char → Nat × List Char
  | '\r' :: '\n' :: _ => (2, ['\n'])
  | c :: _ =>
    if c = '\r' || c = '\n' || c.toNat = 0x85 then (1, ['\n'])
    else if isBreak c then (1, [c])
    else (0, [])
  | [] => (0, [])

/-- Goes on behind a line break, if there is one, and gives what it counts as. -/
def readBreak : Scan (List Char) := do
  let s ← get
  let (n, text) := breakAt s.rest
  if n = 0 then return []
  set { s with
    rest := s.rest.drop n
    mark := { index := s.mark.index + n, line := s.mark.line + 1, column := 0 } }
  return text

def skipWhile (p : Char → Bool) : Scan (List Char) := do
  let s ← get
  let text := s.rest.takeWhile p
  set { s with
    rest := s.rest.drop text.length
    mark := { s.mark with
      index := s.mark.index + text.length
      column := s.mark.column + text.length } }
  return text

/-- More than the number of characters that are left. -/
def fuel : Scan Nat := do return (← get).rest.length + 2

def emit (kind : TokenKind) (line : Nat) : Scan Unit := modify fun s =>
  { s with queue := s.queue ++ [{ kind, line }] }

/-- Puts a token before the one with the given number. -/
def insert (number : Nat) (kind : TokenKind) (line : Nat) : Scan Unit := modify fun s =>
  let n := number - s.delivered
  { s with queue := s.queue.take n ++ { kind, line } :: s.queue.drop n }

/-- Opens a block at a column, unless one is open there. -/
def openBlock (column : Int) (number : Option Nat) (kind : TokenKind) (line : Nat) : Scan Unit := do
  let s ← get
  if s.flow = 0 && s.indent < column then
    set { s with indents := s.indent :: s.indents, indent := column }
    match number with
    | some n => insert n kind line
    | none => emit kind line

/-- Closes the blocks that are indented further than a column. -/
def closeBlocks (column : Int) : Scan Unit := modify fun s =>
  if s.flow = 0 then
    let closed := (s.indent :: s.indents).takeWhile (· > column)
    let left := (s.indent :: s.indents).drop closed.length
    { s with
      indent := left.headD (-1)
      indents := left.drop 1
      queue := s.queue ++ closed.map fun _ => { kind := .blockEnd, line := s.mark.line } }
  else s

def setCandidate (c : Option Candidate) : Scan Unit := modify fun s =>
  { s with candidates := c :: s.candidates.drop 1 }

/-- Gives up the candidate of the innermost level; a required one must not be given up. -/
def dropCandidate : Scan Unit := do
  match (← get).candidates.headD none with
  | some c =>
    if c.required then fail
    setCandidate none
  | none => pure ()

def noteCandidate : Scan Unit := do
  let s ← get
  if s.keyAllowed then
    let required := s.flow = 0 && s.indent = (s.mark.column : Int)
    dropCandidate
    setCandidate (some { required, number := s.delivered + s.queue.length, mark := s.mark })

/-- A key stays on one line and is short. -/
def Candidate.isStale (c : Candidate) (m : Mark) : Bool :=
  c.mark.line < m.line || c.mark.index + 1024 < m.index

/-- Gives up the candidates that have become stale, the outermost first. -/
def refreshFrom : List (Option Candidate) → Scan (List (Option Candidate))
  | [] => return []
  | c :: rest => do
    let rest ← refreshFrom rest
    match c with
    | some k =>
      if Candidate.isStale k (← get).mark then
        if k.required then fail
        return none :: rest
      else return c :: rest
    | none => return none :: rest

def refresh : Scan Unit := do
  let candidates ← refreshFrom (← get).candidates
  modify fun s => { s with candidates }

def allowKey (b : Bool) : Scan Unit := modify fun s => { s with keyAllowed := b }

def line : Scan Nat := do return (← get).mark.line

end Scan

end InterfaceKit.Yaml
