import InterfaceKit.Text.Lines
import InterfaceKit.Yaml.Reading

/-!
# Scalars

The four ways to write a text: literal and folded blocks, quoted, and plain.
-/
namespace InterfaceKit.Yaml
namespace Scan

/-! ## Blocks -/

/-- What becomes of the line breaks at the end of a block. -/
inductive Chomping where
  | strip | clip | keep
  deriving DecidableEq, Repr

/-- Reads the empty lines before a line of a block, up to its indentation. When that is not known
(zero), it is taken from the line that is furthest in. Gives the line breaks and the indentation. -/
def blockBreaks : Nat → Nat → Nat → List Char → Scan (List Char × Nat)
  | 0, indent, _, breaks => return (breaks, indent)
  | fuel + 1, indent, deepest, breaks => do
    let inIndent (s : Reading) := indent = 0 || s.mark.column < indent
    let s ← get
    let wanted := if indent = 0 then s.rest.length else indent - s.mark.column
    let blanks := (s.rest.takeWhile (· = ' ')).length
    skipBy (min wanted blanks)
    let s ← get
    let deepest := max deepest s.mark.column
    let c ← peek
    if inIndent s && c = '\t' then fail
    else if isBreak c then
      let b ← readBreak
      blockBreaks fuel indent deepest (breaks ++ b)
    else if indent = 0 then
      let least := max (s.indent + 1) 1
      return (breaks, max deepest least.toNat)
    else return (breaks, indent)

/-- What has been read of a block: the text, the break of its last line, the empty lines behind
that, and whether the last line began with a blank. -/
structure BlockText where
  text : List Char := []
  lastBreak : List Char := []
  trailing : List Char := []
  startedBlank : Bool := false

def blockLines (literal : Bool) : Nat → Nat → BlockText → Scan BlockText
  | 0, _, b => return b
  | fuel + 1, indent, b => do
    let c ← peek
    if (← get).mark.column ≠ indent || isEnd c then return b
    let blank := isSpace c
    let folded := !literal && b.lastBreak.head? = some '\n' && !b.startedBlank && !blank
    let text := b.text
      ++ (if folded then (if b.trailing.isEmpty then [' '] else []) else b.lastBreak)
      ++ b.trailing
    let body ← skipWhile fun c => !isBreakOrEnd c
    let lastBreak ← readBreak
    let (trailing, _) ← blockBreaks (← Scan.fuel) indent 0 []
    blockLines literal fuel indent
      { text := text ++ body, lastBreak, trailing, startedBlank := blank }

/-- Reads the marks behind the opening of a block: how to chomp it and how far it is indented. -/
def blockHeader : Scan (Chomping × Nat) := do
  let chomping (c : Char) : Option Chomping :=
    if c = '+' then some .keep else if c = '-' then some .strip else none
  let increment : Scan Nat := do
    let c ← peek
    if c.isDigit then
      if c = '0' then fail
      skip
      return c.toNat - '0'.toNat
    else return 0
  match chomping (← peek) with
  | some ch =>
    skip
    return (ch, ← increment)
  | none =>
    let n ← increment
    if n = 0 then return (.clip, 0)
    match chomping (← peek) with
    | some ch =>
      skip
      return (ch, n)
    | none => return (.clip, n)

/-- The rest of a line may only hold blanks and a comment. -/
def finishLine : Scan Unit := do
  let _ ← skipWhile isSpace
  if (← peek) = '#' then
    let _ ← skipWhile fun c => !isBreakOrEnd c
  if !isBreakOrEnd (← peek) then fail
  let _ ← readBreak

def blockScalar (literal : Bool) : Scan Unit := do
  let line ← Scan.line
  skip
  let (chomping, increment) ← blockHeader
  finishLine
  let outer := (← get).indent
  let known :=
    if increment = 0 then 0 else (if outer ≥ 0 then outer.toNat + increment else increment)
  let (trailing, indent) ← blockBreaks (← Scan.fuel) known 0 []
  let b ← blockLines literal (← Scan.fuel) indent { trailing }
  let ending := match chomping with
    | .strip => []
    | .clip => b.lastBreak
    | .keep => b.lastBreak ++ b.trailing
  emit (.scalar (String.ofList (b.text ++ ending)) false) line

/-! ## Folding -/

/-- The gap between two words: blanks in a line, or line breaks. -/
structure Gap where
  blanks : List Char := []
  broken : Bool := false
  first : List Char := []
  more : List Char := []

namespace Gap

/-- A single line break counts as a blank, and of several the first one does not count. -/
def text (g : Gap) : List Char :=
  if g.broken then
    if g.first.head? = some '\n' then (if g.more.isEmpty then [' '] else g.more)
    else g.first ++ g.more
  else g.blanks

def addBreak (g : Gap) (b : List Char) : Gap :=
  if g.broken then { g with more := g.more ++ b }
  else { g with blanks := [], broken := true, first := b }

end Gap

/-- Reads a gap. With an indentation, no tab may stand in a new line before it. -/
def readGap (indent : Option Int) : Nat → Gap → Scan Gap
  | 0, g => return g
  | fuel + 1, g => do
    let c ← peek
    if isSpace c then
      match indent with
      | some n => if g.broken && ((← get).mark.column : Int) < n && c = '\t' then fail
      | none => pure ()
      skip
      readGap indent fuel (if g.broken then g else { g with blanks := g.blanks ++ [c] })
    else if isBreak c then
      let b ← readBreak
      readGap indent fuel (g.addBreak b)
    else return g

def atDocumentMark : Scan Bool := do
  let s ← get
  return s.mark.column = 0
    && (Text.startsWith "---".toList s.rest || Text.startsWith "...".toList s.rest)
    && isGap ((s.rest.drop 3).headD '\x00')

/-! ## Quoted -/

def simpleEscape? (c : Char) : Option Nat :=
  [('0', 0), ('a', 7), ('b', 8), ('t', 9), ('\t', 9), ('n', 10), ('v', 11), ('f', 12), ('r', 13),
    ('e', 27), (' ', 32), ('"', 34), ('/', 47), ('\\', 92), ('N', 0x85), ('_', 0xA0),
    ('L', 0x2028), ('P', 0x2029)].lookup c

def hexWidth? (c : Char) : Option Nat := [('x', 2), ('u', 4), ('U', 8)].lookup c

def hexDigit? (c : Char) : Option Nat :=
  if '0' ≤ c && c ≤ '9' then some (c.toNat - '0'.toNat)
  else if 'a' ≤ c && c ≤ 'f' then some (c.toNat - 'a'.toNat + 10)
  else if 'A' ≤ c && c ≤ 'F' then some (c.toNat - 'A'.toNat + 10)
  else none

def hexNumber? : Nat → Nat → List Char → Option Nat
  | 0, n, _ => some n
  | _ + 1, _, [] => none
  | width + 1, n, c :: cs => (hexDigit? c).bind fun d => hexNumber? width (n * 16 + d) cs

def escape : Scan Char := do
  let c ← charAt 1
  match simpleEscape? c, hexWidth? c with
  | some n, _ =>
    skipBy 2
    return Char.ofNat n
  | none, some width =>
    skipBy 2
    match hexNumber? width 0 (← get).rest with
    | some n =>
      if (0xD800 ≤ n && n ≤ 0xDFFF) || n > 0x10FFFF then fail
      skipBy width
      return Char.ofNat n
    | none => fail
  | none, none => fail

/-- Reads the characters of a quoted text up to a gap or the closing quote. The second part of the
answer tells whether an escaped line break was met. -/
def quotedWord (single : Bool) : Nat → List Char → Scan (List Char × Bool)
  | 0, acc => return (acc, false)
  | fuel + 1, acc => do
    let c ← peek
    if isGap c then return (acc, false)
    let d ← charAt 1
    if single && c = '\'' && d = '\'' then
      skipBy 2
      quotedWord single fuel (acc ++ ['\''])
    else if c = (if single then '\'' else '"') then return (acc, false)
    else if !single && c = '\\' && isBreak d then
      skip
      let _ ← readBreak
      return (acc, true)
    else if !single && c = '\\' then
      let e ← escape
      quotedWord single fuel (acc ++ [e])
    else
      skip
      quotedWord single fuel (acc ++ [c])

def quotedText (single : Bool) : Nat → List Char → Scan (List Char)
  | 0, acc => return acc
  | fuel + 1, acc => do
    if ← atDocumentMark then fail
    if isEnd (← peek) then fail
    let (acc, escaped) ← quotedWord single (← Scan.fuel) acc
    if (← peek) = (if single then '\'' else '"') then return acc
    let gap ← readGap none (← Scan.fuel) { broken := escaped }
    quotedText single fuel (acc ++ gap.text)

def quotedScalar (single : Bool) : Scan Unit := do
  let line ← Scan.line
  skip
  let text ← quotedText single (← Scan.fuel) []
  skip
  emit (.scalar (String.ofList text) false) line

/-! ## Plain -/

def isFlowMark (c : Char) : Bool := c = ',' || c = '[' || c = ']' || c = '\x7b' || c = '\x7d'

/-- Reads the characters of a plain text up to a gap or a mark that ends it. -/
def plainWord : Nat → List Char → Scan (List Char)
  | 0, acc => return acc
  | fuel + 1, acc => do
    let c ← peek
    if isGap c then return acc
    let d ← charAt 1
    let inFlow := (← get).flow > 0
    if inFlow && c = ':' && isFlowMark d then fail
    if (c = ':' && isGap d) || (inFlow && isFlowMark c) then return acc
    skip
    plainWord fuel (acc ++ [c])

/-- Reads words and the gaps between them; the gap behind the last word does not count. The second
part of the answer tells whether that gap went over a line. -/
def plainText (indent : Int) : Nat → List Char → Gap → Scan (List Char × Bool)
  | 0, acc, gap => return (acc, gap.broken)
  | fuel + 1, acc, gap => do
    if ← atDocumentMark then return (acc, gap.broken)
    if (← peek) = '#' then return (acc, gap.broken)
    let word ← plainWord (← Scan.fuel) []
    let (acc, gap) := if word.isEmpty then (acc, gap) else (acc ++ gap.text ++ word, {})
    let c ← peek
    if !(isSpace c || isBreak c) then return (acc, gap.broken)
    let gap ← readGap (some indent) (← Scan.fuel) gap
    let s ← get
    if s.flow = 0 && (s.mark.column : Int) < indent then return (acc, gap.broken)
    plainText indent fuel acc gap

def plainScalar : Scan Unit := do
  let line ← Scan.line
  let indent := (← get).indent + 1
  let (text, broken) ← plainText indent (← Scan.fuel) [] {}
  emit (.scalar (String.ofList text) true) line
  if broken then allowKey true

end Scan

end InterfaceKit.Yaml
