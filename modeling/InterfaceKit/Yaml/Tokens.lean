import InterfaceKit.Yaml.Scalar

/-!
# From a text to its tokens

Tokens are delivered as soon as it is certain that no key token has to come before them. So a text
with a fault in it still has the tokens that could be delivered before the fault was met.
-/
namespace InterfaceKit.Yaml
namespace Scan

/-! ## Between tokens -/

/-- Skips blanks, comments and line breaks. Tabs are blanks where no key can start. -/
def skipGap : Nat → Scan Unit
  | 0 => pure ()
  | fuel + 1 => do
    let s ← get
    if s.mark.index = 0 && (← peek).toNat = 0xFEFF then skip
    let tabs := s.flow > 0 || !s.keyAllowed
    let _ ← skipWhile fun c => c = ' ' || (tabs && c = '\t')
    if (← peek) = '#' then
      let _ ← skipWhile fun c => !isBreakOrEnd c
    if isBreak (← peek) then
      let _ ← readBreak
      if s.flow = 0 then allowKey true
      skipGap fuel

/-! ## Directives -/

def decimal (digits : List Char) : Nat := digits.foldl (fun n c => n * 10 + (c.toNat - '0'.toNat)) 0

/-- A number of a version: at least one digit and not more than nine. -/
def versionNumber : Scan Nat := do
  let digits ← skipWhile Char.isDigit
  if digits.isEmpty || digits.length > 9 then fail
  return decimal digits

/-- The characters of tags, apart from those that end one in a flow collection. -/
def isTagChar (c : Char) : Bool := isNameChar c || ";/?:@&=+$.%!~*'()".toList.contains c

def isVerbatimChar (c : Char) : Bool := isTagChar c || c = ',' || c = '[' || c = ']'

def percentBytes : List Char → List UInt8
  | '%' :: a :: b :: rest =>
    match hexDigit? a, hexDigit? b with
    | some x, some y => (x * 16 + y).toUInt8 :: percentBytes rest
    | _, _ => []
  | _ => []

/-- Whether each percent sign has two hexadecimal digits behind it. -/
def percentsFit : List Char → Bool
  | '%' :: a :: b :: rest => (hexDigit? a).isSome && (hexDigit? b).isSome && percentsFit rest
  | '%' :: _ => false
  | _ :: rest => percentsFit rest
  | [] => true

def percentDecodeUpTo : Nat → List Char → Option (List Char)
  | 0, _ => some []
  | _ + 1, [] => some []
  | fuel + 1, '%' :: rest =>
    let bytes := percentBytes ('%' :: rest)
    let lead := bytes.headD 0
    let width := if lead < 128 then 1 else if lead < 0xE0 then 2 else if lead < 0xF0 then 3 else 4
    match Text.utf8Decode? (bytes.take width) with
    | some [c] => (percentDecodeUpTo fuel (rest.drop (3 * width - 1))).map (c :: ·)
    | _ => none
  | fuel + 1, c :: rest => (percentDecodeUpTo fuel rest).map (c :: ·)

/-- Reads the text of a tag, of which `before` has been read already. -/
def tagText (verbatim : Bool) (before : List Char) : Scan (List Char) := do
  let text ← skipWhile (if verbatim then isVerbatimChar else isTagChar)
  if before.isEmpty && text.isEmpty then fail
  if !percentsFit text then fail
  match percentDecodeUpTo (text.length + 1) text with
  | some cs => return before ++ cs
  | none => fail

/-- Reads a handle: an exclamation mark, a name, and in most cases another exclamation mark. -/
def tagHandle (directive : Bool) : Scan (List Char) := do
  if (← peek) ≠ '!' then fail
  skip
  let name ← skipWhile isNameChar
  if (← peek) = '!' then
    skip
    return '!' :: name ++ ['!']
  if directive && !name.isEmpty then fail
  return '!' :: name

def directive : Scan Unit := do
  let line ← Scan.line
  skip
  let name ← skipWhile isNameChar
  if name.isEmpty || !isGap (← peek) then fail
  match String.ofList name with
  | "YAML" =>
    let _ ← skipWhile isSpace
    let major ← versionNumber
    if (← peek) ≠ '.' then fail
    skip
    let minor ← versionNumber
    emit (.versionDirective major minor) line
  | "TAG" =>
    let _ ← skipWhile isSpace
    let handle ← tagHandle true
    if !isSpace (← peek) then fail
    let _ ← skipWhile isSpace
    let text ← tagText true []
    if !isGap (← peek) then fail
    emit (.tagDirective (String.ofList handle) (String.ofList text)) line
  | _ => fail
  finishLine

/-! ## Properties of nodes -/

def anchorName : Scan String := do
  skip
  let name ← skipWhile isNameChar
  let c ← peek
  if name.isEmpty || !(isGap c || "?:,]\x7d%@`".toList.contains c) then fail
  return String.ofList name

def tag : Scan Unit := do
  let line ← Scan.line
  if (← charAt 1) = '<' then
    skipBy 2
    let text ← tagText true []
    if (← peek) ≠ '>' then fail
    skip
    emit (.tag "" (String.ofList text)) line
  else
    let handle ← tagHandle false
    if handle.length > 1 && handle.getLast? = some '!' then
      let text ← tagText false []
      emit (.tag (String.ofList handle) (String.ofList text)) line
    else
      let text ← tagText false handle
      if text = ['!'] then emit (.tag "" "!") line
      else emit (.tag "!" (String.ofList (text.drop 1))) line
  let c ← peek
  if !((← get).flow > 0 && c = ',') && !isGap c then fail

/-! ## One token -/

def documentMark (kind : TokenKind) : Scan Unit := do
  closeBlocks (-1)
  dropCandidate
  allowKey false
  let line ← Scan.line
  skipBy 3
  emit kind line

def flowStart (kind : TokenKind) : Scan Unit := do
  noteCandidate
  modify fun s => { s with flow := s.flow + 1, candidates := none :: s.candidates }
  allowKey true
  let line ← Scan.line
  skip
  emit kind line

def flowEnd (kind : TokenKind) : Scan Unit := do
  dropCandidate
  modify fun s =>
    if s.flow = 0 then s else { s with flow := s.flow - 1, candidates := s.candidates.drop 1 }
  allowKey false
  let line ← Scan.line
  skip
  emit kind line

def flowEntry : Scan Unit := do
  dropCandidate
  allowKey true
  let line ← Scan.line
  skip
  emit .flowEntry line

/-- In a block, an indicator may open a block where a key could start. -/
def openHere (kind : TokenKind) : Scan Unit := do
  let s ← get
  if s.flow = 0 then
    if !s.keyAllowed then fail
    openBlock s.mark.column none kind s.mark.line

def blockEntry : Scan Unit := do
  openHere .blockSequenceStart
  dropCandidate
  allowKey true
  let line ← Scan.line
  skip
  emit .blockEntry line

def key : Scan Unit := do
  openHere .blockMappingStart
  dropCandidate
  allowKey ((← get).flow = 0)
  let line ← Scan.line
  skip
  emit .key line

/-- Reads a colon. The candidate, if there is one, becomes a key. -/
def value : Scan Unit := do
  let s ← get
  match s.candidates.headD none with
  | some c =>
    insert c.number .key c.mark.line
    openBlock c.mark.column (some c.number) .blockMappingStart c.mark.line
    setCandidate none
    allowKey false
  | none =>
    openHere .blockMappingStart
    allowKey (s.flow = 0)
  let line ← Scan.line
  skip
  emit .value line

/-- The tokens that may be a key. -/
def content (read : Scan Unit) : Scan Unit := do
  noteCandidate
  allowKey false
  read

def streamEnd : Scan Unit := do
  modify fun s =>
    if s.mark.column = 0 then s
    else { s with mark := { s.mark with line := s.mark.line + 1, column := 0 } }
  closeBlocks (-1)
  dropCandidate
  allowKey false
  emit .streamEnd (← Scan.line)
  modify fun s => { s with finished := true }

/-- Whether a plain text may start with a character, the next one being given. -/
def startsPlain (inFlow : Bool) (c next : Char) : Bool :=
  !(isGap c || "-?:,[]\x7b\x7d#&*!|>'\"%@`".toList.contains c)
    || (c = '-' && !isSpace next)
    || (!inFlow && (c = '?' || c = ':') && !isGap next)

def fetch : Scan Unit := do
  skipGap (← Scan.fuel)
  refresh
  closeBlocks (← get).mark.column
  let s ← get
  let c ← peek
  let next ← charAt 1
  let inFlow := s.flow > 0
  if isEnd c then streamEnd
  else if s.mark.column = 0 && c = '%' then
    closeBlocks (-1)
    dropCandidate
    allowKey false
    directive
  else if ← atDocumentMark then documentMark (if c = '-' then .documentStart else .documentEnd)
  else if c = '[' then flowStart .flowSequenceStart
  else if c = '\x7b' then flowStart .flowMappingStart
  else if c = ']' then flowEnd .flowSequenceEnd
  else if c = '\x7d' then flowEnd .flowMappingEnd
  else if c = ',' then flowEntry
  else if c = '-' && isGap next then blockEntry
  else if c = '?' && (inFlow || isGap next) then key
  else if c = ':' && (inFlow || isGap next) then value
  else if c = '*' then content do
    let line ← Scan.line
    emit (.alias (← anchorName)) line
  else if c = '&' then content do
    let line ← Scan.line
    emit (.anchor (← anchorName)) line
  else if c = '!' then content tag
  else if (c = '|' || c = '>') && !inFlow then
    dropCandidate
    allowKey true
    blockScalar (c = '|')
  else if c = '\'' || c = '"' then content (quotedScalar (c = '\''))
  else if startsPlain inFlow c next then content plainScalar
  else fail

/-- Delivers the tokens at the front of the queue that no key token can come before any more. -/
def deliver : Nat → List Token → Scan (List Token)
  | 0, acc => return acc
  | fuel + 1, acc => do
    let s ← get
    match s.queue with
    | [] => return acc
    | t :: queue =>
      refresh
      if (← get).candidates.any fun c => (c.map (·.number)) = some s.delivered then return acc
      modify fun s => { s with queue, delivered := s.delivered + 1 }
      deliver fuel (t :: acc)

end Scan

/-- The tokens of a text, and the line of the fault that ended them, if there is one. -/
structure TokenRow where
  tokens : List Token
  fault : Option Nat
  deriving Repr

/-- Reads tokens in at most the given number of steps; `acc` holds the delivered ones, last
first. -/
def readTokens : Nat → Reading → List Token → TokenRow
  | 0, _, acc => { tokens := acc.reverse, fault := none }
  | fuel + 1, s, acc =>
    match (Scan.deliver (s.queue.length + 1) acc).run s with
    | .error line => { tokens := acc.reverse, fault := some line }
    | .ok (acc, s) =>
      if s.finished then { tokens := acc.reverse, fault := none }
      else
        match Scan.fetch.run s with
        | .error line => { tokens := acc.reverse, fault := some line }
        | .ok (_, s) => readTokens fuel s acc

def TokenRow.ofText (text : List Char) : TokenRow :=
  readTokens (text.length + 2) { rest := text } []

end InterfaceKit.Yaml
