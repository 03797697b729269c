import InterfaceKit.Number.Double
import InterfaceKit.Text.Escape
import InterfaceKit.Text.Word

/-!
# Tokens of templates

A template is text with outputs in double braces, tags in braces with percent signs, and comments in
braces with number signs. The line break behind a tag or a comment does not count, nor do the blanks
before one that starts its line; a minus sign at either end takes away all blanks and line breaks
there, a plus sign keeps them.
-/
namespace InterfaceKit.Template
open Number

inductive TokenKind where
  | text (s : String)
  | outputStart
  | outputEnd
  | tagStart
  | tagEnd
  | word (s : String)
  | string (s : String)
  | int (n : Nat)
  | float (d : Double)
  | mark (s : String)
  deriving DecidableEq, Repr, Inhabited

structure Token where
  kind : TokenKind
  line : Nat
  deriving DecidableEq, Repr, Inhabited

structure Fault where
  message : String
  line : Nat
  deriving DecidableEq, Repr, Inhabited

/-- What a brace opens. -/
inductive Opening where
  | output | tag | comment
  deriving DecidableEq, Repr

def opening? : List Char → Option (Opening × List Char)
  | '\x7b' :: '\x7b' :: rest => some (.output, rest)
  | '\x7b' :: '%' :: rest => some (.tag, rest)
  | '\x7b' :: '#' :: rest => some (.comment, rest)
  | _ => none

def splitText : List Char → List Char × Option (Opening × List Char)
  | [] => ([], none)
  | c :: cs =>
    match opening? (c :: cs) with
    | some found => ([], some found)
    | none =>
      let (text, found) := splitText cs
      (c :: text, found)

def newlines (cs : List Char) : Nat := cs.count '\n'

/-- The text before an opening with the given sign, as it counts. `fresh` tells whether the text
starts a line. -/
def trimText (o : Opening) (sign : Option Char) (fresh : Bool) (text : List Char) : List Char :=
  if sign = some '-' then (text.reverse.dropWhile Text.isBlank).reverse
  else if sign = some '+' || o = .output then text
  else
    let back := text.reverse
    let lastLine := back.takeWhile (· ≠ '\n')
    let before := back.dropWhile (· ≠ '\n')
    if (!before.isEmpty || fresh) && lastLine.all Text.isBlank then before.reverse else text

def takeSign : List Char → Option Char × List Char
  | '-' :: rest => (some '-', rest)
  | '+' :: rest => (some '+', rest)
  | rest => (none, rest)

/-- What follows a closing with the given sign, and what was skipped there. -/
def afterClosing (o : Opening) (sign : Option Char) (rest : List Char) : List Char × List Char :=
  if sign = some '-' then (rest.dropWhile Text.isBlank, rest.takeWhile Text.isBlank)
  else
    match sign, o, rest with
    | none, .tag, '\n' :: r | none, .comment, '\n' :: r => (r, ['\n'])
    | _, _, r => (r, [])

def closing : Opening → List Char
  | .output => ['\x7d', '\x7d']
  | .tag => ['%', '\x7d']
  | .comment => ['#', '\x7d']

def closing? (o : Opening) (cs : List Char) : Option (Option Char × List Char) :=
  let end1 := closing o
  let signed (s : Char) := Text.startsWith (s :: end1) cs
  if signed '-' then some (some '-', cs.drop (end1.length + 1))
  else if signed '+' && o ≠ .output then some (some '+', cs.drop (end1.length + 1))
  else if Text.startsWith end1 cs then some (none, cs.drop end1.length)
  else none

def splitComment : List Char → Option (List Char × Option Char × List Char)
  | [] => none
  | c :: cs =>
    match closing? .comment (c :: cs) with
    | some (sign, rest) => some ([], sign, rest)
    | none => (splitComment cs).map fun (body, found) => (c :: body, found)

/-! ## Inside of braces -/

def marks : List String :=
  ["//", "**", "==", "!=", ">=", "<=", "+", "-", "/", "*", "%", "~", "[", "]", "(", ")", "\x7b",
    "\x7d", ">", "<", "=", ".", ":", "|", ",", ";"]

/-- The body of a quoted text up to its closing quote, escapes included. -/
def quotedBody (q : Char) : List Char → Option (List Char × List Char)
  | [] => none
  | '\\' :: c :: cs => (quotedBody q cs).map fun (body, rest) => ('\\' :: c :: body, rest)
  | c :: cs =>
    if c = q then some ([], cs) else (quotedBody q cs).map fun (body, rest) => (c :: body, rest)

/-- A character as the escape of its code point, where it is not ASCII. -/
def asciiEscape (c : Char) : List Char :=
  let hex (width n : Nat) : List Char :=
    (List.range width).reverse.map fun i => (Nat.toDigits 16 (n / Nat.pow 16 i % 16)).headD '0'
  if c.toNat < 128 then [c]
  else if c.toNat < 256 then ['\\', 'x'] ++ hex 2 c.toNat
  else if c.toNat < 0x10000 then ['\\', 'u'] ++ hex 4 c.toNat
  else ['\\', 'U'] ++ hex 8 c.toNat

def unescape (body : List Char) : Option String :=
  match Text.Escape.decodeText (body.flatMap asciiEscape) with
  | .ok codes => some (String.ofList (codes.map Char.ofNat))
  | .error _ => none

def digitValue (cs : List Char) : Nat :=
  (cs.filter (· ≠ '_')).foldl (fun n c => n * 10 + (c.toNat - '0'.toNat)) 0

def number (cs : List Char) : TokenKind × List Char :=
  let isPart (c : Char) := c.isDigit || c = '_'
  let whole := cs.takeWhile isPart
  let rest := cs.dropWhile isPart
  let (fraction, afterFraction) := match rest with
    | '.' :: d :: r =>
      if d.isDigit then ((d :: r).takeWhile isPart, (d :: r).dropWhile isPart) else ([], rest)
    | r => ([], r)
  let exponent? : Option (Int × List Char) := match afterFraction with
    | e :: r =>
      if e = 'e' || e = 'E' then
        let (negative, r) := match r with
          | '-' :: r => (true, r)
          | '+' :: r => (false, r)
          | r => (false, r)
        let digits := r.takeWhile isPart
        if digits.isEmpty then none
        else
          let n : Int := digitValue digits
          some (if negative then -n else n, r.dropWhile isPart)
      else none
    | [] => none
  let places := (fraction.filter (· ≠ '_')).length
  match exponent? with
  | some (e, r) => (.float (.ofDecimal false (digitValue (whole ++ fraction)) (e - places)), r)
  | none =>
    if fraction.isEmpty then (.int (digitValue whole), rest)
    else (.float (.ofDecimal false (digitValue (whole ++ fraction)) (-places)), afterFraction)

/-- The token at the front of a text that starts with no blank. -/
def codeToken (line : Nat) (cs : List Char) : Except Fault (TokenKind × List Char) :=
  match cs with
  | [] => .error ⟨"unexpected end of template", line⟩
  | c :: rest =>
    if c = '\'' || c = '"' then
      match quotedBody c rest with
      | none => .error ⟨"unexpected char " ++ String.ofList ['"', c, '"'], line⟩
      | some (body, rest) =>
        match unescape body with
        | some s => .ok (.string s, rest)
        | none => .error ⟨"unicode error", line⟩
    else if c.isDigit then .ok (number cs)
    else if Text.isWord c then
      .ok (.word (String.ofList (cs.takeWhile Text.isWord)), cs.dropWhile Text.isWord)
    else
      match marks.find? fun m => Text.startsWith m.toList cs with
      | some m => .ok (.mark m, cs.drop m.length)
      | none => .error ⟨"unexpected char " ++ String.ofList ['\'', c, '\''], line⟩

/-- Whether a mark opens or closes a bracket. -/
def bracketStep (depth : Nat) : TokenKind → Nat
  | .mark "(" | .mark "[" | .mark "\x7b" => depth + 1
  | .mark ")" | .mark "]" | .mark "\x7d" => depth - 1
  | _ => depth

/-- The tokens inside of braces up to the closing, which does not count inside of brackets. -/
def codeTokens (o : Opening) : Nat → Nat → Nat → List Char →
    Except Fault (List Token × Nat × Option Char × List Char)
  | 0, _, line, _ => .error ⟨"unexpected end of template", line⟩
  | fuel + 1, depth, line, cs =>
    let blanks := cs.takeWhile Text.isBlank
    let line := line + newlines blanks
    let cs := cs.dropWhile Text.isBlank
    match if depth = 0 then closing? o cs else none with
    | some (sign, rest) => .ok ([], line, sign, rest)
    | none => do
      let (kind, rest) ← codeToken line cs
      let used := cs.take (cs.length - rest.length)
      let (tokens, found) ← codeTokens o fuel (bracketStep depth kind) (line + newlines used) rest
      .ok ({ kind, line } :: tokens, found)

def textToken (line : Nat) (cs : List Char) : List Token :=
  if cs.isEmpty then [] else [{ kind := .text (String.ofList cs), line }]

def tokensUpTo : Nat → Bool → Nat → List Char → Except Fault (List Token)
  | 0, _, _, _ => .ok []
  | fuel + 1, fresh, line, cs =>
    let (text, found) := splitText cs
    match found with
    | none => .ok (textToken line text)
    | some (o, rest) => do
      let (sign, rest) := takeSign rest
      let before := textToken line (trimText o sign fresh text)
      let line := line + newlines text
      match o with
      | .comment =>
        match splitComment rest with
        | none => .error ⟨"Missing end of comment tag", line⟩
        | some (body, sign, rest) =>
          let (rest, skipped) := afterClosing .comment sign rest
          let tokens ← tokensUpTo fuel (skipped.getLast? = some '\n')
            (line + newlines body + newlines skipped) rest
          .ok (before ++ tokens)
      | o =>
        let (start, finish) : TokenKind × TokenKind :=
          if o = .output then (.outputStart, .outputEnd) else (.tagStart, .tagEnd)
        let (code, last, sign, rest) ← codeTokens o (rest.length + 1) 0 line rest
        let (rest, skipped) := afterClosing o sign rest
        let tokens ← tokensUpTo fuel (skipped.getLast? = some '\n') (last + newlines skipped) rest
        .ok (before ++ { kind := start, line } :: code ++ { kind := finish, line := last } :: tokens)

/-- A text with every line break written as a line feed, without the one at its end. -/
def normalize (cs : List Char) : List Char :=
  let rec unify : List Char → List Char
    | '\r' :: '\n' :: r => '\n' :: unify r
    | '\r' :: r => '\n' :: unify r
    | c :: r => c :: unify r
    | [] => []
  let cs := unify cs
  if cs.getLast? = some '\n' then cs.dropLast else cs

def tokens (source : String) : Except Fault (List Token) :=
  let cs := normalize source.toList
  tokensUpTo (cs.length + 1) true 1 cs

end InterfaceKit.Template
