import InterfaceKit.Json

/-!
# Reading JSON documents

The inverse of writing them. A number with a fraction or an exponent is a float, any other an
integer.
-/
namespace InterfaceKit.Json
open Number

def isJsonBlank (c : Char) : Bool := c = ' ' || c = '\t' || c = '\n' || c = '\r'

def skipBlanks (cs : List Char) : List Char := cs.dropWhile isJsonBlank

def hexDigitValue? (c : Char) : Option Nat :=
  if c.isDigit then some (c.toNat - '0'.toNat)
  else if 'a' ≤ c && c ≤ 'f' then some (c.toNat - 'a'.toNat + 10)
  else if 'A' ≤ c && c ≤ 'F' then some (c.toNat - 'A'.toNat + 10)
  else none

/-- The 16-bit unit that four digits stand for, and what follows them. -/
def readUnit : List Char → Option (Nat × List Char)
  | a :: b :: c :: d :: rest => do
    let digits ← [a, b, c, d].mapM hexDigitValue?
    return (digits.foldl (fun n k => 16 * n + k) 0, rest)
  | _ => none

def escapedLetter (c : Char) : Char :=
  match c with
  | 'n' => '\n'
  | 't' => '\t'
  | 'r' => '\r'
  | 'b' => '\x08'
  | 'f' => '\x0c'
  | c => c

/-- The character at the front of a quoted text; two units may stand for one character. -/
def readCharacter : List Char → Option (Char × List Char)
  | '\\' :: 'u' :: cs => do
    let (n, rest) ← readUnit cs
    if 0xD800 ≤ n && n < 0xDC00 then
      match rest with
      | '\\' :: 'u' :: more =>
        let (m, rest) ← readUnit more
        return (Char.ofNat (0x10000 + (n - 0xD800) * 1024 + (m - 0xDC00)), rest)
      | _ => return (Char.ofNat 0xFFFD, rest)
    else return (Char.ofNat n, rest)
  | '\\' :: c :: cs => some (escapedLetter c, cs)
  | c :: cs => some (c, cs)
  | [] => none

def readCharacters : Nat → List Char → Option (List Char × List Char)
  | _, '"' :: cs => some ([], cs)
  | 0, _ => none
  | fuel + 1, cs => do
    let (c, rest) ← readCharacter cs
    let (more, rest) ← readCharacters fuel rest
    return (c :: more, rest)

def decimalValue (cs : List Char) : Nat := cs.foldl (fun n c => n * 10 + (c.toNat - '0'.toNat)) 0

def isNumberPart (c : Char) : Bool :=
  c.isDigit || c = '-' || c = '+' || c = '.' || c = 'e' || c = 'E'

def numberOf (cs : List Char) : Option Json :=
  let negative := cs.head? = some '-'
  let body := if negative then cs.drop 1 else cs
  let whole := body.takeWhile Char.isDigit
  let tail := body.dropWhile Char.isDigit
  if whole.isEmpty then none
  else if tail.isEmpty then
    let n : Int := decimalValue whole
    some (.int (if negative then -n else n))
  else
    let (fraction, tail) := match tail with
      | '.' :: t => (t.takeWhile Char.isDigit, t.dropWhile Char.isDigit)
      | t => ([], t)
    let exponent : Int := match tail with
      | _ :: '-' :: t => -(decimalValue t : Int)
      | _ :: '+' :: t => decimalValue t
      | _ :: t => decimalValue t
      | [] => 0
    some (.float (.ofDecimal negative (decimalValue (whole ++ fraction))
      (exponent - fraction.length)))

def afterWord (word cs : List Char) : Option (List Char) :=
  if word.isPrefixOf cs then some (cs.drop word.length) else none

mutual
def readDocument (fuel : Nat) (cs : List Char) : Option (Json × List Char) :=
  match fuel with
  | 0 => none
  | fuel + 1 =>
    match skipBlanks cs with
    | '"' :: rest => do
      let (s, rest) ← readCharacters rest.length rest
      return (.text (String.ofList s), rest)
    | '[' :: rest => do
      let (items, rest) ← readItems fuel (skipBlanks rest)
      return (.array items, rest)
    | '\x7b' :: rest => do
      let (members, rest) ← readMembers fuel (skipBlanks rest)
      return (.object members, rest)
    | 't' :: rest => do return (.bool true, ← afterWord "rue".toList rest)
    | 'f' :: rest => do return (.bool false, ← afterWord "alse".toList rest)
    | 'n' :: rest => do return (.null, ← afterWord "ull".toList rest)
    | rest => do return (← numberOf (rest.takeWhile isNumberPart), rest.dropWhile isNumberPart)

def readItems (fuel : Nat) (cs : List Char) : Option (List Json × List Char) :=
  match fuel with
  | 0 => none
  | fuel + 1 =>
    match cs with
    | ']' :: rest => some ([], rest)
    | ',' :: rest => readItems fuel (skipBlanks rest)
    | rest => do
      let (item, rest) ← readDocument fuel rest
      let (items, rest) ← readItems fuel (skipBlanks rest)
      return (item :: items, rest)

def readMembers (fuel : Nat) (cs : List Char) : Option (List (String × Json) × List Char) :=
  match fuel with
  | 0 => none
  | fuel + 1 =>
    match cs with
    | '\x7d' :: rest => some ([], rest)
    | ',' :: rest => readMembers fuel (skipBlanks rest)
    | '"' :: rest => do
      let (key, rest) ← readCharacters rest.length rest
      let rest ← afterWord [':'] (skipBlanks rest)
      let (value, rest) ← readDocument fuel rest
      let (members, rest) ← readMembers fuel (skipBlanks rest)
      return ((String.ofList key, value) :: members, rest)
    | _ => none
end

def ofString? (s : String) : Option Json :=
  (readDocument (2 * s.length + 2) s.toList).map (·.1)

end InterfaceKit.Json
