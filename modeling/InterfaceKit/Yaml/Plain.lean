import InterfaceKit.Data.Value
import InterfaceKit.Lexical.Pattern
import InterfaceKit.Text.Case

/-!
# What plain texts stand for

A text without quotes is a truth value, a number, a date or nothing if it looks like one.
-/
namespace InterfaceKit.Yaml
open Lexical Lexical.Pattern Data Number

/-- The kinds of values that a tag can ask for. -/
inductive Tag where
  | null | bool | int | float | binary | timestamp | omap | pairs | set | text | sequence | mapping
  | merge | value
  | other (name : String)
  deriving DecidableEq, Repr

namespace Tag

def standard : List (String × Tag) :=
  [("null", null), ("bool", bool), ("int", int), ("float", float), ("binary", binary),
    ("timestamp", timestamp), ("omap", omap), ("pairs", pairs), ("set", set), ("str", text),
    ("seq", sequence), ("map", mapping), ("merge", merge), ("value", value)]

def ofName (name : String) : Tag :=
  let space := "tag:yaml.org,2002:"
  if Text.startsWith space.toList name.toList then
    (standard.lookup (String.ofList (name.toList.drop space.length))).getD (other name)
  else other name

end Tag

namespace Plain

/-! ## Patterns -/

def oneOf (cs : String) : Pattern := char (.ofList cs.toList)

def words (ws : List String) : Pattern := ws.foldr (fun w p => alt (literal w.toList) p) never

def digit : Pattern := oneOf "0123456789"

def digits : Pattern := star (oneOf "0123456789_")

/-- A digit followed by digits and underscores. -/
def grouped : Pattern := seq digit digits

def sign : Pattern := Pattern.optional (oneOf "+-")

def times : Nat → Pattern → Pattern
  | 0, _ => done
  | n + 1, p => seq p (times n p)

def row (ps : List Pattern) : Pattern := ps.foldr seq done

def boolPattern : Pattern :=
  words ["yes", "Yes", "YES", "no", "No", "NO", "true", "True", "TRUE", "false", "False", "FALSE",
    "on", "On", "ON", "off", "Off", "OFF"]

def nullPattern : Pattern := words ["~", "null", "Null", "NULL", ""]

def exponent : Pattern := Pattern.optional (row [oneOf "eE", oneOf "+-", plus digit])

/-- Groups of up to two digits, below sixty, each after a colon. -/
def sixties : Pattern := plus (row [oneOf ":", Pattern.optional (oneOf "012345"), digit])

def floatPattern : Pattern :=
  [row [sign, grouped, oneOf ".", digits, exponent],
    row [oneOf ".", grouped, exponent],
    row [sign, grouped, sixties, oneOf ".", digits],
    row [sign, oneOf ".", words ["inf", "Inf", "INF"]],
    row [oneOf ".", words ["nan", "NaN", "NAN"]]].foldr alt never

def leading : Pattern := seq (oneOf "123456789") digits

def intPattern : Pattern :=
  seq sign ([row [literal "0b".toList, plus (oneOf "01_")],
    seq (oneOf "0") (plus (oneOf "01234567_")),
    oneOf "0",
    leading,
    row [literal "0x".toList, plus (oneOf "0123456789abcdefABCDEF_")],
    seq leading sixties].foldr alt never)

def oneOrTwo : Pattern := seq digit (Pattern.optional digit)

def blanks : Pattern := oneOf " \t"

def datePattern : Pattern := row [times 4 digit, oneOf "-", oneOrTwo, oneOf "-", oneOrTwo]

def timePattern : Pattern :=
  row [alt (oneOf "Tt") (plus blanks), oneOrTwo, oneOf ":", times 2 digit, oneOf ":",
    times 2 digit, Pattern.optional (seq (oneOf ".") (star digit)),
    Pattern.optional (seq (star blanks) (alt (oneOf "Z")
      (row [oneOf "+-", oneOrTwo, Pattern.optional (seq (oneOf ":") (times 2 digit))])))]

def timestampPattern : Pattern :=
  alt (row [times 4 digit, oneOf "-", times 2 digit, oneOf "-", times 2 digit])
    (seq datePattern timePattern)

def tagOf (text : List Char) : Tag :=
  if boolPattern.accepts text then .bool
  else if floatPattern.accepts text then .float
  else if intPattern.accepts text then .int
  else if text = "<<".toList then .merge
  else if nullPattern.accepts text then .null
  else if timestampPattern.accepts text then .timestamp
  else if text = "=".toList then .value
  else .text

/-! ## Values -/

def bad {α : Type} : Except Failure α := .error (.invalidValue "invalid literal")

def numeral (base : Nat) (cs : List Char) : Except Failure Nat :=
  let digit? (c : Char) : Option Nat :=
    let d := if '0' ≤ c && c ≤ '9' then some (c.toNat - '0'.toNat)
      else if 'a' ≤ c && c ≤ 'f' then some (c.toNat - 'a'.toNat + 10)
      else if 'A' ≤ c && c ≤ 'F' then some (c.toNat - 'A'.toNat + 10)
      else none
    d.filter (· < base)
  if cs.isEmpty then bad
  else cs.foldlM (fun n c => match digit? c with
    | some d => .ok (n * base + d)
    | none => bad) 0

/-- A decimal numeral; one of more digits than this is refused. -/
def decimalLimit : Nat := 4300

def decimalNumeral (cs : List Char) : Except Failure Nat :=
  if cs.length > decimalLimit then bad else numeral 10 cs

def splitSign : List Char → Bool × List Char
  | '-' :: cs => (true, cs)
  | '+' :: cs => (false, cs)
  | cs => (false, cs)

def withoutUnderscores (text : List Char) : List Char := text.filter (· ≠ '_')

def withoutBlanks (text : List Char) : List Char :=
  ((text.dropWhile Text.isBlank).reverse.dropWhile Text.isBlank).reverse

/-- The letters that mark the base of a numeral behind a zero. -/
def baseMarks : Nat → List Char
  | 2 => ['b', 'B']
  | 8 => ['o', 'O']
  | 16 => ['x', 'X']
  | _ => []

/-- A number of a base with blanks around it, a sign and a mark, if there are any. -/
def integer (base : Nat) (text : List Char) : Except Failure Int := do
  let (negative, cs) := splitSign (withoutBlanks text)
  let digits := match cs with
    | '0' :: mark :: rest => if mark ∈ baseMarks base then rest else cs
    | cs => cs
  let n ← if base = 10 then decimalNumeral digits else numeral base digits
  return if negative then -(n : Int) else n

/-- The number that a text stands for when a number is asked for. Not all of these texts look like
numbers. -/
def int (text : List Char) : Except Failure Int := do
  let cs := withoutUnderscores text
  if cs.isEmpty then throw (.outOfRange "string index out of range")
  let (negative, cs) := splitSign cs
  let n ← match cs with
    | ['0'] => .ok 0
    | '0' :: 'b' :: cs => integer 2 cs
    | '0' :: 'x' :: cs => integer 16 cs
    | '0' :: _ => integer 8 cs
    | [] => throw (.outOfRange "string index out of range")
    | cs =>
      if cs.contains ':' then do
        let parts ← (Text.splitAt ':' cs).mapM (integer 10)
        .ok (parts.foldl (fun n p => n * 60 + p) 0)
      else integer 10 cs
  return if negative then -n else n

def decimal (negative : Bool) (cs : List Char) : Except Failure Double := do
  let whole := cs.takeWhile Char.isDigit
  let rest := cs.dropWhile Char.isDigit
  let (fraction, rest) := match rest with
    | '.' :: r => (r.takeWhile Char.isDigit, r.dropWhile Char.isDigit)
    | r => ([], r)
  if whole.isEmpty && fraction.isEmpty then bad
  let exponent : Int ← match rest with
    | [] => .ok 0
    | 'e' :: r =>
      let (down, r) := splitSign r
      (numeral 10 r).map fun n => if down then -(n : Int) else n
    | _ => bad
  let mantissa ← numeral 10 (whole ++ fraction)
  return Double.ofDecimal negative mantissa (exponent - fraction.length)

/-- A number in small letters with blanks around it and a sign, if there are any. -/
def real (text : List Char) : Except Failure Double :=
  let (negative, cs) := splitSign (withoutBlanks text)
  match String.ofList cs with
  | "inf" | "infinity" => .ok (Double.infinity negative)
  | "nan" => .ok Double.nan
  | _ => decimal negative cs

def float (text : List Char) : Except Failure Double := do
  let cs := Text.lower (withoutUnderscores text)
  if cs.isEmpty then throw (.outOfRange "string index out of range")
  let (negative, cs) := splitSign cs
  if cs = ".inf".toList then return Double.infinity negative
  if cs = ".nan".toList then return Double.nan
  let magnitude ← if cs.contains ':' then do
      let parts ← (Text.splitAt ':' cs).mapM real
      let (sum, _) := parts.reverse.foldl
        (fun (acc : Double × Nat) p => (acc.1.add (p.mul (.ofInt acc.2)), acc.2 * 60))
          (Double.ofInt 0, 1)
      pure sum
    else real cs
  return if negative then magnitude.neg else magnitude

def bool (text : List Char) : Except Failure Bool :=
  match String.ofList (Text.lower text) with
  | "yes" | "true" | "on" => .ok true
  | "no" | "false" | "off" => .ok false
  | other => .error (.missingKey (some other) (Text.quoted other))

def leadingNumber (cs : List Char) : Nat × List Char :=
  ((cs.takeWhile Char.isDigit).foldl (fun n c => n * 10 + (c.toNat - '0'.toNat)) 0,
    cs.dropWhile Char.isDigit)

/-- Millionths of a second; digits beyond these do not count. -/
def millionths (cs : List Char) : Nat :=
  let digits := (cs.takeWhile Char.isDigit).take 6
  (leadingNumber digits).1 * Nat.pow 10 (6 - digits.length)

def zone (cs : List Char) : Except Failure (Option Int) :=
  match cs.dropWhile fun c => c = ' ' || c = '\t' with
  | 'Z' :: _ => .ok (some 0)
  | s :: rest =>
    let (hours, rest) := leadingNumber rest
    let (minutes, _) := leadingNumber (rest.drop 1)
    let n := hours * 60 + minutes
    if n < 24 * 60 then .ok (some (if s = '-' then -(n : Int) else n)) else bad
  | [] => .ok none

/-- The date or moment that a text stands for when one is asked for: the month and the day of a date
may have one digit, and a line feed may follow. -/
def timestamp (text : List Char) : Except Failure Value := do
  let text := if text.getLast? = some '\n' then text.dropLast else text
  if !(seq datePattern (Pattern.optional timePattern)).accepts text then
    throw (.missingAttribute "NoneType" "groupdict")
  let (year, r) := leadingNumber text
  let (month, r) := leadingNumber (r.drop 1)
  let (day, r) := leadingNumber (r.drop 1)
  let date : Date := { year, month, day }
  if r.isEmpty then
    if date.isValid then return .date date else bad
  let r := r.dropWhile fun c => !c.isDigit
  let (hour, r) := leadingNumber r
  let (minute, r) := leadingNumber (r.drop 1)
  let (second, r) := leadingNumber (r.drop 1)
  let (micro, r) := match r with
    | '.' :: r => (millionths r, r.dropWhile Char.isDigit)
    | r => (0, r)
  let zone ← zone r
  let moment : Moment := { date, hour, minute, second, micro, zone }
  if moment.isValid then return .moment moment else bad

end Plain

end InterfaceKit.Yaml
