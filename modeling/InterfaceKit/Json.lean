import InterfaceKit.Number.Double

/-!
# JSON documents

The export format of the model. Texts are written in ASCII, every other character as the escapes of
its 16-bit units; nesting is shown by two blanks a level.
-/
namespace InterfaceKit
open Number

inductive Json where
  | null
  | bool (b : Bool)
  | int (i : Int)
  | float (d : Double)
  | text (s : String)
  | array (items : List Json)
  | object (members : List (String × Json))
  deriving Repr, Inhabited

namespace Json

def hexDigit (n : Nat) : Char := if n < 10 then Char.ofNat (48 + n) else Char.ofNat (87 + n)

def hex (width n : Nat) : List Char :=
  (List.range width).reverse.map fun i => hexDigit (n / Nat.pow 16 i % 16)

def unit (n : Nat) : List Char := '\\' :: 'u' :: hex 4 n

def escape (c : Char) : List Char :=
  if c = '"' then ['\\', '"']
  else if c = '\\' then ['\\', '\\']
  else if c = '\n' then ['\\', 'n']
  else if c = '\r' then ['\\', 'r']
  else if c = '\t' then ['\\', 't']
  else if c = '\x0c' then ['\\', 'f']
  else if c = '\x08' then ['\\', 'b']
  else if 32 ≤ c.toNat ∧ c.toNat < 127 then [c]
  else if c.toNat < 0x10000 then unit c.toNat
  else
    let n := c.toNat - 0x10000
    unit (0xD800 + n / 1024) ++ unit (0xDC00 + n % 1024)

def quoted (s : String) : String := "\"" ++ String.ofList (s.toList.flatMap escape) ++ "\""

/-- Numbers outside the reals are written as words. -/
def number : Double.Layout :=
  { Double.plain with notNumber := "NaN", unbounded := "Infinity" }

def indent (level : Nat) : String := "\n" ++ String.ofList (List.replicate (2 * level) ' ')

mutual
/-- The text of a document, `level` deep. -/
def renderAt (level : Nat) : Json → String
  | null => "null"
  | bool b => if b then "true" else "false"
  | int i => toString i
  | float d => Double.render number d
  | text s => quoted s
  | array [] => "[]"
  | array (x :: xs) =>
    "[" ++ indent (level + 1) ++ renderItems level (x :: xs) ++ indent level ++ "]"
  | object [] => "\x7b\x7d"
  | object (m :: ms) =>
    "\x7b" ++ indent (level + 1) ++ renderMembers level (m :: ms) ++ indent level ++ "\x7d"

def renderItems (level : Nat) : List Json → String
  | [] => ""
  | [x] => renderAt (level + 1) x
  | x :: xs => renderAt (level + 1) x ++ "," ++ indent (level + 1) ++ renderItems level xs

def renderMembers (level : Nat) : List (String × Json) → String
  | [] => ""
  | [(k, v)] => quoted k ++ ": " ++ renderAt (level + 1) v
  | (k, v) :: ms =>
    quoted k ++ ": " ++ renderAt (level + 1) v ++ "," ++ indent (level + 1)
      ++ renderMembers level ms
end

def render (j : Json) : String := renderAt 0 j

end Json

end InterfaceKit
