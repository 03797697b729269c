import InterfaceKit.Text.Utf8

/-!
# Backslash escapes

Decodes the escapes in a row of bytes. A byte that is no part of an escape stands for the code point
of the same number. The result is a row of code points, since an escape may name a surrogate.
-/
namespace InterfaceKit.Text.Escape

inductive Fault where
  | trailingBackslash
  | badNumber
  | namedCharacter
  | unencodable
  deriving DecidableEq, Repr

/-- The letters that stand for a control character or for themselves. -/
def simple? (b : UInt8) : Option Nat :=
  [(92, 92), (39, 39), (34, 34), (98, 8), (102, 12), (116, 9), (110, 10), (114, 13), (118, 11),
    (97, 7)].lookup b.toNat

def hexValue? (b : UInt8) : Option Nat :=
  let n := b.toNat
  if 48 ≤ n ∧ n ≤ 57 then some (n - 48)
  else if 97 ≤ n ∧ n ≤ 102 then some (n - 87)
  else if 65 ≤ n ∧ n ≤ 70 then some (n - 55)
  else none

def hexNumber? : Nat → Nat → List UInt8 → Option Nat
  | 0, acc, _ => some acc
  | _ + 1, _, [] => none
  | width + 1, acc, b :: bs =>
    match hexValue? b with
    | some d => hexNumber? width (acc * 16 + d) bs
    | none => none

def isOctal (b : UInt8) : Bool := 48 ≤ b && b ≤ 55

/-- How many digits follow the letter of a numeric escape. -/
def width? (b : UInt8) : Option Nat := [(120, 2), (117, 4), (85, 8)].lookup b.toNat

def decodeUpTo : Nat → List UInt8 → Except Fault (List Nat)
  | _, [] => .ok []
  | 0, _ :: _ => .ok []
  | limit + 1, b :: bs =>
    if b ≠ 92 then (decodeUpTo limit bs).map (b.toNat :: ·)
    else
      match bs with
      | [] => .error .trailingBackslash
      | e :: rest =>
        if e = 10 then decodeUpTo limit rest
        else if isOctal e then
          let digits := (e :: rest.takeWhile isOctal).take 3
          let n := digits.foldl (fun n d => n * 8 + (d.toNat - 48)) 0
          (decodeUpTo limit (bs.drop digits.length)).map (n :: ·)
        else
          match simple? e, width? e with
          | some n, _ => (decodeUpTo limit rest).map (n :: ·)
          | none, some w =>
            match hexNumber? w 0 rest with
            | some n =>
              if n < 0x110000 then (decodeUpTo limit (rest.drop w)).map (n :: ·)
              else .error .badNumber
            | none => .error .badNumber
          | none, none =>
            if e = 78 then .error .namedCharacter
            else (decodeUpTo limit rest).map ([92, e.toNat] ++ ·)

def decode (bytes : List UInt8) : Except Fault (List Nat) := decodeUpTo bytes.length bytes

def decodeText (text : List Char) : Except Fault (List Nat) := decode (utf8Encode text)

def decodeCodes (codes : List Code) : Except Fault (List Nat) :=
  match utf8Encode? codes with
  | some bytes => decode bytes
  | none => .error .unencodable

end InterfaceKit.Text.Escape
