/-!
# UTF-8

Texts as bytes. Decoding accepts exactly what encoding produces. A text from outside may hold
surrogates that stand alone, and then it has no encoding.
-/
namespace InterfaceKit.Text

/-- A code point: a character, or a surrogate, which is counted from the first one. -/
inductive Code where
  | char (c : Char)
  | surrogate (n : Fin 2048)
  deriving DecidableEq, Repr

namespace Code

def isSurrogate : Code → Bool
  | char _ => false
  | surrogate _ => true

/-- What is shown of a code point; a replacement character stands for a surrogate. -/
def shown : Code → Char
  | char c => c
  | surrogate _ => '\uFFFD'

end Code

def utf8Char (c : Char) : List UInt8 :=
  let n := c.toNat
  let tail (k : Nat) : UInt8 := (128 + n / Nat.pow 64 k % 64).toUInt8
  if n < 0x80 then [n.toUInt8]
  else if n < 0x800 then [(192 + n / 64).toUInt8, tail 0]
  else if n < 0x10000 then [(224 + n / 4096).toUInt8, tail 1, tail 0]
  else [(240 + n / 262144).toUInt8, tail 2, tail 1, tail 0]

def utf8Encode (text : List Char) : List UInt8 := text.flatMap utf8Char

def utf8Encode? (codes : List Code) : Option (List UInt8) :=
  if codes.any Code.isSurrogate then none else some (utf8Encode (codes.map Code.shown))

def isTail (b : UInt8) : Bool := 128 ≤ b && b < 192

/-- The character of a leading part and its tails, unless it has a shorter form or is a
surrogate. -/
def utf8Assemble (least lead : Nat) (tails : List UInt8) : Option Char :=
  let n := tails.foldl (fun n b => n * 64 + (b.toNat - 128)) lead
  if tails.all isTail && least ≤ n && Nat.isValidChar n then some (Char.ofNat n) else none

def utf8Decode? : List UInt8 → Option (List Char)
  | [] => some []
  | b :: bs =>
    if b < 128 then (utf8Decode? bs).map (Char.ofNat b.toNat :: ·)
    else if b < 192 then none
    else if b < 224 then
      match bs with
      | t :: rest => step (utf8Assemble 0x80 (b.toNat - 192) [t]) (utf8Decode? rest)
      | _ => none
    else if b < 240 then
      match bs with
      | t :: u :: rest => step (utf8Assemble 0x800 (b.toNat - 224) [t, u]) (utf8Decode? rest)
      | _ => none
    else if b < 248 then
      match bs with
      | t :: u :: v :: rest =>
        step (utf8Assemble 0x10000 (b.toNat - 240) [t, u, v]) (utf8Decode? rest)
      | _ => none
    else none
where
  step (c : Option Char) (rest : Option (List Char)) : Option (List Char) :=
    match c, rest with
    | some c, some cs => some (c :: cs)
    | _, _ => none

end InterfaceKit.Text
