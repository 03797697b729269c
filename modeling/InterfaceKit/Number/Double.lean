/-!
# Binary floating point numbers

Numbers of 64 bits, held as their bits. Reading rounds a fraction to the nearest number, ties going
to the even significand. Writing takes the fewest digits that read back as the same number, and of
those the nearest.
-/
namespace InterfaceKit.Number

structure Double where
  bits : UInt64
  deriving DecidableEq, Repr, Inhabited

/-- What the bits stand for: a finite number is `significand * 2 ^ exponent`. -/
inductive Double.View where
  | nan
  | infinite (negative : Bool)
  | finite (negative : Bool) (significand : Nat) (exponent : Int)
  deriving DecidableEq, Repr

namespace Double

def view (d : Double) : View :=
  let n := d.bits.toNat
  let negative := Nat.pow 2 63 ≤ n
  let biased : Nat := n / Nat.pow 2 52 % Nat.pow 2 11
  let fraction : Nat := n % Nat.pow 2 52
  if biased = 2047 then (if fraction = 0 then .infinite negative else .nan)
  else if biased = 0 then .finite negative fraction (-1074)
  else .finite negative (fraction + Nat.pow 2 52) ((biased : Int) - 1075)

def signBit (negative : Bool) : Nat := if negative then Nat.pow 2 63 else 0

def infinity (negative : Bool) : Double := ⟨(signBit negative + 2047 * Nat.pow 2 52).toUInt64⟩

def nan : Double := ⟨(2047 * Nat.pow 2 52 + Nat.pow 2 51 : Nat).toUInt64⟩

/-- The quotient to the nearest integer, a half going to the even one. -/
def roundDiv (num den : Nat) : Nat :=
  let q := num / den
  let r := num % den
  if 2 * r < den then q else if den < 2 * r then q + 1 else if q % 2 = 0 then q else q + 1

/-- Builds the number `significand * 2 ^ exponent` when it fits. -/
def assemble (negative : Bool) (significand : Nat) (exponent : Int) : Double :=
  let (m, q) :=
    if significand = Nat.pow 2 53 then (Nat.pow 2 52, exponent + 1) else (significand, exponent)
  if 971 < q then infinity negative
  else if m < Nat.pow 2 52 then ⟨(signBit negative + m).toUInt64⟩
  else ⟨(signBit negative + (q + 1075).toNat * Nat.pow 2 52 + (m - Nat.pow 2 52)).toUInt64⟩

/-- The number nearest to `num / den`. -/
def ofRatio (negative : Bool) (num den : Nat) : Double :=
  if num = 0 then ⟨(signBit negative).toUInt64⟩
  else
    let guess : Int := (num.log2 : Int) - den.log2
    let below :=
      if 0 ≤ guess then num < den * Nat.pow 2 guess.toNat else num * Nat.pow 2 (-guess).toNat < den
    let top := if below then guess - 1 else guess
    let q := max (top - 52) (-1074)
    let m := if 0 ≤ q then roundDiv num (den * Nat.pow 2 q.toNat)
      else roundDiv (num * Nat.pow 2 (-q).toNat) den
    assemble negative m q

/-- The number nearest to `mantissa * 10 ^ exponent`. An exponent far outside the range is not spelt
out. -/
def ofDecimal (negative : Bool) (mantissa : Nat) (exponent : Int) : Double :=
  if mantissa = 0 then ofRatio negative 0 1
  else
    let size : Int := (Nat.toDigits 10 mantissa).length
    if 400 < size + exponent then infinity negative
    else if size + exponent < -400 then ofRatio negative 0 1
    else if 0 ≤ exponent then ofRatio negative (mantissa * Nat.pow 10 exponent.toNat) 1
    else ofRatio negative mantissa (Nat.pow 10 (-exponent).toNat)

def ofInt (i : Int) : Double := ofRatio (i < 0) i.natAbs 1

/-- The integer that a number is, if it is one; both zeros are zero. -/
def integer? (d : Double) : Option Int :=
  match d.view with
  | .finite negative m q =>
    let sign : Int := if negative then -1 else 1
    if 0 ≤ q then some (sign * m * Nat.pow 2 q.toNat)
    else if m % Nat.pow 2 (-q).toNat = 0 then some (sign * (m / Nat.pow 2 (-q).toNat : Nat))
    else none
  | _ => none

def isNan (d : Double) : Bool := d.view = .nan

def isZero (d : Double) : Bool :=
  match d.view with
  | .finite _ 0 _ => true
  | _ => false

/-- A decimal `digits * 10 ^ exponent`. -/
structure Decimal where
  digits : Nat
  exponent : Int
  deriving DecidableEq, Repr

/-- A positive number with the bounds of what is read back as it, all over one denominator. -/
structure Interval where
  low : Nat
  value : Nat
  high : Nat
  den : Nat
  closed : Bool
  deriving DecidableEq, Repr

def interval (m : Nat) (q : Int) : Interval :=
  let scale := Nat.pow 2 (q - 2).toNat
  let low := if m = Nat.pow 2 52 ∧ -1074 < q then 4 * m - 1 else 4 * m - 2
  { low := low * scale
    value := 4 * m * scale
    high := (4 * m + 2) * scale
    den := Nat.pow 2 (2 - q).toNat
    closed := m % 2 = 0 }

namespace Interval

def compareScaled (c : Nat) (e : Int) (n den : Nat) : Ordering :=
  if 0 ≤ e then compare (c * Nat.pow 10 e.toNat * den) n
  else compare (c * den) (n * Nat.pow 10 (-e).toNat)

def contains (i : Interval) (c : Nat) (e : Int) : Bool :=
  let l := compareScaled c e i.low i.den
  let h := compareScaled c e i.high i.den
  if i.closed then l != .lt && h != .gt else l == .gt && h == .lt

/-- The least power of ten above the value, searched upwards from an estimate. -/
def magnitude (i : Interval) : Nat → Int → Int
  | 0, k => k
  | fuel + 1, k => if compareScaled 1 k i.value i.den = .gt then k else magnitude i fuel (k + 1)

/-- The multiple of `10 ^ e` just below the value. -/
def floorAt (i : Interval) (e : Int) : Nat :=
  if 0 ≤ e then i.value / (i.den * Nat.pow 10 e.toNat) else i.value * Nat.pow 10 (-e).toNat / i.den

/-- Of a multiple of `10 ^ e` and the next one, the one nearer to the value, the even one in the
middle. -/
def nearer (i : Interval) (c : Nat) (e : Int) : Nat :=
  match compareScaled (2 * c + 1) e (2 * i.value) i.den with
  | .lt => c + 1
  | .gt => c
  | .eq => if c % 2 = 0 then c else c + 1

/-- The shortest decimal of at least `n` digits, trying `fuel` lengths. -/
def shortestFrom (i : Interval) (k : Int) : Nat → Nat → Decimal
  | 0, n => ⟨i.floorAt (k - n), k - n⟩
  | fuel + 1, n =>
    let e := k - n
    let c := i.floorAt e
    match i.contains c e, i.contains (c + 1) e with
    | true, true => ⟨i.nearer c e, e⟩
    | true, false => ⟨c, e⟩
    | false, true => ⟨c + 1, e⟩
    | false, false => shortestFrom i k fuel (n + 1)

def shortest (i : Interval) : Decimal :=
  let estimate : Int := ((i.value.log2 : Int) - i.den.log2) * 30103 / 100000 - 1
  shortestFrom i (i.magnitude 8 estimate) 17 1

end Interval

/-- How a number is laid out: positional from `least` to `most` digits before the point, else with
an exponent of two digits at least. -/
structure Layout where
  least : Int
  most : Int
  notNumber : String
  unbounded : String
  deriving Repr

/-- Numbers are positional up to sixteen digits before the point and three zeros behind it. -/
def plain : Layout := { least := -3, most := 16, notNumber := "nan", unbounded := "inf" }

def zeros (n : Int) : String := String.ofList (List.replicate n.toNat '0')

def layOut (l : Layout) (d : Decimal) : String :=
  let all := Nat.toDigits 10 d.digits
  let kept := (all.reverse.dropWhile (· = '0')).reverse
  let point : Int := all.length + d.exponent
  let text := String.ofList kept
  if l.least ≤ point ∧ point ≤ l.most then
    if point ≤ 0 then "0." ++ zeros (-point) ++ text
    else if point < kept.length then
      String.ofList (kept.take point.toNat) ++ "." ++ String.ofList (kept.drop point.toNat)
    else text ++ zeros (point - kept.length) ++ ".0"
  else
    let e := point - 1
    let tail := if kept.length = 1 then "" else "." ++ String.ofList (kept.drop 1)
    let digits := toString e.natAbs
    let wide := if digits.length = 1 then "0" ++ digits else digits
    String.ofList (kept.take 1) ++ tail ++ "e" ++ (if e < 0 then "-" else "+") ++ wide

def render (l : Layout) (d : Double) : String :=
  let sign (negative : Bool) := if negative then "-" else ""
  match d.view with
  | .nan => l.notNumber
  | .infinite negative => sign negative ++ l.unbounded
  | .finite negative 0 _ => sign negative ++ "0.0"
  | .finite negative m q => sign negative ++ layOut l (interval m q).shortest

def text (d : Double) : String := render plain d

def add (a b : Double) : Double := ⟨(Float.ofBits a.bits + Float.ofBits b.bits).toBits⟩

def mul (a b : Double) : Double := ⟨(Float.ofBits a.bits * Float.ofBits b.bits).toBits⟩

def neg (a : Double) : Double := ⟨a.bits ^^^ (Nat.pow 2 63 : Nat).toUInt64⟩

end Double

end InterfaceKit.Number
