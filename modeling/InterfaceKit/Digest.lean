import InterfaceKit.Json

/-!
# Digests

MD5, SHA-1 and SHA-2 of rows of bytes. They share arithmetic on words of a fixed number of bits,
words as bytes, and the padding of a message to whole blocks.
-/
namespace InterfaceKit.Digest

inductive Order where
  | little
  | big
  deriving DecidableEq, Repr

/-- The last `bits` bits. -/
def trim (bits n : Nat) : Nat := n % Nat.pow 2 bits

def complement (bits n : Nat) : Nat := Nat.pow 2 bits - 1 - n

def rotateLeft (bits k n : Nat) : Nat := trim bits (n <<< k) ||| (n >>> (bits - k))

def rotateRight (bits k n : Nat) : Nat := rotateLeft bits (bits - k) n

def bytesOf (order : Order) (size n : Nat) : List UInt8 :=
  let little := (List.range size).map fun i => (n >>> (8 * i)).toUInt8
  match order with
  | .little => little
  | .big => little.reverse

def numberOf (order : Order) (bytes : List UInt8) : Nat :=
  let big := match order with
    | .little => bytes.reverse
    | .big => bytes
  big.foldl (fun n b => n * 256 + b.toNat) 0

def piecesUpTo {α : Type} (size : Nat) : Nat → List α → List (List α)
  | 0, _ => []
  | _ + 1, [] => []
  | count + 1, xs => xs.take size :: piecesUpTo size count (xs.drop size)

def blocksOf {α : Type} (size : Nat) (xs : List α) : List (List α) :=
  piecesUpTo size (xs.length / size + 1) xs

def wordsOf (order : Order) (size : Nat) (block : List UInt8) : List Nat :=
  (blocksOf size block).map (numberOf order)

/-- A set bit, then zeros, then the length of the message in bits in `lengthSize` bytes. -/
def pad (order : Order) (blockSize lengthSize : Nat) (bytes : List UInt8) : List UInt8 :=
  let used := (bytes.length + 1 + lengthSize) % blockSize
  let zeros := if used = 0 then 0 else blockSize - used
  bytes ++ 128 :: List.replicate zeros 0 ++ bytesOf order lengthSize (8 * bytes.length)

namespace Md5

/-- The constants of the 64 steps: the fractions of the sines of 1 to 64. -/
def constants : List Nat :=
  [0xd76aa478, 0xe8c7b756, 0x242070db, 0xc1bdceee, 0xf57c0faf, 0x4787c62a, 0xa8304613, 0xfd469501,
  0x698098d8, 0x8b44f7af, 0xffff5bb1, 0x895cd7be, 0x6b901122, 0xfd987193, 0xa679438e, 0x49b40821,
  0xf61e2562, 0xc040b340, 0x265e5a51, 0xe9b6c7aa, 0xd62f105d, 0x02441453, 0xd8a1e681, 0xe7d3fbc8,
  0x21e1cde6, 0xc33707d6, 0xf4d50d87, 0x455a14ed, 0xa9e3e905, 0xfcefa3f8, 0x676f02d9, 0x8d2a4c8a,
  0xfffa3942, 0x8771f681, 0x6d9d6122, 0xfde5380c, 0xa4beea44, 0x4bdecfa9, 0xf6bb4b60, 0xbebfbc70,
  0x289b7ec6, 0xeaa127fa, 0xd4ef3085, 0x04881d05, 0xd9d4d039, 0xe6db99e5, 0x1fa27cf8, 0xc4ac5665,
  0xf4292244, 0x432aff97, 0xab9423a7, 0xfc93a039, 0x655b59c3, 0x8f0ccc92, 0xffeff47d, 0x85845dd1,
  0x6fa87e4f, 0xfe2ce6e0, 0xa3014314, 0x4e0811a1, 0xf7537e82, 0xbd3af235, 0x2ad7d2bb, 0xeb86d391]

/-- How far each step rotates: four amounts a round, in turn. -/
def rotation (i : Nat) : Nat :=
  let row := match i / 16 with
    | 0 => [7, 12, 17, 22]
    | 1 => [5, 9, 14, 20]
    | 2 => [4, 11, 16, 23]
    | _ => [6, 10, 15, 21]
  row.getD (i % 4) 0

structure State where
  a : Nat
  b : Nat
  c : Nat
  d : Nat
  deriving DecidableEq, Repr

def start : State := ⟨0x67452301, 0xefcdab89, 0x98badcfe, 0x10325476⟩

def step (words : List Nat) (s : State) (ik : Nat × Nat) : State :=
  let (i, k) := ik
  let (f, g) := match i / 16 with
    | 0 => ((s.b &&& s.c) ||| (complement 32 s.b &&& s.d), i)
    | 1 => ((s.d &&& s.b) ||| (complement 32 s.d &&& s.c), (5 * i + 1) % 16)
    | 2 => (s.b ^^^ s.c ^^^ s.d, (3 * i + 5) % 16)
    | _ => (s.c ^^^ (s.b ||| complement 32 s.d), 7 * i % 16)
  let sum := trim 32 (f + s.a + k + words.getD g 0)
  ⟨s.d, trim 32 (s.b + rotateLeft 32 (rotation i) sum), s.b, s.c⟩

def compress (s : State) (block : List UInt8) : State :=
  let words := wordsOf .little 4 block
  let r := (List.range 64 |>.zip constants).foldl (step words) s
  ⟨trim 32 (s.a + r.a), trim 32 (s.b + r.b), trim 32 (s.c + r.c), trim 32 (s.d + r.d)⟩

def digest (bytes : List UInt8) : List UInt8 :=
  let s := (blocksOf 64 (pad .little 64 8 bytes)).foldl compress start
  [s.a, s.b, s.c, s.d].flatMap (bytesOf .little 4)

end Md5

namespace Sha1

structure State where
  a : Nat
  b : Nat
  c : Nat
  d : Nat
  e : Nat
  deriving DecidableEq, Repr

def start : State := ⟨0x67452301, 0xefcdab89, 0x98badcfe, 0x10325476, 0xc3d2e1f0⟩

def extend (w : List Nat) (_ : Nat) : List Nat :=
  rotateLeft 32 1 (w.getD 2 0 ^^^ w.getD 7 0 ^^^ w.getD 13 0 ^^^ w.getD 15 0) :: w

def step (s : State) (iw : Nat × Nat) : State :=
  let (i, w) := iw
  let (f, k) := match i / 20 with
    | 0 => ((s.b &&& s.c) ||| (complement 32 s.b &&& s.d), 0x5a827999)
    | 1 => (s.b ^^^ s.c ^^^ s.d, 0x6ed9eba1)
    | 2 => ((s.b &&& s.c) ||| (s.b &&& s.d) ||| (s.c &&& s.d), 0x8f1bbcdc)
    | _ => (s.b ^^^ s.c ^^^ s.d, 0xca62c1d6)
  ⟨trim 32 (rotateLeft 32 5 s.a + f + s.e + k + w), s.a, rotateLeft 32 30 s.b, s.c, s.d⟩

def compress (s : State) (block : List UInt8) : State :=
  let schedule := ((List.range 64).foldl extend (wordsOf .big 4 block).reverse).reverse
  let r := ((List.range 80).zip schedule).foldl step s
  ⟨trim 32 (s.a + r.a), trim 32 (s.b + r.b), trim 32 (s.c + r.c), trim 32 (s.d + r.d),
    trim 32 (s.e + r.e)⟩

def digest (bytes : List UInt8) : List UInt8 :=
  let s := (blocksOf 64 (pad .big 64 8 bytes)).foldl compress start
  [s.a, s.b, s.c, s.d, s.e].flatMap (bytesOf .big 4)

end Sha1

/-! ## SHA-2

One construction over words of 32 or of 64 bits. The constants are the first bits behind the point
of the roots of the first primes: cube roots for the steps, square roots for the initial values.
-/
namespace Sha2

def primes : List Nat :=
  (List.range 410).filter fun n => 2 ≤ n && (List.range n).all fun d => d < 2 || n % d ≠ 0

/-- The largest number whose `k`-th power is at most `n`, found bit by bit from bit `bits`
downwards. -/
def root (k n : Nat) : Nat → Nat → Nat
  | 0, acc => acc
  | bits + 1, acc =>
    let next := acc + Nat.pow 2 bits
    root k n bits (if Nat.pow next k ≤ n then next else acc)

/-- The first `bits` bits behind the point of the `k`-th root of `p`. -/
def rootFraction (k bits p : Nat) : Nat := trim bits (root k (p * Nat.pow 2 (k * bits)) (bits + 8) 0)

/-- A member of the family: the width of a word and the rotations of the four mixing functions. -/
structure Variant where
  bits : Nat
  rounds : Nat
  sum0 : Nat × Nat × Nat
  sum1 : Nat × Nat × Nat
  mix0 : Nat × Nat × Nat
  mix1 : Nat × Nat × Nat
  deriving DecidableEq, Repr

def narrow : Variant :=
  { bits := 32, rounds := 64, sum0 := (2, 13, 22), sum1 := (6, 11, 25), mix0 := (7, 18, 3)
    mix1 := (17, 19, 10) }

def wide : Variant :=
  { bits := 64, rounds := 80, sum0 := (28, 34, 39), sum1 := (14, 18, 41), mix0 := (1, 8, 7)
    mix1 := (19, 61, 6) }

namespace Variant

def sum (v : Variant) (r : Nat × Nat × Nat) (x : Nat) : Nat :=
  rotateRight v.bits r.1 x ^^^ rotateRight v.bits r.2.1 x ^^^ rotateRight v.bits r.2.2 x

def mix (v : Variant) (r : Nat × Nat × Nat) (x : Nat) : Nat :=
  rotateRight v.bits r.1 x ^^^ rotateRight v.bits r.2.1 x ^^^ (x >>> r.2.2)

def extend (v : Variant) (w : List Nat) (_ : Nat) : List Nat :=
  trim v.bits (v.mix v.mix1 (w.getD 1 0) + w.getD 6 0 + v.mix v.mix0 (w.getD 14 0) + w.getD 15 0)
    :: w

def step (v : Variant) (s : List Nat) (kw : Nat × Nat) : List Nat :=
  match s with
  | [a, b, c, d, e, f, g, h] =>
    let choice := (e &&& f) ^^^ (complement v.bits e &&& g)
    let majority := (a &&& b) ^^^ (a &&& c) ^^^ (b &&& c)
    let t := h + v.sum v.sum1 e + choice + kw.1 + kw.2
    [trim v.bits (t + v.sum v.sum0 a + majority), a, b, c, trim v.bits (d + t), e, f, g]
  | _ => s

def compress (v : Variant) (constants s : List Nat) (block : List UInt8) : List Nat :=
  let words := wordsOf .big (v.bits / 8) block
  let schedule := ((List.range (v.rounds - 16)).foldl v.extend words.reverse).reverse
  let r := (constants.zip schedule).foldl v.step s
  List.zipWith (fun x y => trim v.bits (x + y)) s r

/-- The digest from given initial values, cut to `size` bytes. -/
def digest (v : Variant) (start : List Nat) (size : Nat) (bytes : List UInt8) : List UInt8 :=
  let constants := (primes.take v.rounds).map (rootFraction 3 v.bits)
  let padded := pad .big (2 * v.bits) (v.bits / 4) bytes
  let s := (blocksOf (2 * v.bits) padded).foldl (v.compress constants) start
  (s.flatMap (bytesOf .big (v.bits / 8))).take size

end Variant

def sha256 (bytes : List UInt8) : List UInt8 :=
  narrow.digest ((primes.take 8).map (rootFraction 2 32)) 32 bytes

def sha512 (bytes : List UInt8) : List UInt8 :=
  wide.digest ((primes.take 8).map (rootFraction 2 64)) 64 bytes

/-- The shorter digests start from the next eight primes. -/
def laterPrimes : List Nat := (primes.drop 8).take 8

def sha224 (bytes : List UInt8) : List UInt8 :=
  narrow.digest (laterPrimes.map fun p => trim 32 (rootFraction 2 64 p)) 28 bytes

def sha384 (bytes : List UInt8) : List UInt8 :=
  wide.digest (laterPrimes.map (rootFraction 2 64)) 48 bytes

end Sha2

/-! ## By name -/

inductive Algorithm where
  | md5 | sha1 | sha224 | sha256 | sha384 | sha512
  deriving DecidableEq, Repr

namespace Algorithm

/-- Names are known in either case. -/
def ofName? (name : String) : Option Algorithm :=
  [("md5", md5), ("sha1", sha1), ("sha224", sha224), ("sha256", sha256), ("sha384", sha384),
    ("sha512", sha512)].lookup (String.ofList (name.toList.map Char.toLower))

def digest : Algorithm → List UInt8 → List UInt8
  | md5 => Md5.digest
  | sha1 => Sha1.digest
  | sha224 => Sha2.sha224
  | sha256 => Sha2.sha256
  | sha384 => Sha2.sha384
  | sha512 => Sha2.sha512

end Algorithm

def hexText (bytes : List UInt8) : String :=
  String.ofList (bytes.flatMap fun b => Json.hex 2 b.toNat)

end InterfaceKit.Digest
