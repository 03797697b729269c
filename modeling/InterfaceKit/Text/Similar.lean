/-!
# Similar words

Two words are compared by what they have in common: their longest common block, and in turn what is
common before it and behind it. The more of both words that makes up, the more similar they are.
-/
namespace InterfaceKit.Text

def commonStart : List Char → List Char → Nat
  | a :: as, b :: bs => if a = b then commonStart as bs + 1 else 0
  | _, _ => 0

/-- A block that two texts have in common: where it starts in each, and its length. -/
structure Block where
  first : Nat := 0
  second : Nat := 0
  size : Nat := 0
  deriving DecidableEq, Repr, Inhabited

/-- The longest common block, the first one if there are several. -/
def longestBlock (a b : List Char) : Block :=
  (List.range a.length).foldl (fun best i =>
    (List.range b.length).foldl (fun best j =>
      let size := commonStart (a.drop i) (b.drop j)
      if best.size < size then { first := i, second := j, size } else best) best) {}

/-- The number of characters in all common blocks. -/
def inCommon : Nat → List Char → List Char → Nat
  | 0, _, _ => 0
  | fuel + 1, a, b =>
    let block := longestBlock a b
    if block.size = 0 then 0
    else
      block.size + inCommon fuel (a.take block.first) (b.take block.second)
        + inCommon fuel (a.drop (block.first + block.size)) (b.drop (block.second + block.size))

/-- How similar two words are: the characters in common, and those of both words together. -/
structure Likeness where
  common : Nat
  all : Nat
  deriving DecidableEq, Repr

def likeness (a b : String) : Likeness :=
  { common := inCommon (a.length + 1) a.toList b.toList, all := a.length + b.length }

/-- Words count as similar from three fifths on. -/
def Likeness.suffices (l : Likeness) : Bool := 6 * l.all ≤ 20 * l.common

def Likeness.exceeds (l k : Likeness) : Bool := k.common * l.all < l.common * k.all

/-- The most similar words, three at most, in the order of the words. -/
def similarWords (word : String) (known : List String) : List String :=
  let found := (known.map fun k => (k, likeness k word)).filter fun e => e.2.suffices
  let better (e f : String × Likeness) : Bool :=
    e.2.exceeds f.2 || (!f.2.exceeds e.2 && decide (f.1 ≤ e.1))
  (((found.mergeSort better).take 3).map (·.1)).mergeSort fun a b => decide (a ≤ b)

end InterfaceKit.Text
