/-!
# Patterns of characters

Regular patterns, read by derivatives: `p.after c` is what is left to match of `p` once `c` has been
read. A pattern from which nothing can be matched any more is always `never` itself, because `join`
and `either` fold it away, so "can this still become a match" is a comparison.
-/
namespace InterfaceKit.Lexical

/-- The characters in one of the closed ranges, or, when `negated`, all the others. -/
structure CharSet where
  ranges : List (Char × Char)
  negated : Bool := false
  deriving DecidableEq, Repr

namespace CharSet

def contains (s : CharSet) (c : Char) : Bool :=
  (s.ranges.any fun r => r.1 ≤ c && c ≤ r.2) != s.negated

def single (c : Char) : CharSet := { ranges := [(c, c)] }

def ofList (cs : List Char) : CharSet := { ranges := cs.map fun c => (c, c) }

def noneOf (cs : List Char) : CharSet := { ranges := cs.map fun c => (c, c), negated := true }

end CharSet

inductive Pattern where
  | never
  | done
  | char (s : CharSet)
  | seq (p q : Pattern)
  | alt (p q : Pattern)
  | star (p : Pattern)
  deriving DecidableEq, Repr

namespace Pattern

def acceptsEmpty : Pattern → Bool
  | never => false
  | done => true
  | char _ => false
  | seq p q => p.acceptsEmpty && q.acceptsEmpty
  | alt p q => p.acceptsEmpty || q.acceptsEmpty
  | star _ => true

def join : Pattern → Pattern → Pattern
  | never, _ => never
  | _, never => never
  | done, q => q
  | p, q => seq p q

def either : Pattern → Pattern → Pattern
  | never, q => q
  | p, never => p
  | p, q => if p = q then p else alt p q

def after (c : Char) : Pattern → Pattern
  | never => never
  | done => never
  | char s => if s.contains c then done else never
  | seq p q =>
    if p.acceptsEmpty then either (join (p.after c) q) (q.after c) else join (p.after c) q
  | alt p q => either (p.after c) (q.after c)
  | star p => join (p.after c) (star p)

def accepts (p : Pattern) (text : List Char) : Bool :=
  (text.foldl (fun q c => q.after c) p).acceptsEmpty

def literal : List Char → Pattern
  | [] => done
  | [c] => char (.single c)
  | c :: cs => seq (char (.single c)) (literal cs)

def plus (p : Pattern) : Pattern := seq p (star p)

def optional (p : Pattern) : Pattern := alt p done

end Pattern

end InterfaceKit.Lexical
