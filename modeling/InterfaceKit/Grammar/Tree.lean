import InterfaceKit.Grammar.Rule

/-!
# Parse trees
-/
namespace InterfaceKit.Grammar
open Lexical

inductive Tree where
  | leaf (token : Token)
  | node (rule : Rule) (children : List Tree)
  deriving Repr, Inhabited

namespace Tree

mutual
def tokens : Tree → List Token
  | leaf t => [t]
  | node _ children => tokensOf children

def tokensOf : List Tree → List Token
  | [] => []
  | t :: ts => t.tokens ++ tokensOf ts
end

mutual
def nodes : Tree → List Tree
  | leaf _ => []
  | node r children => node r children :: nodesOf children

def nodesOf : List Tree → List Tree
  | [] => []
  | t :: ts => t.nodes ++ nodesOf ts
end

mutual
def depth : Tree → Nat
  | leaf _ => 0
  | node _ children => depthOf children + 1

def depthOf : List Tree → Nat
  | [] => 0
  | t :: ts => max t.depth (depthOf ts)
end

def children : Tree → List Tree
  | leaf _ => []
  | node _ ts => ts

def rule? : Tree → Option Rule
  | leaf _ => none
  | node r _ => some r

def isA : Tree → Item → Bool
  | leaf t, .token k => t.kind = k
  | node r _, .rule r' => r = r'
  | _, _ => false

def parts (t : Tree) (x : Item) : List Tree := t.children.filter (·.isA x)

def part? (t : Tree) (x : Item) : Option Tree := t.children.find? (·.isA x)

def tokensOfKind (t : Tree) (k : Kind) : List Token :=
  t.children.filterMap fun
    | leaf tok => if tok.kind = k then some tok else none
    | node _ _ => none

def token? (t : Tree) (k : Kind) : Option Token := (t.tokensOfKind k).head?

def nodesOfRule (t : Tree) (r : Rule) : List Tree := t.parts (.rule r)

def node? (t : Tree) (r : Rule) : Option Tree := t.part? (.rule r)

def text (t : Tree) : String := String.join (t.tokens.map (·.text))

def hasSurrogate (t : Tree) : Bool := t.tokens.any (·.hasSurrogate)

end Tree

end InterfaceKit.Grammar
