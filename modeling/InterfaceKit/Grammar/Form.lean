import InterfaceKit.Grammar.Rule

/-!
# What a form can begin with

Forms are read by derivatives, as patterns of characters are: `f.after k` lists the forms that
remain when the token `k` has been read from `f`, one for each way in which `f` can begin with `k`.
All that the parser asks is asked through it: whether a token is possible, which tokens are, and how
far two alternatives stay possible together.
-/
namespace InterfaceKit.Grammar
open Lexical

/-- The remainders of a form behind one token, given those of a single item. -/
def Form.afterWith (step : Item → List Form) : Form → List Form
  | [] => []
  | .one x :: rest => (step x).map (· ++ rest)
  | .maybe [] :: rest => afterWith step rest
  | .maybe (x :: xs) :: rest =>
    (step x).map (· ++ (xs.map .one ++ rest)) ++ afterWith step rest
  | .many x :: rest => (step x).map (· ++ .many x :: rest) ++ afterWith step rest
  | .choice xs :: rest => xs.flatMap fun x => (step x).map (· ++ rest)

/-- The remainders of one item behind the token `k`; rules are opened at most `depth` deep. -/
def Item.after (k : Kind) : Nat → Item → List Form
  | _, .token k' => if k' = k then [[]] else []
  | 0, .rule _ => []
  | depth + 1, .rule r => Form.afterWith (Item.after k depth) r.production

/-- No rule begins with itself, so opening as many rules as there are reaches every first token. -/
def openingDepth : Nat := Rule.all.length

def Form.after (f : Form) (k : Kind) : List Form := Form.afterWith (Item.after k openingDepth) f

def Form.canStart (f : Form) (k : Kind) : Bool := !(f.after k).isEmpty

/-- Whether nothing more has to follow. -/
def Form.mayEnd (f : Form) : Bool :=
  f.all fun
    | .maybe _ | .many _ => true
    | _ => false

/-- Whether the form can go on with this token, or end when there is no token left. -/
def Form.admits (f : Form) : Option Kind → Bool
  | some k => f.canStart k
  | none => f.mayEnd

/-- What may come next, the end of the input first, then the kinds in their order. -/
def Form.expected (f : Form) : List (Option Kind) :=
  (if f.mayEnd then [none] else []) ++ (Kind.all.filter f.canStart).map some

/-- The direct constituents that have a name of their own, each with whether the production can hold
it more than once. -/
def Rule.constituents (r : Rule) : List (Item × Bool) :=
  let named : Item → Bool
    | .token k => k.spelling?.isNone
    | .rule _ => true
  let items : Part → List Item
    | .one x => [x]
    | .maybe xs => xs
    | .many x => [x, x]
    | .choice xs => xs
  let all := (r.production.flatMap items).filter named
  all.eraseDups.map fun x => (x, 1 < all.count x)

end InterfaceKit.Grammar
