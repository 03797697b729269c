import InterfaceKit.Number.Double

/-!
# Templates as trees
-/
namespace InterfaceKit.Template
open Number

inductive Literal where
  | null
  | bool (b : Bool)
  | int (n : Nat)
  | float (d : Double)
  | text (s : String)
  deriving DecidableEq, Repr, Inhabited

inductive Operator where
  | add | subtract | multiply | concat
  | equal | unequal | less | lessEqual | greater | greaterEqual
  | isIn | isNotIn
  deriving DecidableEq, Repr, Inhabited

inductive Expr where
  | literal (l : Literal)
  | name (n : String)
  | member (e : Expr) (name : String)
  | item (e key : Expr)
  | list (items : List Expr)
  | call (f : Expr) (args : List Expr) (named : List (String × Expr))
  | filter (e : Expr) (name : String) (args : List Expr) (named : List (String × Expr))
  | negate (e : Expr)
  | not (e : Expr)
  | both (a b : Expr)
  | either (a b : Expr)
  | binary (op : Operator) (a b : Expr)
  | choice (condition a : Expr) (b : Option Expr)
  | isDefined (e : Expr)
  deriving Repr, Inhabited

/-- A piece of a template with the line on which it stands. -/
inductive Node where
  | text (s : String)
  | output (line : Nat) (e : Expr)
  | branch (line : Nat) (condition : Expr) (body orElse : List Node)
  | loop (line : Nat) (targets : List String) (row : Expr) (body orElse : List Node)
  | scope (line : Nat) (bindings : List (String × Expr)) (body : List Node)
  | assign (line : Nat) (name : String) (e : Expr)
  | library (line : Nat) (template : Expr) (name : String)
  | routine (line : Nat) (name : String) (parameters : List (String × Option Expr)) (body :
      List Node)
  deriving Repr, Inhabited

end InterfaceKit.Template
