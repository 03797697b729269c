import InterfaceKit.Grammar.Form
import InterfaceKit.Grammar.Tree
import InterfaceKit.Lexical.Chunk

/-!
# Parsing

One procedure parses any rule from its production. Beside the part at hand it carries `stack`, the
form of all that the calling rules still expect, so that a complaint can name what was possible
there.

The first error ends the parse. It is found in one of three places. Before a part that may be absent
or that offers a choice, a token is refused when neither the part nor the rest of the rule can begin
with it and the rule cannot end there. At a token that must be there, another one is refused. And a
choice between alternatives that begin alike reads ahead until one is left; when none is, there is
no viable alternative.
-/
namespace InterfaceKit.Grammar
open Lexical

/-- Why a token was refused. `found` is absent at the end of the input. -/
inductive Complaint where
  | extraneous (expected : List (Option Kind))
  | mismatched (expected : List (Option Kind))
  | missing (kind : Kind)
  | noViableAlternative (text : String)
  deriving DecidableEq, Repr

structure SyntaxError where
  complaint : Complaint
  found : Option Token
  position : Position
  deriving DecidableEq, Repr

/-- Remarks on the optional modifier behind an operation, which can also open a property. -/
inductive Remark where
  | attemptingFullContext
  | ambiguity
  | contextSensitivity
  deriving DecidableEq, Repr

/-- The state of a parse. `seen` counts the tokens that were looked at so far; a remark is kept, the
latest first, with that count. -/
structure Cursor where
  rest : List Token
  taken : Nat
  seen : Nat
  finish : Position
  remarks : List (Nat × Remark)
  deriving DecidableEq, Repr

inductive Outcome (α : Type) where
  | parsed (value : α) (cursor : Cursor)
  | failed (error : SyntaxError) (cursor : Cursor)
  deriving Repr

namespace Outcome

def andThen {α β : Type} (o : Outcome α) (f : α → Cursor → Outcome β) : Outcome β :=
  match o with
  | parsed a c => f a c
  | failed e c => failed e c

def cursor {α : Type} : Outcome α → Cursor
  | parsed _ c => c
  | failed _ c => c

end Outcome

namespace Cursor

def start (s : Source) : Cursor :=
  { rest := s.tokens, taken := 0, seen := 1, finish := s.finish, remarks := [] }

def peek (c : Cursor) : Option Kind := c.rest.head?.map (·.kind)

def peekSecond (c : Cursor) : Option Kind := (c.rest.drop 1).head?.map (·.kind)

/-- Notes that the next `n` tokens were looked at. -/
def look (c : Cursor) (n : Nat) : Cursor := { c with seen := max c.seen (c.taken + n) }

def advance (c : Cursor) : Cursor :=
  ({ c with rest := c.rest.drop 1, taken := c.taken + 1 } : Cursor).look 1

def remark (c : Cursor) (r : Remark) : Cursor := { c with remarks := (c.seen, r) :: c.remarks }

def refuse {α : Type} (c : Cursor) (ahead : Nat) (complaint : Complaint) : Outcome α :=
  let found := (c.rest.drop ahead).head?
  let position := match found with
    | some t => t.position
    | none => c.finish
  .failed ⟨complaint, found, position⟩ c

/-- Takes a token that must be there. `stack` is what follows it. -/
def expect (c : Cursor) (k : Kind) (stack : Form) : Outcome Tree :=
  match c.rest with
  | t :: _ => if t.kind = k then .parsed (.leaf t) c.advance else wrong
  | [] => wrong
where
  wrong : Outcome Tree :=
    let c := c.look 2
    if c.peekSecond = some k then c.refuse 0 (.extraneous [some k])
    else if stack.admits c.peek then c.refuse 0 (.missing k)
    else c.refuse 0 (.mismatched [some k])

/-- Checks that the parse can go on before the first part of `form`, which may be absent or offers a
choice. `looped` says that this part is a repetition which has been round already. -/
def sync (c : Cursor) (looped : Bool) (form stack : Form) : Outcome Unit :=
  if form.mayEnd || form.admits c.peek then .parsed () c
  else
    let expected := Form.expected (form ++ stack)
    if looped then c.refuse 0 (.extraneous expected)
    else
      let c := c.look 2
      if expected.contains c.peekSecond then c.refuse 0 (.extraneous expected)
      else c.refuse 0 (.mismatched expected)

end Cursor

/-- The answer of a choice, with the number of tokens read ahead. -/
inductive Prediction where
  | chosen (item : Item) (ahead : Nat)
  | none (ahead : Nat)
  deriving DecidableEq, Repr

/-- Reads ahead until one alternative is left. When a token fits none, an alternative that was
complete before it is chosen, the first if there are several. -/
def predict (ahead : Nat) (alternatives : List (Item × List Form)) : List Token → Prediction
  | [] => undecided
  | t :: ts =>
    let next := alternatives.filterMap fun a =>
      let forms := a.2.flatMap (·.after t.kind)
      if forms.isEmpty then Option.none else some (a.1, forms)
    match next with
    | [] => undecided
    | [a] => .chosen a.1 (ahead + 1)
    | _ => predict (ahead + 1) next ts
where
  undecided : Prediction :=
    match alternatives.find? fun a => a.2.any (·.mayEnd) with
    | some a => .chosen a.1 (ahead + 1)
    | Option.none => .none ahead

/-- How many tokens it takes to see that two sets of forms have become the same; nothing when the
second dies out before. -/
def agreement (ahead : Nat) (first second : List Form) : List Token → Option Nat
  | [] => none
  | t :: ts =>
    let first := first.flatMap (·.after t.kind)
    let second := second.flatMap (·.after t.kind)
    if second.isEmpty then none
    else if first.all second.contains && second.all first.contains then some (ahead + 1)
    else agreement (ahead + 1) first second ts

/-- What follows an operation inside an interface. -/
def behindMember : Form :=
  [.many (.rule .interfaceMember), .one (.token .rightBrace), .maybe [.token .semicolon]]

/-- Remarks that a modifier which is about to be taken could as well belong to a property that
follows: taken or not, the interface could go on in the same way. -/
def Cursor.remarkModifier (c : Cursor) (rest stack : Form) : Cursor :=
  let taken : Form := .one (.rule .operationModifier) :: rest ++ behindMember
  match agreement 0 [taken] [rest ++ behindMember] c.rest with
  | none => c
  | some n =>
    let second : Remark :=
      if Form.admits (rest ++ stack) c.peek then .ambiguity else .contextSensitivity
    ((c.look n).remark .attemptingFullContext).remark second

mutual
def parseItem (fuel : Nat) (item : Item) (stack : Form) (c : Cursor) : Outcome Tree :=
  match fuel, item with
  | _, .token k => c.expect k stack
  | 0, .rule _ => c.refuse 0 (.noViableAlternative "")
  | fuel + 1, .rule r =>
    (parseForm fuel false r.production stack c).andThen fun ts c => .parsed (.node r ts) c

def parseForm (fuel : Nat) (looped : Bool) (form stack : Form) (c : Cursor) :
    Outcome (List Tree) :=
  match fuel, form with
  | _, [] => .parsed [] c
  | 0, _ :: _ => c.refuse 0 (.noViableAlternative "")
  | fuel + 1, .one x :: rest => parseThen fuel x (rest ++ stack) rest stack false c
  | fuel + 1, .maybe xs :: rest =>
    (c.sync false form stack).andThen fun _ c =>
      if Form.admits [.maybe xs] c.peek && c.peek.isSome then
        let c := if xs = [.rule .operationModifier] then c.remarkModifier rest stack else c
        parseForm fuel false (xs.map .one ++ rest) stack c
      else parseForm fuel false rest stack c
  | fuel + 1, .many x :: rest =>
    (c.sync looped form stack).andThen fun _ c =>
      if Form.admits [.one x] c.peek then
        parseThen fuel x (.many x :: rest ++ stack) (.many x :: rest) stack true c
      else parseForm fuel false rest stack c
  | fuel + 1, .choice xs :: rest =>
    (c.sync false form stack).andThen fun _ c =>
      match predict 0 (xs.map fun x => (x, [[.one x]])) c.rest with
      | .chosen x n => parseThen fuel x (rest ++ stack) rest stack false (c.look n)
      | .none n =>
        let text := String.join ((c.rest.take (n + 1)).map (·.text))
        (c.look (c.rest.length + 1)).refuse n (.noViableAlternative text)

def parseThen (fuel : Nat) (item : Item) (behind rest stack : Form) (looped : Bool) (c : Cursor) :
    Outcome (List Tree) :=
  match fuel with
  | 0 => c.refuse 0 (.noViableAlternative "")
  | fuel + 1 =>
    (parseItem fuel item behind c).andThen fun t c =>
      (parseForm fuel looped rest stack c).andThen fun ts c => .parsed (t :: ts) c
end

/-- Enough for every parse: between two tokens only a bounded number of parts is entered. -/
def sufficientFuel (s : Source) : Nat := 64 * (s.tokens.length + 4)

def parse (r : Rule) (s : Source) : Outcome Tree :=
  parseItem (sufficientFuel s) (.rule r) [] (.start s)

end InterfaceKit.Grammar
