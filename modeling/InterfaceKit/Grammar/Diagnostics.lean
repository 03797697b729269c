import InterfaceKit.Grammar.Parser
import InterfaceKit.Failure

/-!
# What a parse prints

The lexer runs only as far as the parser looks, so a fault of the lexer is printed when the token
behind it is first looked at, between the remarks and before the error.
-/
namespace InterfaceKit.Grammar
open Lexical

def displayExpected : List (Option Kind) → String
  | [k] => name k
  | ks => "\x7b" ++ String.intercalate ", " (ks.map name) ++ "\x7d"
where
  name : Option Kind → String
    | some k => k.display
    | none => "<EOF>"

namespace SyntaxError

def foundText (e : SyntaxError) : String :=
  match e.found with
  | some t => quote t.text
  | none => "'<EOF>'"

def message (e : SyntaxError) : String :=
  match e.complaint with
  | .extraneous ks => "extraneous input " ++ e.foundText ++ " expecting " ++ displayExpected ks
  | .mismatched ks => "mismatched input " ++ e.foundText ++ " expecting " ++ displayExpected ks
  | .missing k => "missing " ++ k.display ++ " at " ++ e.foundText
  | .noViableAlternative text => "no viable alternative at input " ++ quote text

end SyntaxError

def located (document : String) (p : Position) (message : String) : String :=
  document ++ ":" ++ toString p.line ++ ":" ++ toString p.column ++ " " ++ message

def SyntaxError.report (document : String) (e : SyntaxError) : String :=
  located document e.position e.message

def Remark.text : Remark → String
  | .attemptingFullContext => "reportAttemptingFullContext"
  | .ambiguity => "ambiguity"
  | .contextSensitivity => "reportContextSensitivity"

/-- The faults that are known once `seen` tokens were looked at, and those still to come. -/
def knownFaults (seen : Nat) (faults : List (Nat × Fault)) :
    List (Nat × Fault) × List (Nat × Fault) :=
  faults.span fun f => f.1 < seen

/-- Faults and remarks in the order in which they come up. -/
def timeline (seen : Nat) : List (Nat × Remark) → List (Nat × Fault) → Log
  | [], faults => (knownFaults seen faults).1.flatMap fun f => Log.line .err f.2.message
  | (n, r) :: remarks, faults =>
    let (known, later) := knownFaults n faults
    (known.flatMap fun f => Log.line .err f.2.message) ++ Log.line .out r.text
      ++ timeline seen remarks later

def Outcome.log {α : Type} (document : String) (s : Source) (o : Outcome α) : Log :=
  let c := o.cursor
  let before := timeline c.seen c.remarks.reverse s.faults
  match o with
  | .parsed _ _ => before
  | .failed e _ => before ++ Log.line .out (e.report document)

end InterfaceKit.Grammar
