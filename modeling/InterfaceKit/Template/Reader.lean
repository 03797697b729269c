import InterfaceKit.Template.Node
import InterfaceKit.Template.Token

/-!
# Reading templates

Expressions bind, from the loosest to the tightest: conditions, `or`, `and`, `not`, comparisons,
sums, concatenations, products, signs, and what follows a value (members, items, calls and filters).
-/
namespace InterfaceKit.Template

/-- The state of reading: the tokens that are left, the filters that are known, and which tags would
end the constructs that are open, the innermost first. -/
structure Reader where
  tokens : List Token
  line : Nat := 1
  known : List String
  /-- Inside a branch an unknown filter is no fault before it is used. -/
  tolerant : Bool := false
  endings : List (List String) := []
  constructs : List String := []

abbrev Read := StateT Reader (Except Fault)

namespace Read

def fail {α : Type} (message : String) : Read α := do throw ⟨message, (← get).line⟩

def failAt {α : Type} (line : Nat) (message : String) : Read α := throw ⟨message, line⟩

def peek : Read (Option TokenKind) := do return (← get).tokens.head?.map (·.kind)

def nextTwo : Read (Option TokenKind × Option TokenKind) := do
  let s ← get
  return (s.tokens.head?.map (·.kind), (s.tokens.drop 1).head?.map (·.kind))

def line : Read Nat := do
  let s ← get
  return (s.tokens.head?.map (·.line)).getD s.line

def skip : Read Unit := modify fun s =>
  { s with tokens := s.tokens.drop 1, line := (s.tokens.head?.map (·.line)).getD s.line }

def takeMark (m : String) : Read Bool := do
  if (← peek) = some (.mark m) then
    skip
    return true
  return false

def takeWord (w : String) : Read Bool := do
  if (← peek) = some (.word w) then
    skip
    return true
  return false

def describe : Option TokenKind → String
  | some (.text _) => "template data / text"
  | some .outputStart => "begin of print statement"
  | some .outputEnd => "end of print statement"
  | some .tagStart => "begin of statement block"
  | some .tagEnd => "end of statement block"
  | some (.word s) | some (.mark s) => s
  | some (.string _) => "string"
  | some (.int _) => "integer"
  | some (.float _) => "float"
  | none => "end of template"

def expect (kind : TokenKind) : Read Unit := do
  let found ← peek
  if found = some kind then skip
  else
    failAt (← line)
      ("expected token '" ++ describe (some kind) ++ "', got '" ++ describe found ++ "'")

def word : Read String := do
  match ← peek with
  | some (.word w) =>
    skip
    return w
  | found => failAt (← line) ("expected token 'name', got '" ++ describe found ++ "'")

def literalWord? : String → Option Literal
  | "true" | "True" => some (.bool true)
  | "false" | "False" => some (.bool false)
  | "none" | "None" => some .null
  | _ => none

def comparison? : TokenKind → Option Operator
  | .mark "==" => some .equal
  | .mark "!=" => some .unequal
  | .mark "<" => some .less
  | .mark "<=" => some .lessEqual
  | .mark ">" => some .greater
  | .mark ">=" => some .greaterEqual
  | .word "in" => some .isIn
  | _ => none

/-- A filter name may have several words with dots between them. -/
def dotted : Nat → String → Read String
  | 0, name => return name
  | fuel + 1, name => do
    if ← takeMark "." then dotted fuel (name ++ "." ++ (← word)) else return name

/-! ## Expressions -/

mutual
def condition (fuel : Nat) : Read Expr := do
  match fuel with
  | 0 => fail "expression too deep"
  | fuel + 1 =>
    let e ← either fuel
    conditionRest fuel e

def conditionRest (fuel : Nat) (e : Expr) : Read Expr := do
  match fuel with
  | 0 => return e
  | fuel + 1 =>
    if ← takeWord "if" then
      let test ← either fuel
      if ← takeWord "else" then
        let other ← condition fuel
        conditionRest fuel (.choice test e (some other))
      else conditionRest fuel (.choice test e none)
    else return e

def either (fuel : Nat) : Read Expr := do
  match fuel with
  | 0 => fail "expression too deep"
  | fuel + 1 =>
    let a ← both fuel
    eitherRest fuel a

def eitherRest (fuel : Nat) (a : Expr) : Read Expr := do
  match fuel with
  | 0 => return a
  | fuel + 1 => if ← takeWord "or" then eitherRest fuel (.either a (← both fuel)) else return a

def both (fuel : Nat) : Read Expr := do
  match fuel with
  | 0 => fail "expression too deep"
  | fuel + 1 =>
    let a ← negation fuel
    bothRest fuel a

def bothRest (fuel : Nat) (a : Expr) : Read Expr := do
  match fuel with
  | 0 => return a
  | fuel + 1 => if ← takeWord "and" then bothRest fuel (.both a (← negation fuel)) else return a

def negation (fuel : Nat) : Read Expr := do
  match fuel with
  | 0 => fail "expression too deep"
  | fuel + 1 =>
    if ← takeWord "not" then return .not (← negation fuel)
    comparison fuel

def comparison (fuel : Nat) : Read Expr := do
  match fuel with
  | 0 => fail "expression too deep"
  | fuel + 1 =>
    let a ← sum fuel
    comparisonRest fuel a

def comparisonRest (fuel : Nat) (a : Expr) : Read Expr := do
  match fuel with
  | 0 => return a
  | fuel + 1 =>
    match (← peek).bind comparison? with
    | some op =>
      skip
      comparisonRest fuel (.binary op a (← sum fuel))
    | none =>
      match ← nextTwo with
      | (some (.word "not"), some (.word "in")) =>
        skip
        skip
        comparisonRest fuel (.binary .isNotIn a (← sum fuel))
      | _ => return a

def sum (fuel : Nat) : Read Expr := do
  match fuel with
  | 0 => fail "expression too deep"
  | fuel + 1 =>
    let a ← concatenation fuel
    sumRest fuel a

def sumRest (fuel : Nat) (a : Expr) : Read Expr := do
  match fuel with
  | 0 => return a
  | fuel + 1 =>
    if ← takeMark "+" then sumRest fuel (.binary .add a (← concatenation fuel))
    else if ← takeMark "-" then sumRest fuel (.binary .subtract a (← concatenation fuel))
    else return a

def concatenation (fuel : Nat) : Read Expr := do
  match fuel with
  | 0 => fail "expression too deep"
  | fuel + 1 =>
    let a ← product fuel
    concatenationRest fuel a

def concatenationRest (fuel : Nat) (a : Expr) : Read Expr := do
  match fuel with
  | 0 => return a
  | fuel + 1 =>
    if ← takeMark "~" then concatenationRest fuel (.binary .concat a (← product fuel)) else return a

def product (fuel : Nat) : Read Expr := do
  match fuel with
  | 0 => fail "expression too deep"
  | fuel + 1 =>
    let a ← signed fuel true
    productRest fuel a

def productRest (fuel : Nat) (a : Expr) : Read Expr := do
  match fuel with
  | 0 => return a
  | fuel + 1 =>
    if ← takeMark "*" then productRest fuel (.binary .multiply a (← signed fuel true)) else return a

def signed (fuel : Nat) (filtered : Bool) : Read Expr := do
  match fuel with
  | 0 => fail "expression too deep"
  | fuel + 1 =>
    let e ← if ← takeMark "-" then do pure (Expr.negate (← signed fuel false))
      else do
        let e ← primary fuel
        followers fuel e
    if filtered then filters fuel e else return e

def primary (fuel : Nat) : Read Expr := do
  match fuel with
  | 0 => fail "expression too deep"
  | fuel + 1 =>
    match ← peek with
    | some (.word w) =>
      skip
      return match literalWord? w with
        | some l => .literal l
        | none => .name w
    | some (.string s) =>
      skip
      strings fuel s
    | some (.int n) =>
      skip
      return .literal (.int n)
    | some (.float d) =>
      skip
      return .literal (.float d)
    | some (.mark "(") =>
      skip
      let e ← condition fuel
      expect (.mark ")")
      return e
    | some (.mark "[") =>
      skip
      return .list (← listItems fuel)
    | found => failAt (← line) ("unexpected '" ++ describe found ++ "'")

/-- Texts that follow each other are one text. -/
def strings (fuel : Nat) (s : String) : Read Expr := do
  match fuel with
  | 0 => return .literal (.text s)
  | fuel + 1 =>
    match ← peek with
    | some (.string t) =>
      skip
      strings fuel (s ++ t)
    | _ => return .literal (.text s)

def listItems (fuel : Nat) : Read (List Expr) := do
  match fuel with
  | 0 => fail "expression too deep"
  | fuel + 1 =>
    if ← takeMark "]" then return []
    let e ← condition fuel
    if ← takeMark "," then return e :: (← listItems fuel)
    expect (.mark "]")
    return [e]

/-- What follows a value without a blank mattering: members, items and calls. -/
def followers (fuel : Nat) (e : Expr) : Read Expr := do
  match fuel with
  | 0 => return e
  | fuel + 1 =>
    if ← takeMark "." then
      match ← peek with
      | some (.int n) =>
        skip
        followers fuel (.item e (.literal (.int n)))
      | _ => followers fuel (.member e (← word))
    else if ← takeMark "[" then
      let key ← condition fuel
      expect (.mark "]")
      followers fuel (.item e key)
    else if ← takeMark "(" then
      let (args, named) ← arguments fuel
      followers fuel (.call e args named)
    else return e

def filters (fuel : Nat) (e : Expr) : Read Expr := do
  match fuel with
  | 0 => return e
  | fuel + 1 =>
    if ← takeMark "|" then
      let line ← Read.line
      let name ← dotted fuel (← word)
      let (args, named) ← if ← takeMark "(" then arguments fuel else pure ([], [])
      let s ← get
      if !s.tolerant && !s.known.contains name then failAt line ("No filter named '" ++ name ++ "'.")
      filters fuel (.filter e name args named)
    else if ← takeWord "is" then
      let negated ← takeWord "not"
      let test ← word
      let defined := Expr.isDefined e
      let result ← match test with
        | "defined" => pure defined
        | "undefined" => pure (Expr.not defined)
        | "none" => pure (Expr.binary .equal e (.literal .null))
        | other => failAt (← Read.line) ("No test named '" ++ other ++ "'.")
      filters fuel (if negated then .not result else result)
    else return e

def arguments (fuel : Nat) : Read (List Expr × List (String × Expr)) := do
  match fuel with
  | 0 => fail "expression too deep"
  | fuel + 1 =>
    if ← takeMark ")" then return ([], [])
    let (args, named) ← match ← nextTwo with
      | (some (.word w), some (.mark "=")) => do
        skip
        skip
        pure ([], [(w, ← condition fuel)])
      | _ => do pure ([← condition fuel], [])
    if ← takeMark "," then
      let (moreArgs, moreNamed) ← arguments fuel
      return (args ++ moreArgs, named ++ moreNamed)
    expect (.mark ")")
    return (args, named)
end

def fuel : Read Nat := do return 16 * ((← get).tokens.length + 4)

def expression : Read Expr := do condition (← fuel)

/-! ## Tags -/

def either? (names : List String) : String :=
  String.intercalate " or " (names.map fun n => "'" ++ n ++ "'")

/-- The report on a tag that does not fit, or on the end of the template. -/
def misplaced {α : Type} (tag : Option String) (at1 : Nat) : Read α := do
  let s ← get
  let first := match tag with
    | some t => "Encountered unknown tag '" ++ t ++ "'."
    | none => "Unexpected end of template."
  let looking := match s.endings with
    | [] => []
    | names :: _ =>
      if (tag.map fun t => s.endings.any (·.contains t)).getD false then
        ["You probably made a nesting mistake. Jinja is expecting this tag, but currently looking for "
          ++ either? names ++ "."]
      else ["Jinja was looking for the following tags: " ++ either? names ++ "."]
  let innermost := match s.constructs with
    | [] => []
    | c :: _ => ["The innermost block that needs to be closed is '" ++ c ++ "'."]
  failAt at1 (String.intercalate " " (first :: looking ++ innermost))

/-- Reads a body within a construct that the given tags end. -/
def within {α : Type} (endings : List String) (body : Read α) : Read α := do
  modify fun s => { s with endings := endings :: s.endings }
  let a ← body
  modify fun s => { s with endings := s.endings.drop 1 }
  return a

def names : Nat → Read (List String)
  | 0 => return []
  | fuel + 1 => do
    let n ← word
    if ← takeMark "," then return n :: (← names fuel)
    return [n]

def bindings : Nat → Read (List (String × Expr))
  | 0 => return []
  | fuel + 1 => do
    if (← peek) = some .tagEnd then return []
    let n ← word
    expect (.mark "=")
    let e ← expression
    let _ ← takeMark ","
    return (n, e) :: (← bindings fuel)

def parameters : Nat → Read (List (String × Option Expr))
  | 0 => return []
  | fuel + 1 => do
    if ← takeMark ")" then return []
    let n ← word
    let value ← if ← takeMark "=" then do pure (some (← expression)) else pure none
    if ← takeMark "," then return (n, value) :: (← parameters fuel)
    expect (.mark ")")
    return [(n, value)]

def tolerantly {α : Type} (body : Read α) : Read α := do
  let before := (← get).tolerant
  modify fun s => { s with tolerant := true }
  let a ← body
  modify fun s => { s with tolerant := before }
  return a

mutual
/-- Reads up to a tag that ends the present construct; its start and its name have been taken
then. -/
def nodes (fuel : Nat) : Read (List Node × Option String) := do
  match fuel with
  | 0 => fail "template too deep"
  | fuel + 1 =>
    match ← peek with
    | none => return ([], none)
    | some (.text s) =>
      skip
      let (rest, ending) ← nodes fuel
      return (.text s :: rest, ending)
    | some .outputStart =>
      skip
      let line ← Read.line
      let e ← expression
      expect .outputEnd
      let (rest, ending) ← nodes fuel
      return (.output line e :: rest, ending)
    | some .tagStart =>
      skip
      let line ← Read.line
      let name ← match ← peek with
        | some (.word w) => pure w
        | _ => fail "tag name expected"
      if ((← get).endings.headD []).contains name then
        skip
        return ([], some name)
      skip
      let node ← statement fuel line name
      expect .tagEnd
      let (rest, ending) ← nodes fuel
      return (node :: rest, ending)
    | found => fail ("unexpected '" ++ describe found ++ "'")

/-- Reads the body of a construct up to one of the tags that end it. -/
def body (fuel : Nat) (endings : List String) : Read (List Node × String) := do
  match fuel with
  | 0 => fail "template too deep"
  | fuel + 1 =>
    expect .tagEnd
    within endings do
      let (ns, ending) ← nodes fuel
      match ending with
      | some e => return (ns, e)
      | none => misplaced none (← Read.line)

def statement (fuel : Nat) (line : Nat) (name : String) : Read Node := do
  match fuel with
  | 0 => fail "template too deep"
  | fuel + 1 =>
    modify fun s => { s with constructs := name :: s.constructs }
    let node ← match name with
      | "if" => tolerantly (branch fuel line)
      | "for" => do
        let targets ← names fuel
        if !(← takeWord "in") then
          failAt (← Read.line) ("expected token 'in', got '" ++ describe (← peek) ++ "'")
        let row ← either fuel
        let (ns, ending) ← body fuel ["endfor", "else"]
        if ending = "else" then
          let (other, _) ← body fuel ["endfor"]
          pure (Node.loop line targets row ns other)
        else pure (Node.loop line targets row ns [])
      | "with" => do
        let bs ← bindings fuel
        let (ns, _) ← body fuel ["endwith"]
        pure (Node.scope line bs ns)
      | "set" => do
        let n ← word
        expect (.mark "=")
        pure (Node.assign line n (← expression))
      | "import" => do
        let e ← expression
        if !(← takeWord "as") then
          failAt (← Read.line) ("expected token 'as', got '" ++ describe (← peek) ++ "'")
        pure (Node.library line e (← word))
      | "macro" => do
        let n ← word
        expect (.mark "(")
        let ps ← parameters fuel
        let (ns, _) ← body fuel ["endmacro"]
        pure (Node.routine line n ps ns)
      | other => do
        modify fun s => { s with constructs := s.constructs.drop 1 }
        misplaced (some other) line
    modify fun s => { s with constructs := s.constructs.drop 1 }
    return node

def branch (fuel : Nat) (line : Nat) : Read Node := do
  match fuel with
  | 0 => fail "template too deep"
  | fuel + 1 =>
    let test ← either fuel
    let (ns, ending) ← body fuel ["elif", "else", "endif"]
    match ending with
    | "elif" =>
      let inner ← branch fuel (← Read.line)
      return .branch line test ns [inner]
    | "else" =>
      let (other, _) ← body fuel ["endif"]
      return .branch line test ns other
    | _ => return .branch line test ns []
end

end Read

def parse (known : List String) (source : String) : Except Fault (List Node) := do
  let tokens ← tokens source
  let read : Read (List Node) := do
    let (ns, _) ← Read.nodes (← Read.fuel)
    return ns
  let (ns, _) ← read.run { tokens, known }
  return ns

end InterfaceKit.Template
