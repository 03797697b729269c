import InterfaceKit.Workspace.Inquiry

/-!
# Values as texts

A value in a text is written plainly; inside a list or a mapping texts are quoted, and so on.
-/
namespace InterfaceKit
open Data Model

namespace Workspace

def systemAt (w : Workspace) (n : Nat) : System := w.systems.getD n {}

def entityName (w : Workspace) (n : Nat) : Entity → String
  | .system => "<System>"
  | .symbol h => (((w.systemAt n).common? h).map (·.name)).getD ""

def typeName (w : Workspace) (n : Nat) (t : TypeHandle) : String :=
  (((w.systemAt n).layer? t).map (·.name)).getD ""

def symbolsIn (w : Workspace) (n : Nat) (owner : Entity) (part : Section) : List Handle :=
  let s := w.systemAt n
  match owner with
  | .system => if part = .modules then s.modules.map fun id => ⟨id, .module⟩ else []
  | .symbol h =>
    match s.module? h.module with
    | some m => ((m.sectionOf h.place part).getD []).map fun p => ⟨h.module, p⟩
    | none => []

def symbolText (className name : String) : String :=
  "<<class 'qface.idl.domain." ++ className ++ "'> name=" ++ name ++ ">"

def quotedByte (b : UInt8) : List Char :=
  let n := b.toNat
  if n = 92 then ['\\', '\\']
  else if n = 9 then ['\\', 't']
  else if n = 10 then ['\\', 'n']
  else if n = 13 then ['\\', 'r']
  else if 32 ≤ n && n < 127 then [Char.ofNat n]
  else ['\\', 'x'] ++ Json.hex 2 n

def quotedBytes (bs : List UInt8) : String :=
  let quote := if bs.contains 39 && !bs.contains 34 then '"' else '\''
  let body := bs.flatMap fun b =>
    if b = 39 && quote = '\'' then ['\\', '\''] else quotedByte b
  "b" ++ String.ofList (quote :: body ++ [quote])

def dateText (d : Date) : String :=
  "datetime.date(" ++ toString d.year ++ ", " ++ toString d.month ++ ", " ++ toString d.day ++ ")"

def momentText (m : Moment) : String :=
  let zone := match m.zone with
    | none => []
    | some 0 => ["tzinfo=datetime.timezone.utc"]
    | some z =>
      let seconds := (z * 60).natAbs
      let delta := if z < 0
        then "datetime.timedelta(days=-1, seconds=" ++ toString (86400 - seconds) ++ ")"
        else "datetime.timedelta(seconds=" ++ toString seconds ++ ")"
      ["tzinfo=datetime.timezone(" ++ delta ++ ")"]
  let numbers := [m.date.year, m.date.month, m.date.day, m.hour, m.minute]
    ++ (if m.second = 0 && m.micro = 0 then [] else if m.micro = 0 then [m.second]
      else [m.second, m.micro])
  "datetime.datetime(" ++ String.intercalate ", " (numbers.map toString ++ zone) ++ ")"

def undefinedText (u : Undefined) : String := if u.strict then "TestableUndefined" else "Undefined"

mutual
def quoteUpTo (w : Workspace) : Nat → Value → String
  | _, .null => "None"
  | _, .bool b => if b then "True" else "False"
  | _, .int i => toString i
  | _, .float d => d.text
  | _, .text t => Text.quoted t
  | _, .bytes bs => quotedBytes bs
  | _, .date d => dateText d
  | _, .moment m => momentText m
  | _, .entity _ .system => "<System>"
  | _, .entity n (.symbol h) => symbolText (placeClass h.place) (w.entityName n (.symbol h))
  | _, .type n t => symbolText "TypeSymbol" (w.typeName n t)
  | _, .path p => "PosixPath(" ++ Text.quoted p.toString ++ ")"
  | _, .comment _ => "<DocObject>"
  | _, .undefined u => undefinedText u
  | _, .library name => "<TemplateModule " ++ Text.quoted name ++ ">"
  | _, .routine _ name => "<Macro " ++ Text.quoted name ++ ">"
  | _, .other name => "<" ++ name ++ ">"
  | 0, .view _ _ _ | 0, .ref _ => "..."
  | fuel + 1, .view n owner part =>
    let items := (w.symbolsIn n owner part).map fun h => Value.entity n (.symbol h)
    w.store.className (.view n owner part) ++ "([" ++ quoteItems w fuel items ++ "])"
  | fuel + 1, .ref i =>
    match w.store.get? i with
    | some (.list xs) => "[" ++ quoteItems w fuel xs ++ "]"
    | some (.tuple [x]) => "(" ++ quoteUpTo w fuel x ++ ",)"
    | some (.tuple xs) => "(" ++ quoteItems w fuel xs ++ ")"
    | some (.set []) => "set()"
    | some (.set xs) => "\x7b" ++ quoteItems w fuel xs ++ "\x7d"
    | some (.map es) => "\x7b" ++ quoteEntries w fuel es ++ "\x7d"
    | none => ""

def quoteItems (w : Workspace) : Nat → List Value → String
  | _, [] => ""
  | 0, _ :: _ => "..."
  | fuel + 1, [x] => quoteUpTo w fuel x
  | fuel + 1, x :: xs => quoteUpTo w fuel x ++ ", " ++ quoteItems w fuel xs

def quoteEntries (w : Workspace) : Nat → List (Value × Value) → String
  | _, [] => ""
  | 0, _ :: _ => "..."
  | fuel + 1, [(k, v)] => quoteUpTo w fuel k ++ ": " ++ quoteUpTo w fuel v
  | fuel + 1, (k, v) :: es =>
    quoteUpTo w fuel k ++ ": " ++ quoteUpTo w fuel v ++ ", " ++ quoteEntries w fuel es
end

/-- How a value is written inside another one; the walk is bounded by the size of the store. -/
def quote (w : Workspace) (v : Value) : String :=
  let views := w.systems.foldl (fun n s => s.archive.length + s.walk.length + n) 0
  w.quoteUpTo (w.store.extent + views + 2) v

def text (w : Workspace) : Value → String
  | .text t => t
  | .date d => d.toString
  | .moment m => m.toString " "
  | .entity n e => w.entityName n e
  | .type n t => w.typeName n t
  | .path p => p.toString
  | .undefined _ => ""
  | v => w.quote v

end Workspace

namespace Inquiry

def text (v : Value) : Inquiry String := do return (← read).text v

def quote (v : Value) : Inquiry String := do return (← read).quote v

end Inquiry

end InterfaceKit
