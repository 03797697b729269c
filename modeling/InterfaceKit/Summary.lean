import InterfaceKit.Documents

/-!
# Summaries of modules
-/
namespace InterfaceKit
open Model

structure Summary where
  title : String
  brief : String
  deriving Repr

/-- The lines of a brief description joined; a tag without a text cannot be joined. -/
def joinEntries : List Doc.Entry → Except Failure String
  | [] => .ok ""
  | es => do
    let texts ← es.mapM fun
      | .text s => .ok s
      | .mark => .error (.wrongType "sequence item 0: expected str instance, bool found")
    .ok (String.intercalate " " texts)

/-- Reads a document and gives the name of its module with the brief description in its comment. -/
def Act.summary (text : String) : Act Summary := do
  let n ← newSystem
  readSystemText n .full text
  let s ← system n
  match s.modules.head?.bind s.module? with
  | none => throw (.outOfRange "list index out of range")
  | some m =>
    let (comment, log) := Doc.Comment.parse Doc.keepInline m.common.comment
    printAll log
    match comment with
    | none => throw (.missingAttribute "NoneType" "brief")
    | some c => return { title := m.name, brief := ← lift (joinEntries c.brief) }

end InterfaceKit
