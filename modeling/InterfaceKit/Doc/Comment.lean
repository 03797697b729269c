import InterfaceKit.Failure
import InterfaceKit.Text.Word

/-!
# Documentation comments

Each line of a comment belongs to one tag: to the one that it declares, else to the one declared
last with no empty line in between, else to the description. The tags that are known collect their
lines; a line of any other is reported.
-/
namespace InterfaceKit.Doc

/-- One collected line; a tag that was declared without a text leaves a mark. -/
inductive Entry where
  | mark
  | text (s : String)
  deriving DecidableEq, Repr

structure Comment where
  brief : List Entry := []
  description : List Entry := []
  see : List Entry := []
  deprecated : Bool := false
  deriving DecidableEq, Repr

/-- How an inline tag with its value is written out. -/
abbrev InlineForm := List Char → List Char → List Char

/-- Writes an inline tag as it was read, with one blank between the tag and its value. -/
def keepInline : InlineForm := fun name value =>
  '\x7b' :: '@' :: name ++ ' ' :: value ++ ['\x7d']

/-- Recognises an inline tag at the front of a text: a word, blanks, and a value up to the closing
brace. Gives the word, the value and the rest. -/
def inlineTag? (text : List Char) : Option (List Char × List Char × List Char) :=
  match text with
  | '\x7b' :: '@' :: body =>
    let name := body.takeWhile Text.isWord
    let afterName := body.dropWhile Text.isWord
    let behind := afterName.dropWhile Text.isBlank
    let value := behind.takeWhile (· ≠ '\x7d')
    match name, afterName.takeWhile Text.isBlank, behind.dropWhile (· ≠ '\x7d') with
    | [], _, _ | _, [], _ | _, _, [] => none
    | name, _, _ :: rest => some (name, value, rest)
  | _ => none

/-- Writes out the inline tags of a text from left to right, in at most `limit` steps. -/
def replaceInlineUpTo (form : InlineForm) : Nat → List Char → List Char
  | 0, text => text
  | _ + 1, [] => []
  | limit + 1, c :: cs =>
    match inlineTag? (c :: cs) with
    | some (name, value, rest) => form name value ++ replaceInlineUpTo form limit rest
    | none => c :: replaceInlineUpTo form limit cs

def replaceInline (form : InlineForm) (text : List Char) : List Char :=
  replaceInlineUpTo form text.length text

namespace Comment

/-- Gives an entry to a tag. A few tags are taken without a trace. -/
def add (form : InlineForm) (c : Comment) (tag : List Char) (entry : Option (List Char)) :
    Comment × Log :=
  let e : Entry := match entry with
    | some text => .text (String.ofList (replaceInline form text))
    | none => .mark
  match String.ofList tag with
  | "brief" => ({ c with brief := c.brief ++ [e] }, [])
  | "description" => ({ c with description := c.description ++ [e] }, [])
  | "see" => ({ c with see := c.see ++ [e] }, [])
  | "deprecated" => ({ c with deprecated := e ≠ .text "" }, [])
  | "__doc__" | "__module__" => (c, [])
  | name => (c, Log.line .out ("documentation tag @" ++ name ++ " not supported"))

/-- The state of reading: the comment so far, the tag in force and what was printed. -/
structure Reading where
  comment : Comment := {}
  tag : Option (List Char) := none
  log : Log := []

def Reading.give (form : InlineForm) (r : Reading) (tag : List Char)
    (entry : Option (List Char)) : Reading :=
  let (c, log) := r.comment.add form tag entry
  { r with comment := c, log := r.log ++ log }

/-- Reads one line, already without its leading blanks and stars. -/
def Reading.line (form : InlineForm) (r : Reading) (line : List Char) : Reading :=
  match line with
  | [] => { r with tag := none }
  | '@' :: rest =>
    match Text.splitWord rest with
    | ([], _) => r
    | (tag, []) => { r.give form tag none with tag := some tag }
    | (tag, text) => { r.give form tag (some text) with tag := some tag }
  | text => r.give form (r.tag.getD "description".toList) (some text)

def body (text : List Char) : List Char := (text.drop 3).take (text.length - 5)

def read (form : InlineForm) (text : List Char) : Reading :=
  ((Text.lines (body text)).map fun l => l.dropWhile fun c => c = ' ' || c = '*').foldl
    (Reading.line form) {}

/-- Reads a comment; the empty text holds none. -/
def parse (form : InlineForm) (text : String) : Option Comment × Log :=
  if text.isEmpty then (none, [])
  else
    let r := read form text.toList
    (some r.comment, r.log)

end Comment

end InterfaceKit.Doc
