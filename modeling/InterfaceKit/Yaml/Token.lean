import InterfaceKit.Text.Utf8

/-!
# Tokens of a YAML text

Blocks are shown by their opening and closing tokens, as flow collections are; indentation is gone.
A token keeps the line on which it starts, counted from zero, for reports.
-/
namespace InterfaceKit.Yaml

inductive TokenKind where
  | streamEnd
  | versionDirective (major minor : Nat)
  | tagDirective (handle value : String)
  | documentStart
  | documentEnd
  | blockSequenceStart
  | blockMappingStart
  | blockEnd
  | flowSequenceStart
  | flowSequenceEnd
  | flowMappingStart
  | flowMappingEnd
  | blockEntry
  | flowEntry
  | key
  | value
  | alias (name : String)
  | anchor (name : String)
  | tag (handle suffix : String)
  | scalar (text : String) (plain : Bool)
  deriving DecidableEq, Repr

structure Token where
  kind : TokenKind
  line : Nat
  deriving DecidableEq, Repr

def isBreak (c : Char) : Bool :=
  c = '\n' || c = '\r' || c.toNat = 0x85 || c.toNat = 0x2028 || c.toNat = 0x2029

/-- Behind the end of a text there is the zero character, which no text contains. -/
def isEnd (c : Char) : Bool := c.toNat = 0

def isBreakOrEnd (c : Char) : Bool := isBreak c || isEnd c

def isSpace (c : Char) : Bool := c = ' ' || c = '\t'

def isGap (c : Char) : Bool := isSpace c || isBreakOrEnd c

def isNameChar (c : Char) : Bool := c.isAlphanum || c = '_' || c = '-'

def isAcceptable (c : Char) : Bool :=
  let n := c.toNat
  n = 0x09 || n = 0x0A || n = 0x0D || (0x20 ≤ n && n ≤ 0x7E) || n = 0x85
    || (0xA0 ≤ n && n ≤ 0xD7FF) || (0xE000 ≤ n && n ≤ 0xFFFD)
    || (0x10000 ≤ n && n ≤ 0x10FFFF)

/-- The first character that a text may not contain, with the number of bytes before it. -/
def firstUnacceptable (offset : Nat) : List Char → Option (Char × Nat)
  | [] => none
  | c :: cs =>
    if isAcceptable c then firstUnacceptable (offset + (Text.utf8Char c).length) cs
    else some (c, offset)

end InterfaceKit.Yaml
