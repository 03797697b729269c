/-!
# Tokens of the interface language

The kinds of token in the order of their rules: an earlier rule wins when two match the same text.
The keywords and the punctuation come first, so that a keyword is never read as a name.
-/
namespace InterfaceKit.Lexical

inductive Kind where
  | importWord | semicolon | moduleWord | interfaceWord | extendsWord | leftBrace | rightBrace
  | voidWord | leftParen | rightParen | constWord | signalWord | equals | readonlyWord | comma
  | boolWord | intWord | realWord | stringWord | varWord | listWord | less | greater | mapWord
  | modelWord | structWord | enumWord | flagWord
  | string | doubleString | singleString | tagLine | integer | hexInteger | tagIdentifier
  | identifier | version | docComment | whitespace | lineComment | blockComment
  deriving DecidableEq, Repr, Inhabited

namespace Kind

def all : List Kind :=
  [importWord, semicolon, moduleWord, interfaceWord, extendsWord, leftBrace, rightBrace,
   voidWord, leftParen, rightParen, constWord, signalWord, equals, readonlyWord, comma,
   boolWord, intWord, realWord, stringWord, varWord, listWord, less, greater, mapWord,
   modelWord, structWord, enumWord, flagWord,
   string, doubleString, singleString, tagLine, integer, hexInteger, tagIdentifier,
   identifier, version, docComment, whitespace, lineComment, blockComment]

def spelling? : Kind → Option String
  | importWord => some "import"
  | semicolon => some ";"
  | moduleWord => some "module"
  | interfaceWord => some "interface"
  | extendsWord => some "extends"
  | leftBrace => some "\x7b"
  | rightBrace => some "\x7d"
  | voidWord => some "void"
  | leftParen => some "("
  | rightParen => some ")"
  | constWord => some "const"
  | signalWord => some "signal"
  | equals => some "="
  | readonlyWord => some "readonly"
  | comma => some ","
  | boolWord => some "bool"
  | intWord => some "int"
  | realWord => some "real"
  | stringWord => some "string"
  | varWord => some "var"
  | listWord => some "list"
  | less => some "<"
  | greater => some ">"
  | mapWord => some "map"
  | modelWord => some "model"
  | structWord => some "struct"
  | enumWord => some "enum"
  | flagWord => some "flag"
  | _ => none

def className : Kind → String
  | string => "STRING"
  | doubleString => "DOUBLE_STRING"
  | singleString => "SINGLE_STRING"
  | tagLine => "TAGLINE"
  | integer => "INTCONSTANT"
  | hexInteger => "HEXCONSTANT"
  | tagIdentifier => "TAGIDENTIFIER"
  | identifier => "IDENTIFIER"
  | version => "VERSION"
  | docComment => "DOCCOMMENT"
  | whitespace => "WHITESPACE"
  | lineComment => "COMMENT"
  | blockComment => "MULTICOMM"
  | _ => "LITERAL"

/-- How a kind is written in a diagnostic: a spelling in quotes, or the name of the class. -/
def display (k : Kind) : String :=
  match k.spelling? with
  | some s => "'" ++ s ++ "'"
  | none => k.className

/-- White space and comments separate tokens and are not handed on. -/
def isSkipped : Kind → Bool
  | whitespace | lineComment | blockComment => true
  | _ => false

end Kind

/-- Lines count from one, columns from zero. -/
structure Position where
  line : Nat
  column : Nat
  deriving DecidableEq, Repr, Inhabited

namespace Position

def start : Position := { line := 1, column := 0 }

/-- Only a line feed starts a new line. -/
def step (p : Position) (c : Char) : Position :=
  if c = '\n' then { line := p.line + 1, column := 0 } else { p with column := p.column + 1 }

def past (p : Position) (text : List Char) : Position := text.foldl step p

end Position

structure Token where
  kind : Kind
  text : String
  position : Position
  /-- Whether surrogates stand in it, where its text has replacement characters. -/
  hasSurrogate : Bool := false
  deriving DecidableEq, Repr, Inhabited

/-- Line breaks and tabs are shown escaped in diagnostics. -/
def visible (text : List Char) : List Char :=
  text.flatMap fun c =>
    if c = '\n' then ['\\', 'n'] else if c = '\r' then ['\\', 'r']
    else if c = '\t' then ['\\', 't'] else [c]

def quote (text : String) : String := "'" ++ String.ofList (visible text.toList) ++ "'"

end InterfaceKit.Lexical
