import InterfaceKit.Lexical.Pattern
import InterfaceKit.Lexical.Token

/-!
# The lexicon

One pattern for each kind of token. A block comment and a documentation comment run up to the first
closing mark behind their opening one; `upToClose` describes exactly those texts, so that no pattern
has to be told to be reluctant.
-/
namespace InterfaceKit.Lexical

namespace Pattern

def digit : Pattern := char { ranges := [('0', '9')] }

def letters : List (Char × Char) := [('a', 'z'), ('A', 'Z'), ('_', '_')]

/-- A name: a letter or underscore, then letters, digits, underscores and dots. -/
def name : Pattern :=
  seq (char { ranges := letters }) (star (char { ranges := letters ++ [('0', '9'), ('.', '.')] }))

/-- The texts that end in a star and a slash and have that pair nowhere before. -/
def upToClose : Pattern :=
  let starry := plus (char (.single '*'))
  seq (star (alt (char (.noneOf ['*'])) (seq starry (char (.noneOf ['*', '/'])))))
    (seq starry (char (.single '/')))

/-- A text between two marks `q`; a backslash must be followed by one of the known letters. -/
def quoted (q : Char) : Pattern :=
  let escape := seq (char (.single '\\')) (char (.ofList ['"', '\\', '/', 'b', 'f', 'n', 'r', 't']))
  seq (char (.single q)) (seq (star (alt escape (char (.noneOf [q, '\\'])))) (char (.single q)))

def restOfLine : Pattern := star (char (.noneOf ['\r', '\n']))

end Pattern

open Pattern in
def Kind.pattern (k : Kind) : Pattern :=
  match k.spelling?, k with
  | some s, _ => literal s.toList
  | none, .string => alt (quoted '"') (quoted '\'')
  | none, .doubleString => quoted '"'
  | none, .singleString => quoted '\''
  | none, .tagLine => seq (char (.single '@')) restOfLine
  | none, .integer => seq (optional (char (.ofList ['+', '-']))) (plus digit)
  | none, .hexInteger =>
    seq (literal ['0', 'x']) (plus (char { ranges := [('0', '9'), ('a', 'f'), ('A', 'F')] }))
  | none, .tagIdentifier => seq (char (.single '@')) name
  | none, .identifier => name
  | none, .version => seq digit (seq (char (.single '.')) digit)
  | none, .docComment => seq (literal ['/', '*', '*']) upToClose
  | none, .whitespace => plus (char (.ofList [' ', '\t', '\r', '\n']))
  | none, .lineComment => seq (literal ['/', '/']) restOfLine
  | none, .blockComment => seq (literal ['/', '*']) upToClose
  | none, _ => never

/-- Every kind with its pattern, in the order in which ties are decided. -/
def lexicon : List (Kind × Pattern) := Kind.all.map fun k => (k, k.pattern)

end InterfaceKit.Lexical
