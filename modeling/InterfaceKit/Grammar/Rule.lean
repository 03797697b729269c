import InterfaceKit.Lexical.Token

/-!
# The grammar of the interface language

Each rule has one production, a row of parts. No rule derives the empty text, so a part may be
absent only where it is written `maybe` or `many`.
-/
namespace InterfaceKit.Grammar
open Lexical

inductive Rule where
  | document | header | importLine | moduleHead | definition | interface | interfaceMember
  | operation | operationModifier | signal | property | propertyModifier | parameter | tag
  | tagAttribute | type | complexType | primitiveType | listType | mapType | modelType
  | struct | structField | enum | enumKind | enumMember | integer
  deriving DecidableEq, Repr, Inhabited

inductive Item where
  | token (kind : Kind)
  | rule (rule : Rule)
  deriving DecidableEq, Repr, Inhabited

inductive Part where
  | one (item : Item)
  | maybe (items : List Item)
  | many (item : Item)
  | choice (items : List Item)
  deriving DecidableEq, Repr, Inhabited

/-- A row of parts: a production, or what is left of one and of the rules that called it. -/
abbrev Form := List Part

namespace Rule

def all : List Rule :=
  [document, header, importLine, moduleHead, definition, interface, interfaceMember,
   operation, operationModifier, signal, property, propertyModifier, parameter, tag,
   tagAttribute, type, complexType, primitiveType, listType, mapType, modelType,
   struct, structField, enum, enumKind, enumMember, integer]

def name : Rule → String
  | document => "documentSymbol"
  | header => "headerSymbol"
  | importLine => "importSymbol"
  | moduleHead => "moduleSymbol"
  | definition => "definitionSymbol"
  | interface => "interfaceSymbol"
  | interfaceMember => "interfaceMemberSymbol"
  | operation => "operationSymbol"
  | operationModifier => "operationModifierSymbol"
  | signal => "signalSymbol"
  | property => "propertySymbol"
  | propertyModifier => "propertyModifierSymbol"
  | parameter => "operationParameterSymbol"
  | tag => "tagSymbol"
  | tagAttribute => "tagAttributeSymbol"
  | type => "typeSymbol"
  | complexType => "complexTypeSymbol"
  | primitiveType => "primitiveTypeSymbol"
  | listType => "listTypeSymbol"
  | mapType => "mapTypeSymbol"
  | modelType => "modelTypeSymbol"
  | struct => "structSymbol"
  | structField => "structFieldSymbol"
  | enum => "enumSymbol"
  | enumKind => "enumTypeSymbol"
  | enumMember => "enumMemberSymbol"
  | integer => "intSymbol"

def ofName? (s : String) : Option Rule := all.find? fun r => r.name = s

end Rule

def oneToken (k : Kind) : Part := .one (.token k)

def oneRule (r : Rule) : Part := .one (.rule r)

def maybeToken (k : Kind) : Part := .maybe [.token k]

/-- A documentation comment and tag lines may stand before every declaration. -/
def annotations : Form := [maybeToken .docComment, .many (.rule .tag)]

/-- The container types name the one type that they hold. -/
def containerOf (k : Kind) : Form := [oneToken k, oneToken .less, oneRule .type, oneToken .greater]

def Rule.production : Rule → Form
  | .document => [oneRule .header, .many (.rule .definition)]
  | .header => [oneRule .moduleHead, .many (.rule .importLine)]
  | .importLine =>
    [oneToken .importWord, oneToken .identifier, oneToken .version, maybeToken .semicolon]
  | .moduleHead =>
    annotations ++ [oneToken .moduleWord, oneToken .identifier, oneToken .version,
      maybeToken .semicolon]
  | .definition => [.choice [.rule .interface, .rule .struct, .rule .enum]]
  | .interface =>
    annotations ++ [oneToken .interfaceWord, oneToken .identifier,
      .maybe [.token .extendsWord, .token .identifier], oneToken .leftBrace,
      .many (.rule .interfaceMember), oneToken .rightBrace, maybeToken .semicolon]
  | .interfaceMember => [.choice [.rule .operation, .rule .property, .rule .signal]]
  | .operation =>
    annotations ++ [.choice [.rule .type, .token .voidWord], oneToken .identifier,
      oneToken .leftParen, .many (.rule .parameter), oneToken .rightParen,
        .maybe [.rule .operationModifier],
      maybeToken .semicolon]
  | .operationModifier => [oneToken .constWord]
  | .signal =>
    annotations ++ [oneToken .signalWord, oneToken .identifier, oneToken .leftParen,
      .many (.rule .parameter), oneToken .rightParen, maybeToken .semicolon]
  | .property =>
    annotations ++ [.maybe [.rule .propertyModifier], oneRule .type, oneToken .identifier,
      .maybe [.token .equals, .token .string], maybeToken .semicolon]
  | .propertyModifier => [.choice [.token .readonlyWord, .token .constWord]]
  | .parameter => [oneRule .type, oneToken .identifier, maybeToken .comma]
  | .tag => [oneToken .tagLine]
  | .tagAttribute =>
    [oneToken .identifier, .maybe [.token .equals, .token .identifier], maybeToken .comma]
  | .type =>
    [.choice [.rule .primitiveType, .rule .complexType, .rule .listType, .rule .mapType,
      .rule .modelType]]
  | .complexType => [oneToken .identifier]
  | .primitiveType =>
    [.choice [.token .boolWord, .token .intWord, .token .realWord, .token .stringWord,
      .token .varWord]]
  | .listType => containerOf .listWord
  | .mapType => containerOf .mapWord
  | .modelType => containerOf .modelWord
  | .struct =>
    annotations ++ [oneToken .structWord, oneToken .identifier, oneToken .leftBrace,
      .many (.rule .structField), oneToken .rightBrace, maybeToken .semicolon]
  | .structField =>
    annotations ++ [oneRule .type, oneToken .identifier, .maybe [.token .equals, .token .string],
      maybeToken .semicolon]
  | .enum =>
    annotations ++ [oneRule .enumKind, oneToken .identifier, oneToken .leftBrace,
      .many (.rule .enumMember), oneToken .rightBrace, maybeToken .semicolon]
  | .enumKind => [.choice [.token .enumWord, .token .flagWord]]
  | .enumMember =>
    annotations ++ [oneToken .identifier, .maybe [.token .equals, .rule .integer], maybeToken .comma]
  | .integer => [.choice [.token .integer, .token .hexInteger]]

end InterfaceKit.Grammar
