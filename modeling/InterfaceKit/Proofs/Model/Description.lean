import InterfaceKit.Model.Draft
import InterfaceKit.Proofs.Grammar.Phrase
import InterfaceKit.Proofs.Model.Table
import Mathlib.Algebra.Group.Nat.Defs

/-!
# What a document describes

The module that a document describes, said of its phrases and without any order of steps: each
declaration stands for a symbol with its name, its comment, its type and the words that modify it,
and each row of declarations for the table in which a name has the position of its first declaration
and the contents of its last. Tags are left out: they are values of a store.
-/
namespace InterfaceKit.Grammar.Phrase
open Lexical Model

def Annotations.text (a : Annotations) : String := (a.comment.map (·.val.text)).getD ""

def Container.layer : Container → Layer
  | list => .list
  | map => .map
  | model => .model

def TypeName.layers : TypeName → List Layer
  | primitive w => [.primitive w.val.text]
  | complex w => [.complex w.val.text]
  | container c _ _ t _ => c.layer :: t.layers

def TypeName.describes (t : TypeName) : TypeExpr := .ofLayers t.layers

theorem TypeName.layers_describes (t : TypeName) : t.describes.layers = t.layers := by
  cases t <;> rfl

theorem TypeName.fresh_layers (t : TypeName) : ∀ l ∈ t.layers, l.resolution = {} := by
  induction t with
  | primitive w => simp [TypeName.layers,Layer.primitive]
  | complex w => simp [TypeName.layers,Layer.complex]
  | container c _ _ t _ ih =>
    refine List.forall_mem_cons.mpr ⟨?_,ih⟩
    cases c <;> rfl

def Result.describes : Result → TypeExpr
  | value t => t.describes
  | void _ => { outer := .void }

/-- The text of a token without its quotes and escapes. One that cannot be read stands for
nothing. -/
def unquoted (v : Token) : Option String :=
  if v.hasSurrogate then none
  else
    match Text.Escape.decodeText ((v.text.toList.drop 1).dropLast) with
    | .ok codes => some (String.ofList (codes.map Char.ofNat))
    | .error _ => none

def defaultText (d : Default) : Option String := d.bind fun p => unquoted p.2.val

abbrev Entry (α : Type) := String × α

def Parameter.describes (p : Parameter) : Entry Model.Parameter :=
  (p.name.val.text, { common := { name := p.name.val.text, type := p.type.describes } })

def Operation.describes (o : Operation) : Entry Model.Operation :=
  (o.name.val.text,
    { common :=
        { name := o.name.val.text, comment := o.annotations.text, type := o.result.describes }
      isConst := o.modifier.isSome
      parameters := .declared (o.parameters.map (·.describes)) })

def Signal.describes (s : Signal) : Entry Model.Signal :=
  (s.name.val.text,
    { common := { name := s.name.val.text, comment := s.annotations.text }
      parameters := .declared (s.parameters.map (·.describes)) })

def Property.describes (p : Property) : Entry Model.Property :=
  (p.name.val.text,
    { common :=
        { name := p.name.val.text, comment := p.annotations.text, type := p.type.describes }
      readonly := p.modifier.any (·.val.kind = .readonlyWord)
      const := p.modifier.any (·.val.kind = .constWord)
      value := defaultText p.value })

def Member.operation? : Member → Option Operation
  | operation o => some o
  | _ => none

def Member.property? : Member → Option Property
  | property p => some p
  | _ => none

def Member.signal? : Member → Option Signal
  | signal s => some s
  | _ => none

def Interface.describes (i : Interface) : Entry Model.Interface :=
  (i.name.val.text,
    { common := { name := i.name.val.text, comment := i.annotations.text }
      base := i.base.map (·.2.val.text)
      properties := .declared ((i.members.filterMap Member.property?).map (·.describes))
      operations := .declared ((i.members.filterMap Member.operation?).map (·.describes))
      signals := .declared ((i.members.filterMap Member.signal?).map (·.describes)) })

def Field.describes (f : Field) : Entry Model.Field :=
  (f.name.val.text,
    { common :=
        { name := f.name.val.text, comment := f.annotations.text, type := f.type.describes }
      value := defaultText f.value })

def Struct.describes (s : Struct) : Entry Model.Struct :=
  (s.name.val.text,
    { common := { name := s.name.val.text, comment := s.annotations.text }
      fields := .declared (s.fields.map (·.describes)) })

def Enum.isFlag (e : Enum) : Bool := e.word.val.kind = .flagWord

/-- The number of a member that has none of its own: its position, or for a flag the bit there. -/
def automaticNumber (flag : Bool) (position : Nat) : Nat := if flag then 2 ^ position else position

/-- The number of a member. One that cannot be read counts as zero. -/
def EnumMember.value (flag : Bool) (position : Nat) (m : EnumMember) : Int :=
  match m.number with
  | some n => match integerValue n.2.val.text with
    | .ok v => v
    | .error _ => 0
  | none => automaticNumber flag position

def EnumMember.describes (flag : Bool) (position : Nat) (m : EnumMember) : Entry Model.Member :=
  (m.name.val.text,
    { common := { name := m.name.val.text, comment := m.annotations.text }
      value := m.value flag position })

def Enum.describes (e : Enum) : Entry Model.Enum :=
  (e.name.val.text,
    { common := { name := e.name.val.text, comment := e.annotations.text }
      isEnum := !e.isFlag
      isFlag := e.isFlag
      members := .declared (e.members.mapIdx (EnumMember.describes e.isFlag)) })

def Import.describes (i : Import) : Entry String :=
  (i.name.val.text, i.name.val.text ++ " " ++ i.version.val.text)

def Definition.interface? : Definition → Option Interface
  | interface i => some i
  | _ => none

def Definition.struct? : Definition → Option Struct
  | struct s => some s
  | _ => none

def Definition.enum? : Definition → Option Enum
  | enum e => some e
  | _ => none

def Document.describes (d : Document) : Module :=
  { common := { name := d.header.head.name.val.text, comment := d.header.head.annotations.text }
    version := d.header.head.version.val.text
    imports := .declared (d.header.imports.map (·.describes))
    interfaces := .declared ((d.definitions.filterMap Definition.interface?).map (·.describes))
    structs := .declared ((d.definitions.filterMap Definition.struct?).map (·.describes))
    enums := .declared ((d.definitions.filterMap Definition.enum?).map (·.describes)) }

end InterfaceKit.Grammar.Phrase
