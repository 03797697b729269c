import InterfaceKit.Proofs.Grammar.Derivation

/-!
# Phrases of the language

A phrase is what a rule of the grammar derives, with its constituents under names of their own: the
declarations of a document, their annotations, their types, and the separators that may be left out.
The main statements say for each rule that its derivations are exactly the trees of its phrases.
-/
namespace InterfaceKit.Grammar
open Lexical

abbrev Word (k : Kind) := { t : Token // t.kind = k }

abbrev WordOf (ks : List Kind) := { t : Token // t.kind ∈ ks }

def leaves {k : Kind} (o : Option (Word k)) : List Tree := o.toList.map fun w => .leaf w.val

namespace Phrase

structure Annotations where
  comment : Option (Word .docComment)
  tags : List (Word .tagLine)

def Annotations.trees (a : Annotations) : List Tree :=
  leaves a.comment ++ a.tags.map fun w => .node .tag [.leaf w.val]

def Annotations.tokens (a : Annotations) : List Token :=
  a.comment.toList.map (·.val) ++ a.tags.map (·.val)

@[simp] theorem Annotations.tokensOf_trees (a : Annotations) : Tree.tokensOf a.trees = a.tokens := by
  obtain ⟨comment,tags⟩ := a
  have ht : Tree.tokensOf (tags.map fun w => .node .tag [.leaf w.val]) = tags.map (·.val) := by
    induction tags with
    | nil => rfl
    | cons t tags ih =>
      rw [List.map_cons,Tree.tokensOf_cons,ih]
      simp
  rw [trees,Tree.tokensOf_append,ht]
  cases comment <;> simp [tokens,leaves]

inductive Container where
  | list | map | model
  deriving DecidableEq, Inhabited

def Container.word : Container → Kind
  | list => .listWord
  | map => .mapWord
  | model => .modelWord

def Container.rule : Container → Rule
  | list => .listType
  | map => .mapType
  | model => .modelType

def primitiveWords : List Kind := [.boolWord,.intWord,.realWord,.stringWord,.varWord]

inductive TypeName where
  | primitive (word : WordOf primitiveWords)
  | complex (name : Word .identifier)
  | container (c : Container) (word : Word c.word) (opening : Word .less) (inner : TypeName)
      (closing : Word .greater)

/-- The tree below a type, whose kind is told by the rule of that tree. -/
def TypeName.inside : TypeName → Tree
  | primitive w => .node .primitiveType [.leaf w.val]
  | complex w => .node .complexType [.leaf w.val]
  | container c w o t cl =>
    .node c.rule [.leaf w.val,.leaf o.val,.node .type [t.inside],.leaf cl.val]

def TypeName.tree (t : TypeName) : Tree := .node .type [t.inside]

def TypeName.tokens : TypeName → List Token
  | primitive w => [w.val]
  | complex w => [w.val]
  | container _ w o t cl => w.val :: o.val :: t.tokens ++ [cl.val]

@[simp] theorem TypeName.tokens_inside (t : TypeName) : t.inside.tokens = t.tokens := by
  induction t with
  | primitive w => simp [inside,tokens]
  | complex w => simp [inside,tokens]
  | container c w o t cl ih => simp [inside,tokens,ih]

@[simp] theorem TypeName.tokens_tree (t : TypeName) : t.tree.tokens = t.tokens := by simp [tree]

structure Parameter where
  type : TypeName
  name : Word .identifier
  comma : Option (Word .comma)

def Parameter.parts (p : Parameter) : List Tree := [p.type.tree,.leaf p.name.val] ++ leaves p.comma

inductive Result where
  | value (type : TypeName)
  | void (word : Word .voidWord)

def Result.tree : Result → Tree
  | value t => t.tree
  | void w => .leaf w.val

structure Operation where
  annotations : Annotations
  result : Result
  name : Word .identifier
  opening : Word .leftParen
  parameters : List Parameter
  closing : Word .rightParen
  modifier : Option (Word .constWord)
  semicolon : Option (Word .semicolon)

def Operation.parts (o : Operation) : List Tree :=
  o.annotations.trees ++ [o.result.tree,.leaf o.name.val,.leaf o.opening.val]
    ++ o.parameters.map (fun p => .node .parameter p.parts) ++ [.leaf o.closing.val]
    ++ (o.modifier.toList.map fun w => .node .operationModifier [.leaf w.val])
    ++ leaves o.semicolon

structure Signal where
  annotations : Annotations
  word : Word .signalWord
  name : Word .identifier
  opening : Word .leftParen
  parameters : List Parameter
  closing : Word .rightParen
  semicolon : Option (Word .semicolon)

def Signal.parts (s : Signal) : List Tree :=
  s.annotations.trees ++ [.leaf s.word.val,.leaf s.name.val,.leaf s.opening.val]
    ++ s.parameters.map (fun p => .node .parameter p.parts) ++ [.leaf s.closing.val]
    ++ leaves s.semicolon

abbrev Default := Option (Word .equals × Word .string)

def defaultTrees (d : Default) : List Tree := d.toList.flatMap fun p => [.leaf p.1.val,.leaf p.2.val]

structure Property where
  annotations : Annotations
  modifier : Option (WordOf [.readonlyWord,.constWord])
  type : TypeName
  name : Word .identifier
  value : Default
  semicolon : Option (Word .semicolon)

def Property.parts (p : Property) : List Tree :=
  p.annotations.trees ++ (p.modifier.toList.map fun w => .node .propertyModifier [.leaf w.val])
    ++ [p.type.tree,.leaf p.name.val] ++ defaultTrees p.value ++ leaves p.semicolon

inductive Member where
  | operation (o : Operation)
  | property (p : Property)
  | signal (s : Signal)

def Member.inside : Member → Tree
  | operation o => .node .operation o.parts
  | property p => .node .property p.parts
  | signal s => .node .signal s.parts

structure Interface where
  annotations : Annotations
  word : Word .interfaceWord
  name : Word .identifier
  base : Option (Word .extendsWord × Word .identifier)
  opening : Word .leftBrace
  members : List Member
  closing : Word .rightBrace
  semicolon : Option (Word .semicolon)

def Interface.parts (i : Interface) : List Tree :=
  i.annotations.trees ++ [.leaf i.word.val,.leaf i.name.val]
    ++ (i.base.toList.flatMap fun b => [.leaf b.1.val,.leaf b.2.val]) ++ [.leaf i.opening.val]
    ++ i.members.map (fun m => .node .interfaceMember [m.inside]) ++ [.leaf i.closing.val]
    ++ leaves i.semicolon

structure Field where
  annotations : Annotations
  type : TypeName
  name : Word .identifier
  value : Default
  semicolon : Option (Word .semicolon)

def Field.parts (f : Field) : List Tree :=
  f.annotations.trees ++ [f.type.tree,.leaf f.name.val] ++ defaultTrees f.value ++ leaves f.semicolon

structure Struct where
  annotations : Annotations
  word : Word .structWord
  name : Word .identifier
  opening : Word .leftBrace
  fields : List Field
  closing : Word .rightBrace
  semicolon : Option (Word .semicolon)

def Struct.parts (s : Struct) : List Tree :=
  s.annotations.trees ++ [.leaf s.word.val,.leaf s.name.val,.leaf s.opening.val]
    ++ s.fields.map (fun f => .node .structField f.parts) ++ [.leaf s.closing.val]
    ++ leaves s.semicolon

structure EnumMember where
  annotations : Annotations
  name : Word .identifier
  number : Option (Word .equals × WordOf [.integer,.hexInteger])
  comma : Option (Word .comma)

def EnumMember.parts (m : EnumMember) : List Tree :=
  m.annotations.trees ++ [.leaf m.name.val]
    ++ (m.number.toList.flatMap fun n => [.leaf n.1.val,.node .integer [.leaf n.2.val]])
    ++ leaves m.comma

structure Enum where
  annotations : Annotations
  word : WordOf [.enumWord,.flagWord]
  name : Word .identifier
  opening : Word .leftBrace
  members : List EnumMember
  closing : Word .rightBrace
  semicolon : Option (Word .semicolon)

def Enum.parts (e : Enum) : List Tree :=
  e.annotations.trees
    ++ [.node .enumKind [.leaf e.word.val],.leaf e.name.val,.leaf e.opening.val]
    ++ e.members.map (fun m => .node .enumMember m.parts) ++ [.leaf e.closing.val]
    ++ leaves e.semicolon

inductive Definition where
  | interface (i : Interface)
  | struct (s : Struct)
  | enum (e : Enum)

def Definition.inside : Definition → Tree
  | interface i => .node .interface i.parts
  | struct s => .node .struct s.parts
  | enum e => .node .enum e.parts

structure Import where
  word : Word .importWord
  name : Word .identifier
  version : Word .version
  semicolon : Option (Word .semicolon)

def Import.parts (i : Import) : List Tree :=
  [.leaf i.word.val,.leaf i.name.val,.leaf i.version.val] ++ leaves i.semicolon

structure ModuleHead where
  annotations : Annotations
  word : Word .moduleWord
  name : Word .identifier
  version : Word .version
  semicolon : Option (Word .semicolon)

def ModuleHead.parts (h : ModuleHead) : List Tree :=
  h.annotations.trees ++ [.leaf h.word.val,.leaf h.name.val,.leaf h.version.val]
    ++ leaves h.semicolon

structure Header where
  head : ModuleHead
  imports : List Import

def Header.parts (h : Header) : List Tree :=
  .node .moduleHead h.head.parts :: h.imports.map fun i => .node .importLine i.parts

structure Document where
  header : Header
  definitions : List Definition

def Document.parts (d : Document) : List Tree :=
  .node .header d.header.parts :: d.definitions.map fun x => .node .definition [x.inside]

def Document.tree (d : Document) : Tree := .node .document d.parts

end Phrase

/-! ## Derivations, part by part -/

namespace Derives
variable {f : Form} {ts : List Tree} {xs : List Item}

theorem maybe_iff : Derives (.maybe xs :: f) ts ↔ Derives f ts ∨ Derives (xs.map .one ++ f) ts := by
  constructor
  · intro h
    cases h with
    | absent h => exact .inl h
    | present h => exact .inr h
  · rintro (h | h)
    · exact .absent h
    · exact .present h

theorem choice_iff : Derives (.choice xs :: f) ts ↔ ∃ x ∈ xs, Derives (.one x :: f) ts := by
  constructor
  · intro h
    cases h with
    | pick hx h => exact ⟨_,hx,h⟩
  · rintro ⟨x,hx,h⟩
    exact .pick hx h

end Derives

/-- The derivations of a form are the rows of trees of its phrases. -/
def Form.Yields {α : Type} (f : Form) (trees : α → List Tree) : Prop :=
  ∀ ts, Derives f ts ↔ ∃ a, ts = trees a

/-- The derivations of a rule are the trees of its phrases. -/
abbrev Rule.Yields {α : Type} (r : Rule) (parts : α → List Tree) : Prop := r.production.Yields parts

namespace Form.Yields
variable {α β : Type} {f g : Form} {r : Rule} {p : α → List Tree} {q : β → List Tree} {k : Kind}
  {x : Item}

theorem token : Form.Yields [oneToken k] fun w : Word k => [.leaf w.val] := by
  intro ts
  constructor
  · intro h
    cases h with
    | token t h =>
      cases h
      exact ⟨⟨t,rfl⟩,rfl⟩
  · rintro ⟨⟨t,rfl⟩,rfl⟩
    exact .token t .nil

theorem rule (h : r.Yields p) : Form.Yields [oneRule r] fun a => [.node r (p a)] := by
  intro ts
  constructor
  · intro hd
    cases hd with
    | rule hr hd =>
      cases hd
      obtain ⟨a,rfl⟩ := (h _).mp hr
      exact ⟨a,rfl⟩
  · rintro ⟨a,rfl⟩
    exact .rule ((h _).mpr ⟨a,rfl⟩) .nil

theorem append (hf : f.Yields p) (hg : g.Yields q) :
    Form.Yields (f ++ g) fun x : α × β => p x.1 ++ q x.2 := by
  intro ts
  constructor
  · intro h
    obtain ⟨us,vs,rfl,hu,hv⟩ := h.split
    obtain ⟨a,rfl⟩ := (hf us).mp hu
    obtain ⟨b,rfl⟩ := (hg vs).mp hv
    exact ⟨(a, b),rfl⟩
  · rintro ⟨⟨a,b⟩,rfl⟩
    exact ((hf _).mpr ⟨a,rfl⟩).append ((hg _).mpr ⟨b,rfl⟩)

theorem maybe (xs : List Item) (h : Form.Yields (xs.map .one) p) :
    Form.Yields [.maybe xs] fun o : Option α => o.toList.flatMap p := by
  intro ts
  rw [Derives.maybe_iff,List.append_nil,h ts]
  constructor
  · rintro (hd | ⟨a,rfl⟩)
    · cases hd
      exact ⟨none,rfl⟩
    · exact ⟨some a,by simp⟩
  · rintro ⟨_ | a,rfl⟩
    · exact .inl .nil
    · exact .inr ⟨a,by simp⟩

theorem optional : Form.Yields [maybeToken k] (leaves (k := k)) := by
  intro ts
  rw [maybeToken,maybe [.token k] token ts]
  simp only [leaves,List.map_eq_flatMap]

/-- A repetition of a rule derives a row of nodes of that rule. -/
theorem many (h : r.Yields p) : Form.Yields [.many (.rule r)] fun as : List α => as.map fun a =>
    .node r (p a) := by
  intro ts
  constructor
  · intro hd
    induction ts with
    | nil => exact ⟨[],rfl⟩
    | cons t ts ih =>
      cases hd with
      | stop hd => cases hd
      | again hd =>
        cases hd with
        | rule hr hd =>
          obtain ⟨a,rfl⟩ := (h _).mp hr
          obtain ⟨as,rfl⟩ := ih hd
          exact ⟨a :: as,rfl⟩
  · rintro ⟨as,rfl⟩
    induction as with
    | nil => exact .stop .nil
    | cons a as ih => exact .again (.rule ((h _).mpr ⟨a,rfl⟩) ih)

theorem word (ks : List Kind) :
    Form.Yields [.choice (ks.map .token)] fun w : WordOf ks => [.leaf w.val] := by
  intro ts
  rw [Derives.choice_iff]
  constructor
  · rintro ⟨x,hx,h⟩
    obtain ⟨k,hk,rfl⟩ := List.mem_map.mp hx
    obtain ⟨⟨t,rfl⟩,rfl⟩ := (token ts).mp h
    exact ⟨⟨t,hk⟩,rfl⟩
  · rintro ⟨⟨t,ht⟩,rfl⟩
    exact ⟨_,List.mem_map_of_mem ht,.token t .nil⟩

theorem only (h : Form.Yields [.one x] p) : Form.Yields [.choice [x]] p := by
  intro ts
  rw [← h ts,Derives.choice_iff]
  simp

theorem or {xs : List Item} (h : Form.Yields [.one x] p) (hs : Form.Yields [.choice xs] q) :
    Form.Yields [.choice (x :: xs)] (Sum.elim p q) := by
  intro ts
  have hrest := hs ts
  rw [Derives.choice_iff] at hrest
  simp only [Derives.choice_iff,List.mem_cons,exists_eq_or_imp,h ts,hrest,Sum.exists,Sum.elim_inl,
    Sum.elim_inr]

/-- The same phrases under other names. -/
theorem as (h : f.Yields p) {g : α → β} (hg : g.Surjective) (hq : ∀ a, q (g a) = p a) :
    f.Yields q := by
  intro ts
  rw [h ts]
  constructor
  · rintro ⟨a,rfl⟩
    exact ⟨g a,(hq a).symm⟩
  · rintro ⟨b,rfl⟩
    obtain ⟨a,rfl⟩ := hg b
    exact ⟨a,hq a⟩

end Form.Yields

namespace Phrase
open Form.Yields

theorem annotations_yield : Grammar.annotations.Yields Annotations.trees := by
  refine (optional.append (many (r := .tag) token)).as (g := fun (c,ts) => ⟨c,ts⟩) ?_ fun _ => rfl
  rintro ⟨c,ts⟩
  exact ⟨(c, ts),rfl⟩

theorem Container.production (c : Container) : c.rule.production = containerOf c.word := by
  cases c <;> rfl

theorem type_alternatives (x : Item)
    (hx : x ∈ [.rule .primitiveType,.rule .complexType,.rule .listType,.rule .mapType,
      .rule .modelType]) :
    x = .rule .primitiveType ∨ x = .rule .complexType ∨ ∃ c : Container, x = .rule c.rule := by
  simp only [List.mem_cons,List.not_mem_nil,or_false] at hx
  rcases hx with rfl | rfl | rfl | rfl | rfl
  · exact .inl rfl
  · exact .inr (.inl rfl)
  · exact .inr (.inr ⟨.list,rfl⟩)
  · exact .inr (.inr ⟨.map,rfl⟩)
  · exact .inr (.inr ⟨.model,rfl⟩)

theorem TypeName.derives (t : TypeName) : Derives Rule.type.production [t.inside] := by
  induction t with
  | primitive w =>
    exact .pick (x := .rule .primitiveType) (by simp) (.rule ((word _ _).mpr ⟨w,rfl⟩) .nil)
  | complex w => exact .pick (x := .rule .complexType) (by simp) (.rule ((token _).mpr ⟨w,rfl⟩) .nil)
  | container c w o t cl ih =>
    refine .pick (x := .rule c.rule) (by cases c <;> simp [Container.rule]) (.rule ?_ .nil)
    rw [c.production]
    have hfront := (token.append token _).mpr ⟨(w, o),rfl⟩
    exact hfront.append (.rule ih ((token _).mpr ⟨cl,rfl⟩))

/-- By induction on the number of tokens, since a type is nested in its own derivation. -/
theorem TypeName.exists_inside (n : Nat) : ∀ cs : List Tree, (Tree.tokensOf cs).length ≤ n →
    Derives Rule.type.production cs → ∃ t : TypeName, cs = [t.inside] := by
  induction n with
  | zero =>
    intro cs hn h
    exact absurd (List.length_eq_zero_iff.mp (Nat.le_zero.mp hn)) h.tokens_ne_nil
  | succ n ih =>
    intro cs hn h
    obtain ⟨x,hx,hd⟩ := Derives.choice_iff.mp h
    rcases type_alternatives x hx with rfl | rfl | ⟨c,rfl⟩
    · obtain ⟨w,rfl⟩ := (rule (r := .primitiveType) (word primitiveWords) _).mp hd
      exact ⟨.primitive w,rfl⟩
    · obtain ⟨w,rfl⟩ := (rule (r := .complexType) token _).mp hd
      exact ⟨.complex w,rfl⟩
    · cases hd with
      | @rule _ _ ds _ hc hd =>
        cases hd
        rw [c.production] at hc
        obtain ⟨_,_,rfl,hfront,hinner⟩ := Derives.split (f := [oneToken c.word,oneToken .less]) hc
        obtain ⟨⟨w,o⟩,rfl⟩ := (token.append token _).mp hfront
        cases hinner with
        | @rule _ _ es _ ht hd =>
          obtain ⟨cl,rfl⟩ := (token _).mp hd
          have hlt : (Tree.tokensOf es).length ≤ n := by
            simp at hn
            omega
          obtain ⟨t,rfl⟩ := ih _ hlt ht
          exact ⟨.container c w o t cl,rfl⟩

theorem type_yields : Rule.type.Yields fun t : TypeName => [t.inside] := by
  intro cs
  constructor
  · exact TypeName.exists_inside _ cs (Nat.le_refl _)
  · rintro ⟨t,rfl⟩
    exact t.derives

theorem parameter_yields : Rule.parameter.Yields Parameter.parts := by
  refine ((rule type_yields).append <| token.append optional).as
    (g := fun (t,n,c) => ⟨t,n,c⟩) ?_ fun _ => rfl
  rintro ⟨t,n,c⟩
  exact ⟨(t, n, c),rfl⟩

theorem result_yields : Form.Yields [.choice [.rule .type,.token .voidWord]] fun r : Result =>
    [r.tree] := by
  refine ((rule type_yields).or token.only).as (g := Sum.elim .value .void) ?_ ?_
  · rintro (t | w)
    · exact ⟨.inl t,rfl⟩
    · exact ⟨.inr w,rfl⟩
  · rintro (t | w) <;> rfl

theorem operationModifier_yields :
    Rule.operationModifier.Yields fun w : Word .constWord => [.leaf w.val] := token

theorem operation_yields : Rule.operation.Yields Operation.parts := by
  refine (annotations_yield.append <| result_yields.append <| token.append <| token.append <|
    (many parameter_yields).append <| token.append <|
      (maybe [_] (rule operationModifier_yields)).append optional).as
    (g := fun (a,r,n,o,ps,c,m,s) => ⟨a,r,n,o,ps,c,m,s⟩) ?_ ?_
  · rintro ⟨a,r,n,o,ps,c,m,s⟩
    exact ⟨(a, r, n, o, ps, c, m, s),rfl⟩
  · rintro ⟨a,r,n,o,ps,c,m,s⟩
    simp [Operation.parts,List.map_eq_flatMap]

theorem signal_yields : Rule.signal.Yields Signal.parts := by
  refine (annotations_yield.append <| token.append <| token.append <| token.append <|
    (many parameter_yields).append <| token.append optional).as
    (g := fun (a,w,n,o,ps,c,s) => ⟨a,w,n,o,ps,c,s⟩) ?_ ?_
  · rintro ⟨a,w,n,o,ps,c,s⟩
    exact ⟨(a, w, n, o, ps, c, s),rfl⟩
  · rintro ⟨a,w,n,o,ps,c,s⟩
    simp [Signal.parts]

theorem property_yields : Rule.property.Yields Property.parts := by
  refine (annotations_yield.append <|
    (maybe [_] (rule (r := .propertyModifier) (word [_,_]))).append <|
    (rule type_yields).append <| token.append <| (maybe [_,_] (token.append token)).append
      optional).as
    (g := fun (a,m,t,n,v,s) => ⟨a,m,t,n,v,s⟩) ?_ ?_
  · rintro ⟨a,m,t,n,v,s⟩
    exact ⟨(a, m, t, n, v, s),rfl⟩
  · rintro ⟨a,m,t,n,v,s⟩
    simp [Property.parts,TypeName.tree,defaultTrees,List.map_eq_flatMap]

theorem member_yields : Rule.interfaceMember.Yields fun m : Member => [m.inside] := by
  refine ((rule operation_yields).or <| (rule property_yields).or (rule signal_yields).only).as
    (g := Sum.elim .operation (Sum.elim .property .signal)) ?_ ?_
  · rintro (o | p | s)
    · exact ⟨.inl o,rfl⟩
    · exact ⟨.inr (.inl p),rfl⟩
    · exact ⟨.inr (.inr s),rfl⟩
  · rintro (o | p | s) <;> rfl

theorem interface_yields : Rule.interface.Yields Interface.parts := by
  refine (annotations_yield.append <| token.append <| token.append <|
    (maybe [_,_] (token.append token)).append <|
    token.append <| (many member_yields).append <| token.append optional).as
    (g := fun (a,w,n,b,o,ms,c,s) => ⟨a,w,n,b,o,ms,c,s⟩) ?_ ?_
  · rintro ⟨a,w,n,b,o,ms,c,s⟩
    exact ⟨(a, w, n, b, o, ms, c, s),rfl⟩
  · rintro ⟨a,w,n,b,o,ms,c,s⟩
    simp [Interface.parts]

theorem field_yields : Rule.structField.Yields Field.parts := by
  refine (annotations_yield.append <| (rule type_yields).append <| token.append <|
    (maybe [_,_] (token.append token)).append optional).as (g := fun (a,t,n,v,s) =>
      ⟨a,t,n,v,s⟩) ?_ ?_
  · rintro ⟨a,t,n,v,s⟩
    exact ⟨(a, t, n, v, s),rfl⟩
  · rintro ⟨a,t,n,v,s⟩
    simp [Field.parts,TypeName.tree,defaultTrees]

theorem struct_yields : Rule.struct.Yields Struct.parts := by
  refine (annotations_yield.append <| token.append <| token.append <| token.append <|
    (many field_yields).append <| token.append optional).as
    (g := fun (a,w,n,o,fs,c,s) => ⟨a,w,n,o,fs,c,s⟩) ?_ ?_
  · rintro ⟨a,w,n,o,fs,c,s⟩
    exact ⟨(a, w, n, o, fs, c, s),rfl⟩
  · rintro ⟨a,w,n,o,fs,c,s⟩
    simp [Struct.parts]

theorem enumMember_yields : Rule.enumMember.Yields EnumMember.parts := by
  refine (annotations_yield.append <| token.append <|
    (maybe [_,_] (token.append (rule (r := .integer) (word [_,_])))).append optional).as
    (g := fun (a,n,v,c) => ⟨a,n,v,c⟩) ?_ ?_
  · rintro ⟨a,n,v,c⟩
    exact ⟨(a, n, v, c),rfl⟩
  · rintro ⟨a,n,v,c⟩
    simp [EnumMember.parts]

theorem enum_yields : Rule.enum.Yields Enum.parts := by
  refine (annotations_yield.append <| (rule (r := .enumKind) (word [_,_])).append <|
    token.append <| token.append <|
    (many enumMember_yields).append <| token.append optional).as
    (g := fun (a,w,n,o,ms,c,s) => ⟨a,w,n,o,ms,c,s⟩) ?_ ?_
  · rintro ⟨a,w,n,o,ms,c,s⟩
    exact ⟨(a, w, n, o, ms, c, s),rfl⟩
  · rintro ⟨a,w,n,o,ms,c,s⟩
    simp [Enum.parts]

theorem definition_yields : Rule.definition.Yields fun d : Definition => [d.inside] := by
  refine ((rule interface_yields).or <| (rule struct_yields).or (rule enum_yields).only).as
    (g := Sum.elim .interface (Sum.elim .struct .enum)) ?_ ?_
  · rintro (i | s | e)
    · exact ⟨.inl i,rfl⟩
    · exact ⟨.inr (.inl s),rfl⟩
    · exact ⟨.inr (.inr e),rfl⟩
  · rintro (i | s | e) <;> rfl

theorem import_yields : Rule.importLine.Yields Import.parts := by
  refine (token.append <| token.append <| token.append optional).as
    (g := fun (w,n,v,s) => ⟨w,n,v,s⟩) ?_ fun _ => rfl
  rintro ⟨w,n,v,s⟩
  exact ⟨(w, n, v, s),rfl⟩

theorem moduleHead_yields : Rule.moduleHead.Yields ModuleHead.parts := by
  refine (annotations_yield.append <| token.append <| token.append <| token.append optional).as
    (g := fun (a,w,n,v,s) => ⟨a,w,n,v,s⟩) ?_ ?_
  · rintro ⟨a,w,n,v,s⟩
    exact ⟨(a, w, n, v, s),rfl⟩
  · rintro ⟨a,w,n,v,s⟩
    simp [ModuleHead.parts]

theorem header_yields : Rule.header.Yields Header.parts := by
  refine ((rule moduleHead_yields).append (many import_yields)).as
    (g := fun (h,is) => ⟨h,is⟩) ?_ fun _ => rfl
  rintro ⟨h,is⟩
  exact ⟨(h, is),rfl⟩

/-- The derivations of a document are the trees of the documents. -/
theorem document_yields : Rule.document.Yields Document.parts := by
  refine ((rule header_yields).append (many definition_yields)).as
    (g := fun (h,ds) => ⟨h,ds⟩) ?_ fun _ => rfl
  rintro ⟨h,ds⟩
  exact ⟨(h, ds),rfl⟩

end Phrase

/-! ## Constituents

What the accessors of trees find below the tree of a phrase: the words of one kind and the nodes of
one rule, part by part. -/

theorem Word.kind {k : Kind} (w : Word k) : w.val.kind = k := w.property

def wordsIn (k : Kind) (ts : List Tree) : List Token :=
  ts.filterMap fun
    | .leaf t => if t.kind = k then some t else none
    | .node _ _ => none

def nodesIn (r : Rule) (ts : List Tree) : List Tree := ts.filter (·.isA (.rule r))

namespace Tree
variable (r : Rule) (ts : List Tree)

theorem tokensOfKind_node (k : Kind) : (node r ts).tokensOfKind k = wordsIn k ts := rfl

theorem token?_node (k : Kind) : (node r ts).token? k = (wordsIn k ts).head? := rfl

theorem node?_node (q : Rule) : (node r ts).node? q = (nodesIn q ts).head? :=
  List.head?_filter.symm

end Tree

section Parts
variable {k k' : Kind} {q r : Rule} {ts us : List Tree}

@[simp] theorem wordsIn_nil : wordsIn k [] = [] := rfl

@[simp] theorem wordsIn_node : wordsIn k (.node r us :: ts) = wordsIn k ts := rfl

theorem wordsIn_leaf (t : Token) :
    wordsIn k (.leaf t :: ts) = (if t.kind = k then [t] else []) ++ wordsIn k ts := by
  by_cases h : t.kind = k <;> simp [wordsIn,h]

@[simp] theorem wordsIn_word (w : Word k') :
    wordsIn k (.leaf w.val :: ts) = (if k' = k then [w.val] else []) ++ wordsIn k ts := by
  rw [wordsIn_leaf,w.kind]

@[simp] theorem wordsIn_append : wordsIn k (ts ++ us) = wordsIn k ts ++ wordsIn k us :=
  List.filterMap_append

@[simp] theorem wordsIn_leaves (o : Option (Word k')) :
    wordsIn k (leaves o) = if k' = k then o.toList.map (·.val) else [] := by
  cases o with
  | none => simp [leaves]
  | some w => by_cases h : k' = k <;> simp [leaves,h]

@[simp] theorem wordsIn_nodes {α : Type} (xs : List α) (g : α → List Tree) :
    wordsIn k (xs.map fun x => .node r (g x)) = [] := by
  simp [wordsIn]

@[simp] theorem nodesIn_nil : nodesIn q [] = [] := rfl

@[simp] theorem nodesIn_leaf (t : Token) : nodesIn q (.leaf t :: ts) = nodesIn q ts := rfl

@[simp] theorem nodesIn_node :
    nodesIn q (.node r us :: ts) = (if r = q then [.node r us] else []) ++ nodesIn q ts := by
  by_cases h : r = q <;> simp [nodesIn,Tree.isA,h]

@[simp] theorem nodesIn_append : nodesIn q (ts ++ us) = nodesIn q ts ++ nodesIn q us :=
  List.filter_append ts us

@[simp] theorem nodesIn_leaves (o : Option (Word k)) : nodesIn q (leaves o) = [] := by
  cases o <;> simp [leaves]

@[simp] theorem nodesIn_nodes {α : Type} (xs : List α) (g : α → List Tree) :
    nodesIn q (xs.map fun x => .node r (g x)) = if r = q then xs.map fun x =>
    .node r (g x) else [] := by
  by_cases h : r = q <;> simp [nodesIn,Tree.isA,h]

end Parts

namespace Phrase
variable {k : Kind} {q : Rule} {ts : List Tree}

@[simp] theorem wordsIn_annotations (a : Annotations) :
    wordsIn k a.trees = if .docComment = k then a.comment.toList.map (·.val) else [] := by
  simp [Annotations.trees]

@[simp] theorem nodesIn_annotations (a : Annotations) (hq : q ≠ .tag) : nodesIn q a.trees = [] := by
  simp [Annotations.trees,Ne.symm hq]

@[simp] theorem wordsIn_type (t : TypeName) : wordsIn k (t.tree :: ts) = wordsIn k ts := rfl

@[simp] theorem nodesIn_type (t : TypeName) :
    nodesIn q (t.tree :: ts) = (if .type = q then [t.tree] else []) ++ nodesIn q ts := nodesIn_node

@[simp] theorem wordsIn_result (x : Result) (hk : k ≠ .voidWord) :
    wordsIn k (x.tree :: ts) = wordsIn k ts := by
  cases x with
  | value t => rfl
  | void w => simp [Result.tree,Ne.symm hk]

@[simp] theorem wordsIn_default (d : Default) :
    wordsIn k (defaultTrees d) = (if .equals = k then d.toList.map (·.1.val) else [])
      ++ if .string = k then d.toList.map (·.2.val) else [] := by
  cases d <;> simp [defaultTrees]

@[simp] theorem nodesIn_default (d : Default) : nodesIn q (defaultTrees d) = [] := by
  cases d <;> simp [defaultTrees]

end Phrase

end InterfaceKit.Grammar
