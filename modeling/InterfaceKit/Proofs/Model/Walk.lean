import InterfaceKit.Proofs.Model.Effect

/-!
# Walking through declarations

What all declarations have in common: the trees below them that have no handlers, the types, the
comments, and the tables in which their symbols stand.
-/
namespace InterfaceKit.Model
open Grammar Lexical

namespace Drafting

/-! ## Trees without handlers -/

@[simp] theorem walkAll_nil [Yaml.Readers] : walkAll [] = pure () := rfl

@[simp] theorem walkAll_cons [Yaml.Readers] (t : Tree) (ts : List Tree) :
    walkAll (t :: ts) = walk t >>= fun _ => walkAll ts := rfl

@[simp] theorem walkAll_append [Yaml.Readers] (ts us : List Tree) :
    walkAll (ts ++ us) = walkAll ts >>= fun _ => walkAll us := by
  induction ts with
  | nil => simp
  | cons t ts ih => simp [ih]

@[simp] theorem walk_leaf [Yaml.Readers] (t : Token) : walk (.leaf t) = pure () := rfl

variable {r : Rule} {ts : List Tree}

theorem walk_node [Yaml.Readers] (he : enter r = fun _ => pure ()) (hx : exit r = fun _ => pure ())
    (ts : List Tree) : walk (.node r ts) = walkAll ts := by
  rw [walk,he,hx]
  simp

@[simp] theorem walkAll_leaves [Yaml.Readers] {k : Kind} (o : Option (Word k)) :
    walkAll (leaves o) = pure () := by
  cases o <;> simp [leaves]

@[simp] theorem walk_type [Yaml.Readers] (t : Phrase.TypeName) : walk t.tree = pure () := by
  have hin : walk t.inside = pure () := by
    induction t with
    | primitive | complex => simp [Phrase.TypeName.inside,walk,enter,exit]
    | container c w o t cl ih =>
      cases c <;> simp [Phrase.TypeName.inside,Phrase.Container.rule,walk,enter,exit,ih]
  simp [Phrase.TypeName.tree,walk,enter,exit,hin]

@[simp] theorem walk_result [Yaml.Readers] (x : Phrase.Result) : walk x.tree = pure () := by
  cases x <;> simp [Phrase.Result.tree]

@[simp] theorem walkAll_annotations [Yaml.Readers] (a : Phrase.Annotations) :
    walkAll a.trees = pure () := by
  have htags : walkAll (a.tags.map fun w => .node .tag [.leaf w.val]) = pure () := by
    induction a.tags with
    | nil => simp
    | cons w tags ih =>
      rw [List.map_cons,walkAll_cons,ih]
      simp [walk,enter,exit]
  rw [Phrase.Annotations.trees,walkAll_append,htags]
  simp

@[simp] theorem walkAll_default [Yaml.Readers] (d : Phrase.Default) :
    walkAll (Phrase.defaultTrees d) = pure () := by
  cases d <;> simp [Phrase.defaultTrees]

/-! ## Types -/

/-- The depth of a type is enough to go through its layers. -/
theorem layers_type (fuel : Nat) (t : Phrase.TypeName) (h : t.tree.depth ≤ fuel) :
    Draft.layers fuel t.tree = t.layers := by
  induction fuel generalizing t with
  | zero => simp [Phrase.TypeName.tree,Tree.depth] at h
  | succ fuel ih =>
    cases t with
    | primitive w | complex w =>
      simp [Draft.layers,Phrase.TypeName.tree,Phrase.TypeName.inside,Tree.children,Tree.rule?,
        Phrase.TypeName.layers]
    | container c w o t cl =>
      have hd : t.tree.depth ≤ fuel := by
        simp [Phrase.TypeName.tree,Phrase.TypeName.inside,Tree.depth,Tree.depthOf] at h ⊢
        omega
      have hn :
        (Grammar.Tree.node c.rule [.leaf w.val,.leaf o.val,t.tree,.leaf cl.val]).node? .type =
          some t.tree := by
        simp [Tree.node?_node]
      rw [Phrase.TypeName.tree] at hn
      rw [Phrase.TypeName.tree,Draft.layers,Phrase.TypeName.inside]
      simp only [Tree.children,hn,Option.map_some,Option.getD_some,Tree.rule?]
      cases c <;> exact congrArg _ (ih t hd)

theorem typeOf_node {t : Phrase.TypeName}
    (h : nodesIn .type ts = [t.tree]) : Draft.typeOf (.node r ts) = t.describes := by
  simp [Draft.typeOf,Tree.node?_node,h,layers_type,Phrase.TypeName.describes]

theorem typeOf_void (h : nodesIn .type ts = []) :
    Draft.typeOf (.node r ts) = { outer := .void } := by
  simp [Draft.typeOf,Tree.node?_node,h]

theorem nameOf_node {t : Token} (h : (wordsIn .identifier ts).head? = some t) :
    nameOf (.node r ts) = t.text := by
  simp [nameOf,textOf,Tree.token?_node,h]

theorem readable_node {d : Phrase.Default}
    (h : wordsIn .string ts = d.toList.map (·.2.val)) :
    readable (.node r ts) = Phrase.defaultText d := by
  rw [readable,Tree.token?_node,h,Phrase.defaultText]
  cases d <;> rfl

end Drafting

/-! ## Symbols in their tables -/

namespace Module

def putInterface (m : Module) (i : String) (x : Interface) : Module :=
  { m with interfaces := m.interfaces.set i x }

def putStruct (m : Module) (s : String) (x : Struct) : Module :=
  { m with structs := m.structs.set s x }

def putEnum (m : Module) (e : String) (x : Enum) : Module := { m with enums := m.enums.set e x }

variable {m : Module} {i s e n : String}

theorem modifyInterface_put (x : Interface) (g : Interface → Interface) :
    (m.putInterface i x).modifyInterface i g = m.putInterface i (g x) := by
  simp only [putInterface,modifyInterface,Table.modify_set]

theorem modifyStruct_put (x : Struct) (g : Struct → Struct) :
    (m.putStruct s x).modifyStruct s g = m.putStruct s (g x) := by
  simp only [putStruct,modifyStruct,Table.modify_set]

theorem modifyEnum_put (x : Enum) (g : Enum → Enum) :
    (m.putEnum e x).modifyEnum e g = m.putEnum e (g x) := by
  simp only [putEnum,modifyEnum,Table.modify_set]

end Module

namespace Interface

def putProperty (x : Interface) (p : String) (y : Property) : Interface :=
  { x with properties := x.properties.set p y }

def putOperation (x : Interface) (o : String) (y : Operation) : Interface :=
  { x with operations := x.operations.set o y }

def putSignal (x : Interface) (s : String) (y : Signal) : Interface :=
  { x with signals := x.signals.set s y }

end Interface

namespace Module
variable {m : Module} {i s e n : String}

theorem modifyProperty_put (x : Interface) (y : Property) (g : Property → Property) :
    (m.putInterface i (x.putProperty n y)).modifyProperty i n g =
      m.putInterface i (x.putProperty n (g y)) := by
  simp only [modifyProperty,modifyInterface_put,Interface.putProperty,Table.modify_set]

theorem modifyOperation_put (x : Interface) (y : Operation) (g : Operation → Operation) :
    (m.putInterface i (x.putOperation n y)).modifyOperation i n g =
      m.putInterface i (x.putOperation n (g y)) := by
  simp only [modifyOperation,modifyInterface_put,Interface.putOperation,Table.modify_set]

theorem modifySignal_put (x : Interface) (y : Signal) (g : Signal → Signal) :
    (m.putInterface i (x.putSignal n y)).modifySignal i n g =
      m.putInterface i (x.putSignal n (g y)) := by
  simp only [modifySignal,modifyInterface_put,Interface.putSignal,Table.modify_set]

end Module

namespace Leads
variable {m : Module} {f : Focus}

theorem editInterface {i : String} {x : Interface} (g g' : Interface → Interface)
    (h : ∀ x x', x.Like .untagged x' → (g x).Like .untagged (g' x')) :
    Leads (Drafting.edit (·.modifyInterface i g)) (m.putInterface i x) f
      (m.putInterface i (g' x)) f := by
  rw [← Module.modifyInterface_put]
  exact edit _ (·.modifyInterface i g') fun _ _ hm => hm.modifyInterface i h

theorem editProperty {i n : String} {x : Interface} {y : Property} (g g' : Property → Property)
    (h : ∀ y y', y.Like .untagged y' → (g y).Like .untagged (g' y')) :
    Leads (Drafting.edit (·.modifyProperty i n g)) (m.putInterface i (x.putProperty n y)) f
      (m.putInterface i (x.putProperty n (g' y))) f := by
  rw [← Module.modifyProperty_put]
  exact edit _ (·.modifyProperty i n g') fun _ _ hm => hm.modifyProperty i n h

end Leads

/-- Modules that differ in what the symbol at a place has in common with all others. -/
def Sits (p : Place) (seat : Common → Module) : Prop := ∀ c g, (seat c).modifyCommon p g = seat (g c)

namespace Drafting
variable {f : Focus} {p : Place} {seat : Common → Module}

theorem annotate_seat [Yaml.Readers] (hs : Sits p seat) (a : Phrase.Annotations) {r : Rule}
    {ts : List Tree} (ht : wordsIn .docComment ts = a.comment.toList.map (·.val)) (name : String) :
    Leads (annotate p (.node r ts)) (seat { name }) f (seat { name, comment := a.text }) f := by
  have hc : commented p (.node r ts) (seat { name }) = seat { name, comment := a.text } := by
    rw [commented,Tree.token?_node,ht,Phrase.Annotations.text]
    cases a.comment with
    | none => rfl
    | some w => exact hs _ _
  rw [← hc]
  exact annotate_leads p _

theorem giveType_seat (hs : Sits p seat) {t : Tree} {type : TypeExpr} (ht : Draft.typeOf t = type)
    (c : Common) : Leads (giveType p t) (seat c) f (seat { c with type }) f := by
  have hg := giveType_leads (m := seat c) (f := f) p t
  rw [hs,ht] at hg
  exact hg

end Drafting

end InterfaceKit.Model
