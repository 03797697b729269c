import InterfaceKit.Model.Draft
import InterfaceKit.Model.Tags
import InterfaceKit.Proofs.Model.Table
import Mathlib.Data.List.Forall2

/-!
# Modules that are alike

Two modules are alike when they have the same symbols at the same places, with the same names,
comments, types and values. A `Likeness` says how far the rest agrees. The weakest one asks for
nothing else; the strongest is equality.
-/
namespace InterfaceKit.Model
open Data

/-! ## Tables -/

theorem rel_cases {α β : Type} {A : α → β → Prop} {o : Option α} {o' : Option β}
    (h : Option.Rel A o o') :
    o = none ∧ o' = none ∨ ∃ a a', o = some a ∧ o' = some a' ∧ A a a' := by
  cases h with
  | none => exact .inl ⟨rfl,rfl⟩
  | some h => exact .inr ⟨_,_,rfl,rfl,h⟩

namespace Table
variable {α : Type} {A : α → α → Prop} {t t' : Table α} {a a' : α}

/-- The same names in the same order, over values that are related. -/
def Like (A : α → α → Prop) (t t' : Table α) : Prop :=
  List.Forall₂ (fun e e' => e.1 = e'.1 ∧ A e.2 e'.2) t t'

namespace Like

theorem names (h : Like A t t') : t.names = t'.names := by
  induction h with
  | nil => rfl
  | cons he _ ih => exact congrArg₂ List.cons he.1 ih

theorem get? (h : Like A t t') (n : String) : Option.Rel A (t.get? n) (t'.get? n) := by
  induction h with
  | nil => exact .none
  | @cons e e' t t' he _ ih =>
    obtain ⟨m,b⟩ := e
    obtain ⟨m',b'⟩ := e'
    obtain rfl : m = m' := he.1
    simp only [Table.get?,List.lookup_cons] at ih ⊢
    cases n == m with
    | true => exact .some he.2
    | false => exact ih

theorem exists_get? (h : Like A t t') {n : String} (hget : t'.get? n = some a') :
    ∃ a, t.get? n = some a ∧ A a a' := by
  have hrel := h.get? n
  rw [hget] at hrel
  generalize t.get? n = o at hrel
  cases hrel with
  | some ha => exact ⟨_,rfl,ha⟩

theorem set (h : Like A t t') (n : String) (ha : A a a') : Like A (t.set n a) (t'.set n a') := by
  induction h with
  | nil => exact .cons ⟨rfl,ha⟩ .nil
  | @cons e e' t t' he ht ih =>
    obtain ⟨m,b⟩ := e
    obtain ⟨m',b'⟩ := e'
    obtain rfl : m = m' := he.1
    simp only [Table.set]
    split
    · exact .cons ⟨rfl,ha⟩ ht
    · exact .cons he ih

theorem modify {f f' : α → α} (h : Like A t t') (n : String)
    (hf : ∀ a a', A a a' → A (f a) (f' a')) :
    Like A (t.modify n f) (t'.modify n f') := by
  induction h with
  | nil => exact .nil
  | @cons e e' t t' he ht ih =>
    obtain ⟨m,b⟩ := e
    obtain ⟨m',b'⟩ := e'
    obtain rfl : m = m' := he.1
    simp only [Table.modify]
    split
    · exact .cons ⟨rfl,hf b b' he.2⟩ ht
    · exact .cons he ih

theorem map {B : α → α → Prop} {g : String × α → String × α} (h : Like A t t')
    (hg : ∀ n a a', A a a' → (g (n, a)).1 = n ∧ B (g (n, a)).2 a') : Like B (t.map g) t' := by
  refine List.forall₂_map_left_iff.mpr (List.Forall₂.imp (fun e e' he => ?_) h)
  obtain ⟨hname,hvalue⟩ := hg e.1 e.2 e'.2 he.2
  exact ⟨hname.trans he.1,hvalue⟩

theorem eq (h : Like A t t') (hA : ∀ a a', A a a' → a = a') : t = t' := by
  induction h with
  | nil => rfl
  | cons he _ ih => rw [ih,Prod.ext he.1 (hA _ _ he.2)]

end Like

end Table

/-! ## Origins -/

namespace Origin

def renumber (f : Nat → Nat) (o : Origin) : Origin where
  self := ⟨f o.self.module,o.self.place⟩
  module := f o.module
  owner := ⟨f o.owner.module,o.owner.place⟩
  types := o.types.map f

variable {f : Nat → Nat}

theorem renumber_inside (o : Origin) (p : Place) :
    (o.inside p).renumber f = (o.renumber f).inside p := rfl

theorem renumber_typed (o : Origin) (depth : Nat) :
    (o.typed depth).renumber f = (o.renumber f).typed depth := by
  have hhead : f (o.types.headD o.module) = (o.types.map f).headD (f o.module) := by
    cases o.types <;> rfl
  simp only [renumber,typed,List.map_replicate,hhead]

theorem renumber_id (o : Origin) : o.renumber id = o := by
  simp [renumber]

end Origin

/-! ## Symbols and modules -/

/-- In what respect symbols are alike: how their tags are related, their being constant, whether
enumerations are enumerations proper and flags, and what symbols were made with. -/
structure Likeness where
  tags : Value → Value → Prop
  const : Bool → Bool → Prop
  kind : Bool × Bool → Bool × Bool → Prop
  origin : Origin → Origin → Prop

section
variable (L : Likeness)

structure Common.Like (c c' : Common) : Prop where
  name : c.name = c'.name
  comment : c.comment = c'.comment
  type : c.type = c'.type
  tags : L.tags c.tags c'.tags
  origin : L.origin c.origin c'.origin

def Parameter.Like (x x' : Parameter) : Prop := x.common.Like L x'.common

structure Property.Like (x x' : Property) : Prop where
  common : x.common.Like L x'.common
  readonly : x.readonly = x'.readonly
  const : L.const x.const x'.const
  value : x.value = x'.value

structure Operation.Like (x x' : Operation) : Prop where
  common : x.common.Like L x'.common
  isConst : L.const x.isConst x'.isConst
  parameters : x.parameters.Like (Parameter.Like L) x'.parameters

structure Signal.Like (x x' : Signal) : Prop where
  common : x.common.Like L x'.common
  parameters : x.parameters.Like (Parameter.Like L) x'.parameters

structure Interface.Like (x x' : Interface) : Prop where
  common : x.common.Like L x'.common
  base : x.base = x'.base
  properties : x.properties.Like (Property.Like L) x'.properties
  operations : x.operations.Like (Operation.Like L) x'.operations
  signals : x.signals.Like (Signal.Like L) x'.signals

structure Field.Like (x x' : Field) : Prop where
  common : x.common.Like L x'.common
  value : x.value = x'.value

structure Struct.Like (x x' : Struct) : Prop where
  common : x.common.Like L x'.common
  fields : x.fields.Like (Field.Like L) x'.fields

structure Member.Like (x x' : Member) : Prop where
  common : x.common.Like L x'.common
  value : x.value = x'.value

structure Enum.Like (x x' : Enum) : Prop where
  common : x.common.Like L x'.common
  kind : L.kind (x.isEnum, x.isFlag) (x'.isEnum, x'.isFlag)
  members : x.members.Like (Member.Like L) x'.members

structure Module.Like (m m' : Module) : Prop where
  common : m.common.Like L m'.common
  version : m.version = m'.version
  imports : m.imports = m'.imports
  interfaces : m.interfaces.Like (Interface.Like L) m'.interfaces
  structs : m.structs.Like (Struct.Like L) m'.structs
  enums : m.enums.Like (Enum.Like L) m'.enums

end

namespace Module.Like
variable {L : Likeness} {m m' : Module} (h : m.Like L m')
include h

theorem modifyInterface {f f' : Interface → Interface} (i : String)
    (hf : ∀ x x', x.Like L x' → (f x).Like L (f' x')) :
    (m.modifyInterface i f).Like L (m'.modifyInterface i f') :=
  { h with interfaces := h.interfaces.modify i hf }

theorem modifyStruct {f f' : Struct → Struct} (s : String)
    (hf : ∀ x x', x.Like L x' → (f x).Like L (f' x')) :
    (m.modifyStruct s f).Like L (m'.modifyStruct s f') :=
  { h with structs := h.structs.modify s hf }

theorem modifyEnum {f f' : Enum → Enum} (e : String)
    (hf : ∀ x x', x.Like L x' → (f x).Like L (f' x')) :
    (m.modifyEnum e f).Like L (m'.modifyEnum e f') :=
  { h with enums := h.enums.modify e hf }

theorem modifyProperty {f f' : Property → Property} (i p : String)
    (hf : ∀ x x', x.Like L x' → (f x).Like L (f' x')) :
    (m.modifyProperty i p f).Like L (m'.modifyProperty i p f') :=
  h.modifyInterface i fun _ _ hx => { hx with properties := hx.properties.modify p hf }

theorem modifyOperation {f f' : Operation → Operation} (i o : String)
    (hf : ∀ x x', x.Like L x' → (f x).Like L (f' x')) :
    (m.modifyOperation i o f).Like L (m'.modifyOperation i o f') :=
  h.modifyInterface i fun _ _ hx => { hx with operations := hx.operations.modify o hf }

theorem modifySignal {f f' : Signal → Signal} (i s : String)
    (hf : ∀ x x', x.Like L x' → (f x).Like L (f' x')) :
    (m.modifySignal i s f).Like L (m'.modifySignal i s f') :=
  h.modifyInterface i fun _ _ hx => { hx with signals := hx.signals.modify s hf }

theorem modifyField {f f' : Field → Field} (s n : String)
    (hf : ∀ x x', x.Like L x' → (f x).Like L (f' x')) :
    (m.modifyField s n f).Like L (m'.modifyField s n f') :=
  h.modifyStruct s fun _ _ hx => { hx with fields := hx.fields.modify n hf }

theorem modifyMember {f f' : Member → Member} (e n : String)
    (hf : ∀ x x', x.Like L x' → (f x).Like L (f' x')) :
    (m.modifyMember e n f).Like L (m'.modifyMember e n f') :=
  h.modifyEnum e fun _ _ hx => { hx with members := hx.members.modify n hf }

theorem modifyCommon {f f' : Common → Common} (p : Place)
    (hf : ∀ c c', c.Like L c' → (f c).Like L (f' c')) :
    (m.modifyCommon p f).Like L (m'.modifyCommon p f') := by
  have hp : ∀ (t t' : Table Parameter) (n : String), t.Like (Parameter.Like L) t' →
      (t.modify n fun y => { y with common := f y.common }).Like (Parameter.Like L)
        (t'.modify n fun y => { y with common := f' y.common }) :=
    fun t t' n ht => ht.modify n fun y y' hy => hf y.common y'.common hy
  cases p with
  | module => exact { h with common := hf _ _ h.common }
  | interface i => exact h.modifyInterface i fun x x' hx => { hx with common := hf _ _ hx.common }
  | struct s => exact h.modifyStruct s fun x x' hx => { hx with common := hf _ _ hx.common }
  | enum e => exact h.modifyEnum e fun x x' hx => { hx with common := hf _ _ hx.common }
  | property i p => exact h.modifyProperty i p fun x x' hx => { hx with common := hf _ _ hx.common }
  | operation i o =>
    exact h.modifyOperation i o fun x x' hx => { hx with common := hf _ _ hx.common }
  | signal i s => exact h.modifySignal i s fun x x' hx => { hx with common := hf _ _ hx.common }
  | operationParameter i o p =>
    exact h.modifyOperation i o fun x x' hx => { hx with parameters := hp _ _ p hx.parameters }
  | signalParameter i s p =>
    exact h.modifySignal i s fun x x' hx => { hx with parameters := hp _ _ p hx.parameters }
  | field s n => exact h.modifyField s n fun x x' hx => { hx with common := hf _ _ hx.common }
  | member e n => exact h.modifyMember e n fun x x' hx => { hx with common := hf _ _ hx.common }

theorem enter {g g' : Common → Common} (hg : ∀ c c', c.Like L c' → (g c).Like L (g' c'))
    (owner : Callable) (n : String) : (owner.enter n g m).Like L (owner.enter n g' m') := by
  cases owner with
  | operation i o =>
    exact h.modifyOperation i o fun x x' hx =>
      { hx with parameters := hx.parameters.set n (hg _ _ hx.common) }
  | signal i s =>
    exact h.modifySignal i s fun x x' hx =>
      { hx with parameters := hx.parameters.set n (hg _ _ hx.common) }

end Module.Like

/-! ## Less strict likeness -/

theorem Module.mapCommon_id (m : Module) : m.mapCommon id = m := by
  simp [mapCommon]

section
variable {L L' : Likeness} {m m' : Module} (h : m.Like L m')
include h

/-- What becomes of a likeness when the first module is changed. -/
theorem Module.Like.mapCommon {f : Common → Common}
    (hcommon : ∀ {c c'}, c.Like L c' → (f c).Like L' c') (hconst :
      ∀ {b b'}, L.const b b' → L'.const b b') (hkind : ∀ {k k'}, L.kind k k' → L'.kind k k') :
    (m.mapCommon f).Like L' m' where
  common := hcommon h.common
  version := h.version
  imports := h.imports
  interfaces := h.interfaces.map fun _ _ _ hx => ⟨rfl,
    { common := hcommon hx.common
      base := hx.base
      properties := hx.properties.map fun _ _ _ hy =>
        ⟨rfl,hcommon hy.common,hy.readonly,hconst hy.const,hy.value⟩
      operations := hx.operations.map fun _ _ _ hy =>
        ⟨rfl,hcommon hy.common,hconst hy.isConst,hy.parameters.map fun _ _ _ hz => ⟨rfl,hcommon hz⟩⟩
      signals := hx.signals.map fun _ _ _ hy =>
        ⟨rfl,hcommon hy.common,hy.parameters.map fun _ _ _ hz => ⟨rfl,hcommon hz⟩⟩ }⟩
  structs := h.structs.map fun _ _ _ hx =>
    ⟨rfl,hcommon hx.common,hx.fields.map fun _ _ _ hy => ⟨rfl,hcommon hy.common,hy.value⟩⟩
  enums := h.enums.map fun _ _ _ hx =>
    ⟨rfl,hcommon hx.common,hkind hx.kind,
      hx.members.map fun _ _ _ hy => ⟨rfl,hcommon hy.common,hy.value⟩⟩

theorem Module.Like.imp (htags : ∀ v v', L.tags v v' → L'.tags v v')
    (hconst : ∀ {b b'}, L.const b b' → L'.const b b') (hkind : ∀ {k k'}, L.kind k k' → L'.kind k k')
    (horigin : ∀ {o o'}, L.origin o o' → L'.origin o o') :
    m.Like L' m' := by
  rw [← m.mapCommon_id]
  exact h.mapCommon (fun hc => { hc with tags := htags _ _ hc.tags, origin := horigin hc.origin })
    hconst hkind

end

/-! ## Equality -/

def Likeness.exact : Likeness := ⟨Eq,Eq,Eq,Eq⟩

attribute [ext] Common Parameter Property Operation Signal Interface Field Struct Member Enum Module

theorem Common.Like.eq {c c' : Common} (h : c.Like .exact c') : c = c' :=
  Common.ext h.name h.comment h.tags h.type h.origin

theorem Parameter.Like.eq {x x' : Parameter} (h : x.Like .exact x') : x = x' :=
  Parameter.ext (Common.Like.eq h)

theorem Property.Like.eq {x x' : Property} (h : x.Like .exact x') : x = x' :=
  Property.ext h.common.eq h.readonly h.const h.value

theorem Operation.Like.eq {x x' : Operation} (h : x.Like .exact x') : x = x' :=
  Operation.ext h.common.eq h.isConst (h.parameters.eq fun _ _ => Parameter.Like.eq)

theorem Signal.Like.eq {x x' : Signal} (h : x.Like .exact x') : x = x' :=
  Signal.ext h.common.eq (h.parameters.eq fun _ _ => Parameter.Like.eq)

theorem Interface.Like.eq {x x' : Interface} (h : x.Like .exact x') : x = x' :=
  Interface.ext h.common.eq h.base (h.properties.eq fun _ _ => Property.Like.eq)
    (h.operations.eq fun _ _ => Operation.Like.eq) (h.signals.eq fun _ _ => Signal.Like.eq)

theorem Field.Like.eq {x x' : Field} (h : x.Like .exact x') : x = x' := Field.ext h.common.eq h.value

theorem Struct.Like.eq {x x' : Struct} (h : x.Like .exact x') : x = x' :=
  Struct.ext h.common.eq (h.fields.eq fun _ _ => Field.Like.eq)

theorem Member.Like.eq {x x' : Member} (h : x.Like .exact x') : x = x' :=
  Member.ext h.common.eq h.value

theorem Enum.Like.eq {x x' : Enum} (h : x.Like .exact x') : x = x' := by
  have hkind := Prod.mk.inj h.kind
  exact Enum.ext h.common.eq hkind.1 hkind.2 (h.members.eq fun _ _ => Member.Like.eq)

/-- Modules that are alike in all respects are the same. -/
theorem Module.Like.eq {m m' : Module} (h : m.Like .exact m') : m = m' :=
  Module.ext h.common.eq h.version h.imports (h.interfaces.eq fun _ _ => Interface.Like.eq)
    (h.structs.eq fun _ _ => Struct.Like.eq) (h.enums.eq fun _ _ => Enum.Like.eq)

end InterfaceKit.Model
