import InterfaceKit.Proofs.Model.Steps

/-!
# Symbols stand under their names

What the steps of a walk keep of each symbol at its place holds of every module that a walk leaves,
also of one that ends early. So in every table of a module a symbol stands under its own name, and
the name is spelt as names are.
-/
namespace InterfaceKit.Model
open Data Grammar Lexical

namespace Table
variable {α : Type} {P : String → α → Prop} {t : Table α} {n : String} {a : α}

/-- Every name is related to what stands under it. -/
def All (P : String → α → Prop) (t : Table α) : Prop := ∀ e ∈ t, P e.1 e.2

theorem All.nil : All P [] := fun _ h => nomatch h

theorem All.set (h : t.All P) (ha : P n a) : (t.set n a).All P := by
  induction t with
  | nil => exact List.forall_mem_cons.mpr ⟨ha,All.nil⟩
  | cons e t ih =>
    obtain ⟨m,b⟩ := e
    obtain ⟨hhead,htail⟩ := List.forall_mem_cons.mp h
    by_cases hm : m = n
    · subst hm
      rw [Table.set,if_pos rfl]
      exact List.forall_mem_cons.mpr ⟨ha,htail⟩
    · rw [Table.set,if_neg hm]
      exact List.forall_mem_cons.mpr ⟨hhead,ih htail⟩

theorem All.modify_of_get? {f : α → α} (h : t.All P)
    (hf : ∀ a, t.get? n = some a → P n a → P n (f a)) :
    (t.modify n f).All P := by
  induction t with
  | nil => exact All.nil
  | cons e t ih =>
    obtain ⟨m,b⟩ := e
    obtain ⟨hhead,htail⟩ := List.forall_mem_cons.mp h
    by_cases hm : m = n
    · subst hm
      rw [Table.modify,if_pos rfl]
      exact List.forall_mem_cons.mpr ⟨hf b (by simp [get?_cons]) hhead,htail⟩
    · rw [Table.modify,if_neg hm]
      refine List.forall_mem_cons.mpr ⟨hhead,ih htail fun a ha => hf a ?_⟩
      rw [get?_cons,if_neg (Ne.symm hm),ha]

theorem All.modify {f : α → α} (h : t.All P) (hf : ∀ a, P n a → P n (f a)) : (t.modify n f).All P :=
  h.modify_of_get? fun a _ => hf a

theorem All.get? (h : t.All P) (hn : t.get? n = some a) : P n a := h _ (mem_of_get? hn)

end Table

/-! ## Symbols at their places -/

structure Operation.Each (Q : Place → Common → Prop) (i o : String) (x : Operation) : Prop where
  own : Q (.operation i o) x.common
  parameters : x.parameters.All fun p y => Q (.operationParameter i o p) y.common

structure Signal.Each (Q : Place → Common → Prop) (i s : String) (x : Signal) : Prop where
  own : Q (.signal i s) x.common
  parameters : x.parameters.All fun p y => Q (.signalParameter i s p) y.common

structure Interface.Each (Q : Place → Common → Prop) (i : String) (x : Interface) : Prop where
  own : Q (.interface i) x.common
  properties : x.properties.All fun p y => Q (.property i p) y.common
  operations : x.operations.All (Operation.Each Q i)
  signals : x.signals.All (Signal.Each Q i)

structure Struct.Each (Q : Place → Common → Prop) (s : String) (x : Struct) : Prop where
  own : Q (.struct s) x.common
  fields : x.fields.All fun f y => Q (.field s f) y.common

structure Enum.Each (Q : Place → Common → Prop) (e : String) (x : Enum) : Prop where
  own : Q (.enum e) x.common
  members : x.members.All fun n y => Q (.member e n) y.common

/-- Something holds of each symbol of a module at its place. -/
structure Module.Each (Q : Place → Common → Prop) (m : Module) : Prop where
  own : Q .module m.common
  interfaces : m.interfaces.All (Interface.Each Q)
  structs : m.structs.All (Struct.Each Q)
  enums : m.enums.All (Enum.Each Q)

def Place.name? : Place → Option String
  | .module => none
  | .interface n | .struct n | .enum n | .property _ n | .operation _ n | .signal _ n
  | .operationParameter _ _ n
  | .signalParameter _ _ n | .field _ n | .member _ n => some n

/-- A place stands in a part of another one. -/
inductive Place.Holds : Place → Section → Place → Prop
  | interface (k : String) : Holds .module .interfaces (.interface k)
  | struct (k : String) : Holds .module .structs (.struct k)
  | enum (k : String) : Holds .module .enums (.enum k)
  | property (i k : String) : Holds (.interface i) .properties (.property i k)
  | operation (i k : String) : Holds (.interface i) .operations (.operation i k)
  | signal (i k : String) : Holds (.interface i) .signals (.signal i k)
  | operationParameter (i o k : String) :
      Holds (.operation i o) .parameters (.operationParameter i o k)
  | signalParameter (i s k : String) : Holds (.signal i s) .parameters (.signalParameter i s k)
  | field (s k : String) : Holds (.struct s) .fields (.field s k)
  | member (e k : String) : Holds (.enum e) .members (.member e k)

namespace Module.Each
variable {Q : Place → Common → Prop} {m : Module}

section
variable (h : m.Each Q)
include h

theorem imp₂ {Q' R : Place → Common → Prop} (h' : m.Each Q')
    (himp : ∀ p c, Q p c → Q' p c → R p c) : m.Each R where
  own := himp _ _ h.own h'.own
  interfaces i hi := by
    have hx := h.interfaces i hi
    have hx' := h'.interfaces i hi
    refine ⟨himp _ _ hx.own hx'.own,fun p hp => himp _ _ (hx.properties p hp) (hx'.properties p hp),
      fun o ho => ⟨?_,fun p hp => ?_⟩,fun s hs => ⟨?_,fun p hp => ?_⟩⟩
    · exact himp _ _ (hx.operations o ho).own (hx'.operations o ho).own
    · exact himp _ _ ((hx.operations o ho).parameters p hp) ((hx'.operations o ho).parameters p hp)
    · exact himp _ _ (hx.signals s hs).own (hx'.signals s hs).own
    · exact himp _ _ ((hx.signals s hs).parameters p hp) ((hx'.signals s hs).parameters p hp)
  structs s hs := ⟨himp _ _ (h.structs s hs).own (h'.structs s hs).own,
    fun f hf => himp _ _ ((h.structs s hs).fields f hf) ((h'.structs s hs).fields f hf)⟩
  enums e he := ⟨himp _ _ (h.enums e he).own (h'.enums e he).own,
    fun n hn => himp _ _ ((h.enums e he).members n hn) ((h'.enums e he).members n hn)⟩

theorem imp {Q' : Place → Common → Prop} (himp : ∀ p c, Q p c → Q' p c) : m.Each Q' :=
  h.imp₂ h fun p c hc _ => himp p c hc

theorem modifyInterface {i : String} {f : Interface → Interface}
    (hf : ∀ x, m.interfaces.get? i = some x → x.Each Q i → (f x).Each Q i) :
    (m.modifyInterface i f).Each Q :=
  { h with interfaces := h.interfaces.modify_of_get? hf }

theorem modifyStruct {s : String} {f : Struct → Struct}
    (hf : ∀ x, m.structs.get? s = some x → x.Each Q s → (f x).Each Q s) :
    (m.modifyStruct s f).Each Q :=
  { h with structs := h.structs.modify_of_get? hf }

theorem modifyEnum {e : String} {f : Enum → Enum}
    (hf : ∀ x, m.enums.get? e = some x → x.Each Q e → (f x).Each Q e) : (m.modifyEnum e f).Each Q :=
  { h with enums := h.enums.modify_of_get? hf }

theorem modifyCommon {f : Common → Common} {p : Place}
    (hf : ∀ c, m.common? p = some c → Q p c → Q p (f c)) : (m.modifyCommon p f).Each Q := by
  cases p with
  | module => exact { h with own := hf _ rfl h.own }
  | interface i =>
    exact h.modifyInterface fun x hx hall =>
      { hall with own := hf _ (by simp [Module.common?,hx]) hall.own }
  | struct s =>
    exact h.modifyStruct fun x hx hall =>
      { hall with own := hf _ (by simp [Module.common?,hx]) hall.own }
  | enum e =>
    exact h.modifyEnum fun x hx hall =>
      { hall with own := hf _ (by simp [Module.common?,hx]) hall.own }
  | property i p =>
    exact h.modifyInterface fun x hx hall => { hall with
      properties := hall.properties.modify_of_get? fun y hy =>
        hf y.common (by simp [Module.common?,hx,hy]) }
  | operation i o =>
    exact h.modifyInterface fun x hx hall => { hall with
      operations := hall.operations.modify_of_get? fun y hy hown =>
        { hown with own := hf _ (by simp [Module.common?,hx,hy]) hown.own } }
  | signal i s =>
    exact h.modifyInterface fun x hx hall => { hall with
      signals := hall.signals.modify_of_get? fun y hy hown =>
        { hown with own := hf _ (by simp [Module.common?,hx,hy]) hown.own } }
  | operationParameter i o p =>
    exact h.modifyInterface fun x hx hall => { hall with
      operations := hall.operations.modify_of_get? fun y hy hown => { hown with
        parameters := hown.parameters.modify_of_get? fun z hz =>
          hf z.common (by simp [Module.common?,hx,hy,hz]) } }
  | signalParameter i s p =>
    exact h.modifyInterface fun x hx hall => { hall with
      signals := hall.signals.modify_of_get? fun y hy hown => { hown with
        parameters := hown.parameters.modify_of_get? fun z hz =>
          hf z.common (by simp [Module.common?,hx,hy,hz]) } }
  | field s f =>
    exact h.modifyStruct fun x hx hall => { hall with
      fields := hall.fields.modify_of_get? fun y hy => hf y.common (by simp [Module.common?,hx,hy]) }
  | member e n =>
    exact h.modifyEnum fun x hx hall => { hall with
      members := hall.members.modify_of_get? fun y hy =>
        hf y.common (by simp [Module.common?,hx,hy]) }

/-- A step of a walk keeps what holds of new symbols and heeds neither comments nor tags. -/
theorem change {r : Rule} {t : Tree} {m' : Module}
    (hnew : r.Declares → ∀ {q part p c} tags, q.Holds part p → p.name? = some (Drafting.nameOf t) →
      Q q c →
      Q p (made t tags c p))
    (hheeds : ∀ p c comment tags, Q p c → Q p { c with comment, tags })
    (htype : ∀ p c, p.isPart = true → Q p c → Q p (c.withType (Draft.typeOf t)))
    (hc : Change r t m m') :
    m'.Each Q := by
  cases hc with
  | comment | tags =>
    apply h.modifyCommon
    intro c _ hc
    exact hheeds _ c _ _ hc
  | type p hp =>
    apply h.modifyCommon
    intro c _ hc
    exact htype p c hp hc
  | imports imports => exact { h with }
  | interface hr tags =>
    have hown := hnew hr tags (.interface _) rfl h.own
    exact { h with interfaces := h.interfaces.set ⟨hown,Table.All.nil,Table.All.nil,Table.All.nil⟩ }
  | struct hr tags =>
    exact { h with structs := h.structs.set ⟨hnew hr tags (.struct _) rfl h.own,Table.All.nil⟩ }
  | enum hr tags =>
    exact { h with enums := h.enums.set ⟨hnew hr tags (.enum _) rfl h.own,Table.All.nil⟩ }
  | operation hr i tags isConst =>
    exact h.modifyInterface fun x _ hx => { hx with
      operations := hx.operations.set ⟨hnew hr tags (.operation i _) rfl hx.own,Table.All.nil⟩ }
  | signal hr i tags =>
    exact h.modifyInterface fun x _ hx => { hx with
      signals := hx.signals.set ⟨hnew hr tags (.signal i _) rfl hx.own,Table.All.nil⟩ }
  | parameter hr owner tags =>
    cases owner with
    | operation i o =>
      exact h.modifyInterface fun x _ hx => { hx with
        operations := hx.operations.modify fun y hy => { hy with
          parameters := hy.parameters.set (hnew hr tags (.operationParameter i o _) rfl hy.own) } }
    | signal i s =>
      exact h.modifyInterface fun x _ hx => { hx with
        signals := hx.signals.modify fun y hy => { hy with
          parameters := hy.parameters.set (hnew hr tags (.signalParameter i s _) rfl hy.own) } }
  | property hr i tags readonly const =>
    exact h.modifyInterface fun x _ hx => { hx with
      properties := hx.properties.set (hnew hr tags (.property i _) rfl hx.own) }
  | field hr s tags =>
    exact h.modifyStruct fun x _ hx => { hx with
      fields := hx.fields.set (hnew hr tags (.field s _) rfl hx.own) }
  | member hr e tags =>
    exact h.modifyEnum fun x _ hx => { hx with
      members := hx.members.set (hnew hr tags (.member e _) rfl hx.own) }
  | base i base => exact h.modifyInterface fun x _ hx => { hx with }
  | flag e => exact h.modifyEnum fun x _ hx => { hx with }
  | propertyValue i p value =>
    exact h.modifyInterface fun x _ hx =>
      { hx with properties := hx.properties.modify fun y hy => hy }
  | fieldValue s f value =>
    exact h.modifyStruct fun x _ hx => { hx with fields := hx.fields.modify fun y hy => hy }
  | memberValue e n value =>
    exact h.modifyEnum fun x _ hx => { hx with members := hx.members.modify fun y hy => hy }

theorem common? {p : Place} {c : Common} (hc : m.common? p = some c) : Q p c := by
  cases p <;> simp only [Module.common?,Option.bind_eq_bind,Option.bind_eq_some_iff,
    Option.map_eq_some_iff] at hc
  case module =>
    obtain rfl := Option.some.inj hc
    exact h.own
  case interface i =>
    obtain ⟨x,hx,rfl⟩ := hc
    exact (h.interfaces.get? hx).own
  case struct s =>
    obtain ⟨x,hx,rfl⟩ := hc
    exact (h.structs.get? hx).own
  case enum e =>
    obtain ⟨x,hx,rfl⟩ := hc
    exact (h.enums.get? hx).own
  case property i p =>
    obtain ⟨x,hx,y,hy,rfl⟩ := hc
    exact (h.interfaces.get? hx).properties.get? hy
  case operation i o =>
    obtain ⟨x,hx,y,hy,rfl⟩ := hc
    exact ((h.interfaces.get? hx).operations.get? hy).own
  case signal i s =>
    obtain ⟨x,hx,y,hy,rfl⟩ := hc
    exact ((h.interfaces.get? hx).signals.get? hy).own
  case operationParameter i o p =>
    obtain ⟨x,hx,y,hy,z,hz,rfl⟩ := hc
    exact ((h.interfaces.get? hx).operations.get? hy).parameters.get? hz
  case signalParameter i s p =>
    obtain ⟨x,hx,y,hy,z,hz,rfl⟩ := hc
    exact ((h.interfaces.get? hx).signals.get? hy).parameters.get? hz
  case field s f =>
    obtain ⟨x,hx,y,hy,rfl⟩ := hc
    exact (h.structs.get? hx).fields.get? hy
  case member e f =>
    obtain ⟨x,hx,y,hy,rfl⟩ := hc
    exact (h.enums.get? hx).members.get? hy

end

end Module.Each

variable {m : Module} {t : Tree} {number : Nat}

/-- What holds of a new module, and of a new symbol when it holds of the one that it is made for,
and heeds neither comments nor tags, holds of all symbols that a walk leaves, also of one that ends
early. -/
theorem ofDocument_each {Q : Place → Common → Prop}
    (hmodule : ∀ us tags, .node .moduleHead us ∈ t.nodes →
      Q .module { name := Drafting.nameOf (.node .moduleHead us), tags, origin := .root number })
    (hnew : ∀ r us q part p c tags, .node r us ∈ t.nodes → r.Declares → q.Holds part p →
      p.name? = some (Drafting.nameOf (.node r us)) → Q q c → Q p (made (.node r us) tags c p))
    (hheeds : ∀ p c comment tags, Q p c → Q p { c with comment, tags })
    (htype : ∀ r us p c, .node r us ∈ t.nodes → p.isPart = true → Q p c →
      Q p (c.withType (Draft.typeOf (.node r us))))
    (store : Store) (hm : (Draft.ofDocument number t store).2.module = some m) : m.Each Q := by
  apply ofDocument_invariant (I := Module.Each Q) _ _ store hm
  · intro us tags hn
    exact ⟨hmodule us tags hn,Table.All.nil,Table.All.nil,Table.All.nil⟩
  · intro r us m m' hn hc hm
    exact hm.change (fun hr {_ _ _ _} tags => hnew r us _ _ _ _ tags hn hr) hheeds
      (fun p c => htype r us p c hn) hc

/-! ## Named symbols -/

/-- The name under which a symbol stands is its own. -/
def Common.Named (n : String) (c : Common) : Prop := c.name = n ∧ IsName n.toList

def Parameter.Named (n : String) (x : Parameter) : Prop := x.common.Named n

def Property.Named (n : String) (x : Property) : Prop := x.common.Named n

structure Operation.Named (n : String) (x : Operation) : Prop where
  common : x.common.Named n
  parameters : x.parameters.All Parameter.Named

structure Signal.Named (n : String) (x : Signal) : Prop where
  common : x.common.Named n
  parameters : x.parameters.All Parameter.Named

structure Interface.Named (n : String) (x : Interface) : Prop where
  common : x.common.Named n
  properties : x.properties.All Property.Named
  operations : x.operations.All Operation.Named
  signals : x.signals.All Signal.Named

def Field.Named (n : String) (x : Field) : Prop := x.common.Named n

structure Struct.Named (n : String) (x : Struct) : Prop where
  common : x.common.Named n
  fields : x.fields.All Field.Named

def Member.Named (n : String) (x : Member) : Prop := x.common.Named n

structure Enum.Named (n : String) (x : Enum) : Prop where
  common : x.common.Named n
  members : x.members.All Member.Named

structure Module.Named (m : Module) : Prop where
  common : m.common.Named m.name
  interfaces : m.interfaces.All Interface.Named
  structs : m.structs.All Struct.Named
  enums : m.enums.All Enum.Named

def Place.Names (p : Place) (c : Common) : Prop := c.Named (p.name?.getD c.name)

theorem Module.named_iff : m.Named ↔ m.Each Place.Names := by
  constructor
  · intro h
    refine ⟨h.common,fun i hi => ?_,fun s hs => ⟨(h.structs s hs).common,(h.structs s hs).fields⟩,
      fun e he => ⟨(h.enums e he).common,(h.enums e he).members⟩⟩
    have hx := h.interfaces i hi
    exact ⟨hx.common,hx.properties,
      fun o ho => ⟨(hx.operations o ho).common,(hx.operations o ho).parameters⟩,fun s hs =>
        ⟨(hx.signals s hs).common,(hx.signals s hs).parameters⟩⟩
  · intro h
    refine ⟨h.own,fun i hi => ?_,fun s hs => ⟨(h.structs s hs).own,(h.structs s hs).fields⟩,
      fun e he => ⟨(h.enums e he).own,(h.enums e he).members⟩⟩
    have hx := h.interfaces i hi
    exact ⟨hx.own,hx.properties,
      fun o ho => ⟨(hx.operations o ho).own,(hx.operations o ho).parameters⟩,fun s hs =>
        ⟨(hx.signals s hs).own,(hx.signals s hs).parameters⟩⟩

/-- Whatever a walk through a parsed text leaves, its symbols stand under their names. -/
theorem ofDocument_named {text : List Char} {c : Cursor}
    (h : parse .document (Source.ofText text) = .parsed t c) (store : Store)
    (hm : (Draft.ofDocument number t store).2.module = some m) : m.Named := by
  have hidentifier : ∀ x ∈ Tree.tokensOf [t], x.kind = .identifier → IsName x.text.toList := by
    intro x hx hk
    have hspells := Source.spells_of_parsed h x (by simpa using hx)
    rw [hk] at hspells
    exact hspells
  have hname : ∀ r us, .node r us ∈ t.nodes → r.Declares →
      IsName (Drafting.nameOf (.node r us)).toList :=
    fun r us hn => (parse_reads h).derives.isName hidentifier (by simpa [Tree.nodesOf] using hn)
  refine Module.named_iff.mpr
    (ofDocument_each ?_ ?_ (fun _ _ _ _ => id) (fun _ _ _ _ _ _ => id) store hm)
  · intro us tags hn
    exact ⟨rfl,hname _ us hn (by decide)⟩
  · intro r us q part p c tags hn hr _ hp _
    rw [Place.Names,hp]
    exact ⟨rfl,hname r us hn hr⟩

/-! ## Symbols and what they were made with -/

/-- The symbol at a place was made as that symbol, with its own module and the symbol that holds
it. -/
structure Common.Placed (id : Nat) (p : Place) (c : Common) : Prop where
  self : c.origin.self = ⟨id,p⟩
  module : c.origin.module = id
  owner : ∀ q part, q.Holds part p → c.origin.owner = ⟨id,q⟩
  types : c.origin.types = List.replicate c.type.layers.length id

def Module.Placed (id : Nat) : Module → Prop := Module.Each (Common.Placed id)

theorem Place.Holds.unique {q q' p : Place} {part part' : Section} (h : q.Holds part p)
    (h' : q'.Holds part' p) :
    q = q' := by
  cases h <;> cases h' <;> rfl

/-- What is made for a symbol at its place is at its own one. -/
theorem Common.Placed.made {id : Nat} {q p : Place} {part : Section} {c : Common} (h : c.Placed id q)
    (hholds : q.Holds part p) (t : Tree) (tags : Value) : (made t tags c p).Placed id p where
  self := by
    change ({ c.origin.self with place := p } : Handle) = _
    rw [h.self]
  module := h.module
  owner q' part' hq' := by
    obtain rfl := hholds.unique hq'
    exact h.self
  types := congrArg ([·]) h.module

theorem Common.Placed.withType {id : Nat} {p : Place} {c : Common} (h : c.Placed id p)
    (t : TypeExpr) :
    (c.withType t).Placed id p := by
  refine { h with types := ?_ }
  have hhead : c.origin.types.headD c.origin.module = id := by
    rw [h.types,TypeExpr.layers,List.length_cons,List.replicate_succ,List.headD_cons]
  exact congrArg (List.replicate t.layers.length) hhead

/-- Whatever a walk leaves, its symbols are at the places that they were made for. -/
theorem ofDocument_placed (t : Tree) (store : Store)
    (hm : (Draft.ofDocument number t store).2.module = some m) : m.Placed number := by
  refine ofDocument_each ?_ ?_ ?_ ?_ store hm
  · intro us tags hn
    exact ⟨rfl,rfl,nofun,rfl⟩
  · intro r us q part p c tags _ _ hholds _ hc
    exact hc.made hholds _ tags
  · intro p c comment tags hc
    exact { hc with }
  · intro r us p c _ _ hc
    exact hc.withType _

end InterfaceKit.Model
