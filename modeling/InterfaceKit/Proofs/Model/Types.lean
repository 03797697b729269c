import InterfaceKit.Proofs.Model.DocumentWalk
import InterfaceKit.Proofs.Model.Naming
import InterfaceKit.Proofs.Model.Parallel

/-!
# Types and enumerations that are well formed

A type of the language is a row of containers around a type that is none. A module that a document
describes has such a type at each property, parameter and field, and at each operation such a type
or `void`. An enumeration is either plain or a flag, at every step of a walk.

Every symbol has a type, be it one that says nothing. What holds of the type that says nothing and
of every type that is written in a text holds of all types of the module that a walk leaves, also of
one that ends early: a layer is of one kind at most, the name of a complex layer is spelt as names
are, that of a primitive one is a word of the language, and nothing has been resolved.
-/
namespace InterfaceKit.Model
open Data Grammar Lexical

/-- What a layer may be; a layer that says something is one of them. -/
def Layer.kinds (l : Layer) : List Bool :=
  [l.isVoid,l.isPrimitive,l.isComplex,l.isList,l.isMap,l.isModel]

/-- Each layer of a type is of one kind, and something is nested in it if it is a container. Only
the outermost layer may be `void`, and only if that is allowed. -/
def TypeExpr.Formed (void : Bool) (t : TypeExpr) : Prop := ∀ depth l, t.layer? depth = some l →
  l.kinds.count true = 1 ∧ l.isContainer = t.hasNested depth ∧
    (l.isVoid = true → depth = 0 ∧ void = true)

/-- A row of containers around a layer that is none. -/
inductive Nests : List Layer → Prop
  | last {l : Layer} (hkind : l.kinds.count true = 1) (hvoid : l.isVoid = false)
      (hcontainer : l.isContainer = false) :
      Nests [l]
  | around {l : Layer} {ls : List Layer} (hkind : l.kinds.count true = 1) (hvoid : l.isVoid = false)
      (hcontainer : l.isContainer = true) (h : Nests ls) : Nests (l :: ls)

namespace Nests
variable {l : Layer} {ls : List Layer} {depth : Nat}

theorem head (h : Nests ls) : ls[0]?.isSome = true := by
  cases h <;> rfl

theorem layer (h : Nests ls) (hl : ls[depth]? = some l) :
    l.kinds.count true = 1 ∧ l.isContainer = ls[depth + 1]?.isSome ∧ l.isVoid = false := by
  induction h generalizing depth with
  | last hkind hvoid hcontainer =>
    cases depth with
    | zero =>
      obtain rfl := Option.some.inj hl
      exact ⟨hkind,hcontainer,hvoid⟩
    | succ depth => cases hl
  | around hkind hvoid hcontainer h ih =>
    cases depth with
    | zero =>
      obtain rfl := Option.some.inj hl
      exact ⟨hkind,hcontainer.trans h.head.symm,hvoid⟩
    | succ depth => exact ih hl

theorem formed (h : Nests ls) (void : Bool) : (TypeExpr.ofLayers ls).Formed void := by
  have hlayers : (TypeExpr.ofLayers ls).layers = ls := by
    cases h <;> rfl
  intro depth l hl
  rw [TypeExpr.layer?,hlayers] at hl
  obtain ⟨hkind,hcontainer,hvoid⟩ := h.layer hl
  refine ⟨hkind,?_,fun hl' => ?_⟩
  · rw [TypeExpr.hasNested,TypeExpr.layer?,hlayers]
    exact hcontainer
  · rw [hvoid] at hl'
    cases hl'

end Nests

theorem nests_layers (t : Phrase.TypeName) : Nests t.layers := by
  induction t with
  | primitive | complex => exact .last rfl rfl rfl
  | container c _ _ _ _ ih => cases c <;> exact .around rfl rfl rfl ih

theorem formed_type (t : Phrase.TypeName) (void : Bool) : t.describes.Formed void :=
  (nests_layers t).formed void

theorem formed_result (r : Phrase.Result) : r.describes.Formed true := by
  cases r with
  | value t => exact formed_type t true
  | void _ =>
    intro depth l hl
    cases depth with
    | zero =>
      obtain rfl := Option.some.inj hl
      exact ⟨rfl,rfl,fun _ => ⟨rfl,rfl⟩⟩
    | succ depth => cases hl

/-! ## Modules -/

variable {α : Type}

theorem Table.All.declared {P : String → α → Prop} {ds : List (String × α)}
    (h : ∀ d ∈ ds, P d.1 d.2) :
    (Table.declared ds).All P := by
  induction ds using List.reverseRecOn with
  | nil => exact .nil
  | append_singleton ds d ih =>
    rw [Table.declared_append]
    have hds : ∀ d ∈ ds, P d.1 d.2 := fun d hd => h d (List.mem_append_left _ hd)
    exact (ih hds).set (h d (List.mem_append_right _ (List.mem_singleton_self d)))

theorem Table.All.of_like {A : α → α → Prop} {P Q : String → α → Prop} {t t' : Table α}
    (ht : t'.All P) (h : t.Like A t') (hPQ : ∀ n a a', A a a' → P n a' → Q n a) : t.All Q := by
  induction h with
  | nil => exact fun _ he => absurd he List.not_mem_nil
  | @cons e e' t t' he _ ih =>
    obtain ⟨hhead,htail⟩ := List.forall_mem_cons.mp ht
    exact List.forall_mem_cons.mpr ⟨hPQ _ _ _ he.2 (he.1 ▸ hhead),ih htail⟩

def Place.hasType : Place → Bool
  | .property _ _ | .operation _ _ | .operationParameter _ _ _ | .signalParameter _ _ _
  | .field _ _ => true
  | _ => false

def Place.isOperation : Place → Bool
  | .operation _ _ => true
  | _ => false

/-- All types of a module are well formed, `void` is the type of operations only, and no other
symbols have types. -/
def Module.Typed : Module → Prop := Module.Each fun p c =>
  (p.hasType = true → c.type.Formed p.isOperation) ∧ (p.hasType = false → c.type = {})

variable {m : Module} {number : Nat}

/-- Tags do not matter to types. -/
theorem Module.Typed.of_like {m' : Module} (h : m.Like .untagged m') (ht : m'.Typed) : m.Typed := by
  have hcommon : ∀ {c c' : Common} {p : Place}, c.Like .untagged c' →
      (p.hasType = true → c'.type.Formed p.isOperation) ∧ (p.hasType = false → c'.type = {}) →
      (p.hasType = true → c.type.Formed p.isOperation) ∧ (p.hasType = false → c.type = {}) := by
    intro c c' p hc ht
    rwa [hc.type]
  refine ⟨hcommon h.common ht.own,ht.interfaces.of_like h.interfaces fun _ _ _ hx hi => ?_,
    ht.structs.of_like h.structs fun _ _ _ hx hs => ?_,
    ht.enums.of_like h.enums fun _ _ _ hx he => ?_⟩
  · exact ⟨hcommon hx.common hi.own,hi.properties.of_like hx.properties fun _ _ _ hy =>
      hcommon hy.common,hi.operations.of_like hx.operations fun _ _ _ hy ho =>
        ⟨hcommon hy.common ho.own,ho.parameters.of_like hy.parameters fun _ _ _ => hcommon⟩,
      hi.signals.of_like hx.signals fun _ _ _ hy hs =>
        ⟨hcommon hy.common hs.own,hs.parameters.of_like hy.parameters fun _ _ _ => hcommon⟩⟩
  · exact ⟨hcommon hx.common hs.own,hs.fields.of_like hx.fields fun _ _ _ hy => hcommon hy.common⟩
  · exact ⟨hcommon hx.common he.own,he.members.of_like hx.members fun _ _ _ hy => hcommon hy.common⟩

theorem typed_describes (d : Phrase.Document) : d.describes.Typed := by
  have hparameters : ∀ ps : List Phrase.Parameter,
    (Table.declared (ps.map (·.describes))).All fun _ y =>
      (true = true → y.common.type.Formed false) ∧ (true = false → y.common.type = {}) :=
    fun ps =>
      .declared (List.forall_mem_map.mpr fun p _ => ⟨fun _ => formed_type p.type false,nofun⟩)
  refine ⟨⟨nofun,fun _ => rfl⟩,?_,?_,?_⟩
  · refine .declared (List.forall_mem_map.mpr fun i _ => ⟨⟨nofun,fun _ => rfl⟩,?_,?_,?_⟩)
    · exact .declared (List.forall_mem_map.mpr fun p _ => ⟨fun _ => formed_type p.type false,nofun⟩)
    · refine .declared
        (List.forall_mem_map.mpr fun o _ => ⟨⟨fun _ => formed_result o.result,nofun⟩,?_⟩)
      exact hparameters o.parameters
    · exact .declared
        (List.forall_mem_map.mpr fun s _ => ⟨⟨nofun,fun _ => rfl⟩,hparameters s.parameters⟩)
  · refine .declared (List.forall_mem_map.mpr fun s _ => ⟨⟨nofun,fun _ => rfl⟩,?_⟩)
    exact .declared (List.forall_mem_map.mpr fun f _ => ⟨fun _ => formed_type f.type false,nofun⟩)
  · refine .declared
      (List.forall_mem_map.mpr fun e _ => ⟨⟨nofun,fun _ => rfl⟩,.declared fun d hd => ?_⟩)
    obtain ⟨i,hi,rfl⟩ := List.mem_mapIdx.mp hd
    exact ⟨nofun,fun _ => rfl⟩

/-- A walk that comes to its end leaves a module whose types are well formed. -/
theorem ofDocument_typed (d : Phrase.Document) (store : Data.Store)
    (hm : (Draft.ofDocument number d.tree store).2.module = some m)
    (hok : (Draft.ofDocument number d.tree store).1 = .ok ()) :
    m.Typed := by
  obtain ⟨m',hm',hlike⟩ :=
    ofDocument_describes (d := (Draft.ofDocument number d.tree store).2) (Prod.ext hok rfl)
  obtain rfl := Option.some.inj (hm.symm.trans hm')
  exact .of_like hlike (typed_describes d)

/-! ## Enumerations -/

/-- An enumeration is plain or a flag, and not both. -/
def Enum.Decided (_ : String) (x : Enum) : Prop := x.isEnum = !x.isFlag

/-- A walk beside itself, in which the kinds of enumerations are decided. -/
def Tandem.decided : Tandem where
  const := Eq
  kind k k' := k = k' ∧ k.1 = !k.2
  renumber := id
  store := Eq
  tags _ _ := Eq
  kind_enum := ⟨rfl,rfl⟩
  kind_flag := ⟨rfl,rfl⟩
  isFlag_eq h := congrArg Prod.snd h.1
  alloc := @same.alloc
  load := @same.load

/-- Whatever a walk leaves, its enumerations are decided. -/
theorem ofDocument_decided (t : Tree) (store : Data.Store)
    (hm : (Draft.ofDocument number t store).2.module = some m) : m.enums.All Enum.Decided := by
  have hlike :
      (Draft.ofDocument number t store).2.Like .decided (Draft.ofDocument number t store).2 :=
    (Corresponds.ofDocument (.refl (fun _ => rfl) [t]) rfl number).2
  have hmodule := hlike.module
  rw [hm] at hmodule
  cases hmodule with
  | some hmodule =>
    intro e he
    have hself := List.forall₂_same.mp hmodule.enums e he
    exact hself.2.kind.2

/-! ## All symbols -/

def Module.AllTypes (Q : TypeExpr → Prop) : Module → Prop := Module.Each fun _ c => Q c.type

/-- The module, its interfaces, structures and enumerations are given no type. -/
def Module.Untyped : Module → Prop := Module.Each fun p c => p.isPart = false → c.type = {}

variable {t : Phrase.TypeName}

theorem ofDocument_untyped (t : Tree) (store : Store)
    (hm : (Draft.ofDocument number t store).2.module = some m) : m.Untyped := by
  refine ofDocument_each (fun _ _ _ _ => rfl) (fun _ _ _ _ _ _ _ _ _ _ _ _ _ => rfl)
    (fun _ _ _ _ => id)
    (fun r us p c _ hp _ hp' => ?_) store hm
  rw [hp] at hp'
  cases hp'

/-! ## Written types -/

def primitiveNames : List String := ["bool","int","real","string","var"]

/-- What can be said of every layer of a type. -/
structure Layer.Written (l : Layer) (nested : Bool) : Prop where
  kinds : l.kinds.count true ≤ 1
  container : l.isContainer = nested
  name : l.isComplex = true → IsName l.name.toList
  primitive : l.isPrimitive = true → l.name ∈ primitiveNames
  void : l.isVoid = true → l.name = "void"

def TypeExpr.Written (t : TypeExpr) : Prop :=
  ∀ depth l, t.layer? depth = some l → l.Written (t.hasNested depth)

def TypeExpr.Unresolved (t : TypeExpr) : Prop :=
  ∀ depth l, t.layer? depth = some l → l.resolution = {}

/-- A type as it is read from a text. -/
structure TypeExpr.Fresh (t : TypeExpr) : Prop where
  written : t.Written
  unresolved : t.Unresolved

theorem TypeExpr.Fresh.single {l : Layer} (hl : l.Written false) (hresolution : l.resolution = {}) :
    ({ outer := l } : TypeExpr).Fresh := by
  constructor
  · intro depth l' hl'
    cases depth with
    | zero =>
      obtain rfl := Option.some.inj hl'
      exact hl
    | succ depth => cases hl'
  · intro depth l' hl'
    cases depth with
    | zero =>
      obtain rfl := Option.some.inj hl'
      exact hresolution
    | succ depth => cases hl'

theorem primitive_spelling {x : Token} (hk : x.kind ∈ Phrase.primitiveWords)
    (hx : x.kind.Spells x.text.toList) :
    x.text ∈ primitiveNames := by
  have hkinds : ∀ k ∈ Phrase.primitiveWords, ∃ name ∈ primitiveNames, k.spelling? = some name := by
    decide
  obtain ⟨name,hname,hspelling⟩ := hkinds _ hk
  simp only [Kind.Spells,hspelling] at hx
  rw [String.toList_inj.mp hx]
  exact hname

theorem spelt_layers (h : ∀ x ∈ t.tokens, x.kind.Spells x.text.toList) :
    ∀ l ∈ t.layers, (l.isComplex = true → IsName l.name.toList) ∧
    (l.isPrimitive = true → l.name ∈ primitiveNames) := by
  induction t with
  | primitive w =>
    intro l hl
    obtain rfl := List.mem_singleton.mp hl
    have hword := primitive_spelling w.property (h w.val (by simp [Phrase.TypeName.tokens]))
    exact ⟨fun hcomplex => absurd hcomplex Bool.false_ne_true,fun _ => hword⟩
  | complex w =>
    intro l hl
    obtain rfl := List.mem_singleton.mp hl
    have hspells := h w.val (by simp [Phrase.TypeName.tokens])
    rw [w.kind] at hspells
    exact ⟨fun _ => hspells,fun hprimitive => absurd hprimitive Bool.false_ne_true⟩
  | container c w o t cl ih =>
    intro l hl
    rcases List.mem_cons.mp hl with rfl | hl
    · cases c <;> exact ⟨(absurd · Bool.false_ne_true),(absurd · Bool.false_ne_true)⟩
    · exact ih (fun x hx => h x (by simp [Phrase.TypeName.tokens,hx])) l hl

theorem fresh_type (h : ∀ x ∈ t.tokens, x.kind.Spells x.text.toList) : t.describes.Fresh := by
  have hlayers : ∀ depth l, t.describes.layer? depth = some l → l ∈ t.layers := by
    intro depth l hl
    rw [← t.layers_describes]
    exact List.mem_of_getElem? hl
  constructor
  · intro depth l hl
    obtain ⟨hkinds,hcontainer,hvoid⟩ := formed_type t false depth l hl
    obtain ⟨hname,hprimitive⟩ := spelt_layers h l (hlayers depth l hl)
    exact ⟨hkinds.le,hcontainer,hname,hprimitive,fun h => by cases (hvoid h).2⟩
  · intro depth l hl
    exact t.fresh_layers l (hlayers depth l hl)

/-- The type at a node below a derived tree is one of the language, or none is given. -/
theorem typeOf_below {f : Form} {ts us : List Tree} {r : Rule} (h : Derives f ts)
    (hn : .node r us ∈ Tree.nodesOf ts) :
    Draft.typeOf (.node r us) = { outer := .void } ∨
      ∃ t : Phrase.TypeName, Draft.typeOf (.node r us) = t.describes ∧
        t.tokens ⊆ Tree.tokensOf ts := by
  obtain ⟨hderives,htokens⟩ := h.node_below hn
  cases hx : (Grammar.Tree.node r us).node? .type with
  | none => exact .inl (by simp [Draft.typeOf,hx])
  | some x =>
    obtain ⟨hmem,hisA⟩ := List.mem_filter.mp (List.mem_of_head? (Tree.node?_node r us .type ▸ hx))
    cases x with
    | leaf _ => cases hisA
    | node q vs =>
      obtain rfl : q = .type := by simpa [Tree.isA] using hisA
      have hbelow : .node .type vs ∈ Tree.nodesOf us :=
        Tree.mem_nodesOf.mpr ⟨_,hmem,by simp [Tree.nodes]⟩
      obtain ⟨hvs,htokens'⟩ := hderives.node_below hbelow
      obtain ⟨t,rfl⟩ := Phrase.TypeName.exists_inside _ vs (Nat.le_refl _) hvs
      refine .inr ⟨t,?_,fun y hy => htokens (htokens' (by simpa using hy))⟩
      have hlayers := Drafting.layers_type _ t (Nat.le_refl _)
      simp [Draft.typeOf,hx,Phrase.TypeName.describes,← hlayers,Phrase.TypeName.tree]

/-- Whatever a walk through a parsed text leaves, its types are as they are read. -/
theorem ofDocument_fresh {text : List Char} {t : Tree} {c : Cursor}
    (h : parse .document (Source.ofText text) = .parsed t c) (store : Store)
    (hm : (Draft.ofDocument number t store).2.module = some m) : m.AllTypes TypeExpr.Fresh := by
  have hnone : TypeExpr.Fresh {} := .single ⟨by decide,rfl,nofun,nofun,nofun⟩ rfl
  refine ofDocument_each (fun _ _ _ => hnone) (fun _ _ _ _ _ _ _ _ _ _ _ _ => hnone)
    (fun _ _ _ _ => id)
    (fun r us p c hn _ _ => ?_) store hm
  change (Draft.typeOf (.node r us)).Fresh
  rcases typeOf_below (parse_reads h).derives
    (by simpa [Tree.nodesOf] using hn : .node r us ∈ Tree.nodesOf [t])
    with hvoid | ⟨type,htype,htokens⟩
  · rw [hvoid]
    exact .single ⟨by decide,rfl,nofun,nofun,fun _ => rfl⟩ rfl
  · rw [htype]
    exact fresh_type fun x hx => Source.spells_of_parsed h x (by simpa using htokens hx)

end InterfaceKit.Model
