import InterfaceKit.Proofs.Data.Mirror
import InterfaceKit.Proofs.Model.Likeness

/-!
# Looking up names in two systems

Modules that are alike hold the same names at the same places. So where two systems have such
modules under the same names, what is looked up in the one has its counterpart in the other,
whatever the order in which the modules came and whatever else was there before. Where they have
taken in the same modules in the same order, with tags that match, a name leads to the same symbol,
and the tags of the two symbols match.
-/
namespace InterfaceKit.Model
open Data

/-! ## Contents -/

namespace Module.Like
variable {L : Likeness} {m m' : Module}

theorem contentTables (h : m.Like L m') (p : Place) : m.contentTables p = m'.contentTables p := by
  have hplaces : ∀ {α : Type} {A : α → α → Prop} {t t' : Table α}, t.Like A t' →
      ∀ f, placesIn t f = placesIn t' f :=
    fun ht f => by rw [placesIn,placesIn,ht.names]
  unfold Module.contentTables
  cases p with
  | module => simp only [hplaces h.interfaces,hplaces h.structs,hplaces h.enums]
  | interface i =>
    rcases rel_cases (h.interfaces.get? i) with ⟨hx,hx'⟩ | ⟨x,x',hx,hx',hlike⟩
    · simp only [hx,hx']
    · simp only [hx,hx',hplaces hlike.properties,hplaces hlike.operations,hplaces hlike.signals]
  | struct s =>
    rcases rel_cases (h.structs.get? s) with ⟨hx,hx'⟩ | ⟨x,x',hx,hx',hlike⟩
    · simp only [hx,hx']
    · simp only [hx,hx',hplaces hlike.fields]
  | enum e =>
    rcases rel_cases (h.enums.get? e) with ⟨hx,hx'⟩ | ⟨x,x',hx,hx',hlike⟩
    · simp only [hx,hx']
    · simp only [hx,hx',hplaces hlike.members]
  | operation i o =>
    rcases rel_cases (h.interfaces.get? i) with ⟨hx,hx'⟩ | ⟨x,x',hx,hx',hlike⟩
    · simp only [hx,hx',Option.bind_none]
    · rcases rel_cases (hlike.operations.get? o) with ⟨hy,hy'⟩ | ⟨y,y',hy,hy',hlike'⟩
      · simp only [hx,hx',Option.bind_some,hy,hy']
      · simp only [hx,hx',Option.bind_some,hy,hy',hplaces hlike'.parameters]
  | signal i g =>
    rcases rel_cases (h.interfaces.get? i) with ⟨hx,hx'⟩ | ⟨x,x',hx,hx',hlike⟩
    · simp only [hx,hx',Option.bind_none]
    · rcases rel_cases (hlike.signals.get? g) with ⟨hy,hy'⟩ | ⟨y,y',hy,hy',hlike'⟩
      · simp only [hx,hx',Option.bind_some,hy,hy']
      · simp only [hx,hx',Option.bind_some,hy,hy',hplaces hlike'.parameters]
  | _ => rfl

theorem content? (h : m.Like L m') (p : Place) (name : String) :
    m.content? p name = m'.content? p name := by
  rw [Module.content?,Module.content?,h.contentTables p]

end Module.Like

/-! ## Systems -/

namespace System

/-- Each name stands for a module in both systems or in neither, and in the two modules the same
names lead to the same places. -/
def Alike (s s' : System) : Prop :=
  ∀ name, Option.Rel
    (fun id id' => ∃ m m', s.module? id = some m ∧ s'.module? id' = some m' ∧
      ∀ p x, m.content? p x = m'.content? p x)
    (s.moduleNamed? name) (s'.moduleNamed? name)

/-- What stands at the same place in the modules of one name. -/
inductive Counterpart (s s' : System) : Entity → Entity → Prop
  | system : Counterpart s s' .system .system
  | symbol {name : String} {id id' : Nat} (p : Place) :
      s.moduleNamed? name = some id → s'.moduleNamed? name = some id' →
      Counterpart s s' (.symbol ⟨id,p⟩) (.symbol ⟨id',p⟩)

/-- The same failure, or counterparts. -/
def SameAnswer (s s' : System) : Except Failure Entity → Except Failure Entity → Prop
  | .ok e, .ok e' => s.Counterpart s' e e'
  | .error f, .error f' => f = f'
  | _, _ => False

namespace Alike
variable {s s' : System}

theorem lookupPlain (h : s.Alike s') (name : String) :
    s.SameAnswer s' (s.lookupPlain name) (s'.lookupPlain name) := by
  unfold System.lookupPlain
  rcases rel_cases (h name) with ⟨hid,hid'⟩ | ⟨id,id',hid,hid',-⟩
  · rw [hid,hid']
    dsimp only
    split
    · exact .system
    · exact rfl
  · rw [hid,hid']
    exact .symbol .module hid hid'

variable {name : String} {id id' : Nat}

theorem localSymbol? (h : s.Alike s') (hid : s.moduleNamed? name = some id)
    (hid' : s'.moduleNamed? name = some id') (x : String) (fragment : Option String) :
    Option.Rel (s.SameAnswer s') (s.localSymbol? id x fragment)
      (s'.localSymbol? id' x fragment) := by
  have hname := h name
  rw [hid,hid'] at hname
  cases hname with
  | some hm =>
    obtain ⟨m,m',hm,hm',hcontent⟩ := hm
    simp only [System.localSymbol?,hm,hm',hcontent]
    split
    · exact .none
    · exact .some (.symbol _ hid hid')
    · split
      · exact .some (.symbol _ hid hid')
      · exact .some rfl

theorem lookup (h : s.Alike s') (name : String) :
    s.SameAnswer s' (s.lookup name) (s'.lookup name) := by
  have hplain := h.lookupPlain name
  unfold System.lookup
  revert hplain
  cases s.lookupPlain name with
  | ok e =>
    cases s'.lookupPlain name with
    | ok e' => exact id
    | error f' => exact False.elim
  | error f =>
    cases s'.lookupPlain name with
    | ok e' => exact False.elim
    | error f' =>
      rintro rfl
      dsimp only
      cases (splitName name).module with
      | none => exact rfl
      | some owner =>
        rw [Option.bind_some,Option.bind_some]
        rcases rel_cases (h owner) with ⟨hid,hid'⟩ | ⟨id,id',hid,hid',-⟩
        · rw [hid,hid']
          exact rfl
        · rw [hid,hid']
          dsimp only
          have hlocal := h.localSymbol? hid hid' (splitName name).type (splitName name).fragment
          rcases rel_cases hlocal with ⟨hx,hx'⟩ | ⟨x,x',hx,hx',hfound⟩
          · rw [hx,hx']
            exact h.lookupPlain _
          · rw [hx,hx']
            exact hfound

theorem lookupFrom (h : s.Alike s') (hid : s.moduleNamed? name = some id)
    (hid' : s'.moduleNamed? name = some id') (x : String) (fragment : Option String) :
    s.SameAnswer s' (s.lookupFrom id x fragment) (s'.lookupFrom id' x fragment) := by
  unfold System.lookupFrom
  rcases rel_cases (h.localSymbol? hid hid' x fragment) with ⟨hx,hx'⟩ | ⟨y,y',hx,hx',hfound⟩
  · rw [hx,hx']
    exact h.lookup x
  · rw [hx,hx']
    exact hfound

end Alike

end System

/-! ## The same symbols with other tags -/

/-- Symbols are the same and their tags match. -/
def Likeness.matching (R : Nat → Nat → Prop) : Likeness := ⟨Value.Match R,Eq,Eq,Eq⟩

/-- Systems that are the same but for the places of the cells that hold their tags. -/
structure System.Mirrors (R : Nat → Nat → Prop) (x x' : System) : Prop where
  tags : x.tags.Match R x'.tags
  archive : List.Forall₂ (Module.Like (.matching R)) x.archive x'.archive
  directory : x.directory = x'.directory

section
variable {R : Nat → Nat → Prop} {L : Likeness} {m m' : Module} {x x' : System}

theorem Module.Like.common? (h : m.Like L m') (p : Place) :
    Option.Rel (Common.Like L) (m.common? p) (m'.common? p) := by
  have hmap : ∀ {α : Type} {A : α → α → Prop} {o o' : Option α} (f : α → Common), Option.Rel A o o' →
      (∀ a a', A a a' → (f a).Like L (f a')) → Option.Rel (Common.Like L) (o.map f) (o'.map f) := by
    intro α A o o' f ho hf
    cases ho with
    | none => exact .none
    | some ha => exact .some (hf _ _ ha)
  have hbind : ∀ {α : Type} {A : α → α → Prop} {o o' : Option α} {f f' : α → Option Common},
    Option.Rel A o o' →
      (∀ a a', A a a' → Option.Rel (Common.Like L) (f a) (f' a')) →
      Option.Rel (Common.Like L) (o.bind f) (o'.bind f') := by
    intro α A o o' f f' ho hf
    cases ho with
    | none => exact .none
    | some ha => exact hf _ _ ha
  cases p with
  | module => exact .some h.common
  | interface i => exact hmap _ (h.interfaces.get? i) fun _ _ hx => hx.common
  | struct s => exact hmap _ (h.structs.get? s) fun _ _ hx => hx.common
  | enum e => exact hmap _ (h.enums.get? e) fun _ _ hx => hx.common
  | property i p =>
    exact hbind (h.interfaces.get? i) fun _ _ hx => hmap _ (hx.properties.get? p) fun _ _ hy =>
      hy.common
  | operation i o =>
    exact hbind (h.interfaces.get? i) fun _ _ hx => hmap _ (hx.operations.get? o) fun _ _ hy =>
      hy.common
  | signal i s =>
    exact hbind (h.interfaces.get? i) fun _ _ hx => hmap _ (hx.signals.get? s) fun _ _ hy =>
      hy.common
  | operationParameter i o p =>
    exact hbind (h.interfaces.get? i) fun _ _ hx => hbind (hx.operations.get? o) fun _ _ hy =>
      hmap _ (hy.parameters.get? p) fun _ _ hz => hz
  | signalParameter i s p =>
    exact hbind (h.interfaces.get? i) fun _ _ hx => hbind (hx.signals.get? s) fun _ _ hy =>
      hmap _ (hy.parameters.get? p) fun _ _ hz => hz
  | field s f =>
    exact hbind (h.structs.get? s) fun _ _ hx => hmap _ (hx.fields.get? f) fun _ _ hy => hy.common
  | member e n =>
    exact hbind (h.enums.get? e) fun _ _ hx => hmap _ (hx.members.get? n) fun _ _ hy => hy.common

theorem Module.Like.copy {R' : Nat → Nat → Prop} {f : Value → Value}
    (hf : ∀ v v', v.Match R v' → (f v).Match R' v') (h : m.Like (.matching R) m') :
    (m.mapCommon fun c => { c with tags := f c.tags }).Like (.matching R') m' :=
  h.mapCommon (fun hc => { hc with tags := hf _ _ hc.tags }) id id

namespace System.Mirrors

theorem mono {R' : Nat → Nat → Prop} (hR : ∀ i j, R i j → R' i j) (h : x.Mirrors R x') :
    x.Mirrors R' x' := by
  have htags : ∀ v v', (Likeness.matching R).tags v v' → (Likeness.matching R').tags v v' :=
    fun _ _ hv => Value.Match.mono hR hv
  exact ⟨h.tags.mono hR,h.archive.imp fun _ _ hm => hm.imp htags id id id,h.directory⟩

variable (h : x.Mirrors R x')
include h

theorem module? (id : Nat) : Option.Rel (Module.Like (.matching R)) (x.module? id) (x'.module? id) :=
  getElem?_forall₂ h.archive id

theorem moduleNamed? (name : String) : x.moduleNamed? name = x'.moduleNamed? name := by
  rw [System.moduleNamed?,System.moduleNamed?,h.directory]

theorem lookupPlain (name : String) : x.lookupPlain name = x'.lookupPlain name := by
  rw [System.lookupPlain,System.lookupPlain,h.moduleNamed?]

theorem localSymbol? (id : Nat) (name : String) (fragment : Option String) :
    x.localSymbol? id name fragment = x'.localSymbol? id name fragment := by
  rcases rel_cases (h.module? id) with ⟨hm,hm'⟩ | ⟨m,m',hm,hm',hlike⟩
  · simp only [System.localSymbol?,hm,hm']
  · simp only [System.localSymbol?,hm,hm',hlike.content?]

theorem lookup (name : String) : x.lookup name = x'.lookup name := by
  have hmodule : x.moduleNamed? = x'.moduleNamed? := funext h.moduleNamed?
  simp only [System.lookup,h.lookupPlain,hmodule,h.localSymbol?]

theorem tagsOf (e : Entity) : (x.tagsOf e).Match R (x'.tagsOf e) := by
  cases e with
  | system => exact h.tags
  | symbol handle =>
    dsimp only [System.tagsOf,System.common?]
    rcases rel_cases (h.module? handle.module) with ⟨hm,hm'⟩ | ⟨m,m',hm,hm',hlike⟩
    · rw [hm,hm']
      exact .plain nofun
    · rw [hm,hm',Option.bind_some,Option.bind_some]
      rcases rel_cases (hlike.common? handle.place) with ⟨hc,hc'⟩ | ⟨c,c',hc,hc',hcommon⟩
      · rw [hc,hc']
        exact .plain nofun
      · rw [hc,hc']
        exact hcommon.tags

theorem copy (n : Nat) : (x.mapTags (Store.moved n)).Mirrors (Copied n R) x' where
  tags := h.tags.copy n
  archive :=
    List.forall₂_map_left_iff.mpr (h.archive.imp fun _ _ hm => hm.copy fun _ _ hv => hv.copy n)
  directory := h.directory

theorem register (hm : m.Like (.matching R) m') : (x.register m).2.Mirrors R (x'.register m').2 where
  tags := h.tags
  archive := List.rel_append h.archive (.cons hm .nil)
  directory := by
    have hname : m.name = m'.name := hm.common.name
    simp only [System.register,h.directory,hname,h.archive.length_eq]

end System.Mirrors
end

end InterfaceKit.Model
