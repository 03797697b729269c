import InterfaceKit.Proofs.Model.Frames

/-!
# What types mean

Generated code tells types apart by what is written of their outermost layer and, if they are
complex, by the kind of the symbol that they refer to. Of a list it matters too what stands inside.
All this stays as it is when other types are resolved.
-/
namespace InterfaceKit.Model

/-- What a type is to generated code. -/
inductive Meaning where
  | nothing
  | void
  | primitive (name : String)
  | list
  | map
  | model
  | enumeration (plain : Bool) (members : List String)
  | struct
  | interface
  /-- A complex type that refers to a module or to the system, or to nothing. -/
  | elsewhere
  deriving DecidableEq, Repr

namespace Meaning

/-- The meaning of a layer, given that of what it refers to. -/
def ofLayer (l : Layer) (referent : Meaning) : Meaning :=
  if l.isComplex then referent
  else if l.isVoid then .void
  else if l.isPrimitive then .primitive l.name
  else if l.isList then .list
  else if l.isMap then .map
  else if l.isModel then .model
  else .nothing

def kinds : Meaning → List Bool
  | nothing => [false,false,false,false,false,false]
  | void => [true,false,false,false,false,false]
  | primitive _ => [false,true,false,false,false,false]
  | enumeration _ _ | struct | interface | elsewhere => [false,false,true,false,false,false]
  | list => [false,false,false,true,false,false]
  | map => [false,false,false,false,true,false]
  | model => [false,false,false,false,false,true]

theorem kinds_ofLayer {l : Layer} (h : l.kinds.count true ≤ 1) {referent : Meaning}
    (hreferent : referent.kinds = [false,false,true,false,false,false]) :
    (ofLayer l referent).kinds = l.kinds := by
  have hall : ∀ v p c l m o : Bool, [v,p,c,l,m,o].count true ≤ 1 →
      (if c then [false,false,true,false,false,false]
        else if v then void.kinds
        else if p then [false,true,false,false,false,false]
        else if l then list.kinds
        else if m then map.kinds
        else if o then model.kinds
        else nothing.kinds) = [v,p,c,l,m,o] := by decide
  rw [ofLayer,apply_ite kinds,apply_ite kinds,apply_ite kinds,apply_ite kinds,apply_ite kinds,
    apply_ite kinds,hreferent]
  exact hall _ _ _ _ _ _ h

end Meaning

/-- What is to be known of a type before it is written in code: its name as it is spelt, what it
means, and what that means which its lists stand around. -/
structure TypeFacts where
  spelling : String
  meaning : Meaning
  element : Meaning
  deriving DecidableEq, Repr

def Entity.isType : Entity → Bool
  | .symbol ⟨_,.enum _⟩ | .symbol ⟨_,.struct _⟩ | .symbol ⟨_,.interface _⟩ => true
  | _ => false

namespace System
variable {s s' : System} {t : TypeHandle} {h : Handle} {l : Layer}

/-- What a type refers to when it is asked; nothing if it cannot tell. -/
def referent? (s : System) (t : TypeHandle) : Option Entity := (s.reference t).1.toOption.join

/-- Everything that the type of a symbol names is known. -/
def Resolved (s : System) (h : Handle) : Prop :=
  ∀ depth l, s.layer? ⟨h,depth⟩ = some l → l.isComplex = true → (s.referent? ⟨h,depth⟩).isSome = true

instance (s : System) (h : Handle) : Decidable (s.Resolved h) :=
  decidable_of_iff (∀ depth < ((s.common? h).map (·.type.layers.length)).getD 0,
    (s.layer? ⟨h,depth⟩).all
      (fun l => !l.isComplex || (s.referent? ⟨h,depth⟩).isSome) = true) <| by
    constructor
    · intro hall depth l hl hc
      obtain ⟨c,hc',hlayer⟩ := Option.bind_eq_some_iff.mp hl
      have hdepth : depth < ((s.common? h).map (·.type.layers.length)).getD 0 := by
        rw [show s.common? h = some c from hc']
        exact (List.getElem?_eq_some_iff.mp hlayer).1
      simpa [hl,hc] using hall depth hdepth
    · intro hall depth _
      cases hl : s.layer? ⟨h,depth⟩ with
      | none => rfl
      | some l =>
        cases hc : l.isComplex with
        | false => simp [hc]
        | true => simp [hall depth l hl hc]

def referentMeaning (s : System) (t : TypeHandle) : Meaning :=
  match s.referent? t with
  | some (.symbol ⟨id,.enum e⟩) =>
    (s.enumeration? id e).elim .elsewhere fun x => .enumeration x.1 x.2
  | some (.symbol ⟨_,.struct _⟩) => .struct
  | some (.symbol ⟨_,.interface _⟩) => .interface
  | _ => .elsewhere

def meaning (s : System) (t : TypeHandle) : Meaning :=
  (s.layer? t).elim .nothing fun l => .ofLayer l (s.referentMeaning t)

theorem kinds_referentMeaning (s : System) (t : TypeHandle) :
    (s.referentMeaning t).kinds = [false,false,true,false,false,false] := by
  unfold referentMeaning
  split
  · next id e _ => cases s.enumeration? id e <;> rfl
  · rfl
  · rfl
  · rfl

/-- The outermost layer of a type is of the kind that the type means. -/
theorem Sound.kinds_meaning (hs : s.Sound) (t : TypeHandle) :
    ((s.layer? t).getD {}).kinds = (s.meaning t).kinds := by
  rw [meaning]
  cases hl : s.layer? t with
  | none => rfl
  | some l => exact (Meaning.kinds_ofLayer (hs.layer hl).kinds (s.kinds_referentMeaning t)).symm

/-- The kinds one by one. -/
theorem Sound.flags (hs : s.Sound) {void primitive complex list map model : Bool}
    (h : (s.meaning t).kinds = [void,primitive,complex,list,map,model]) :
    let l := (s.layer? t).getD {}
    l.isVoid = void ∧ l.isPrimitive = primitive ∧ l.isComplex = complex ∧ l.isList = list ∧
      l.isMap = map ∧
      l.isModel = model := by
  have hkinds := (hs.kinds_meaning t).trans h
  simpa only [Layer.kinds,List.cons.injEq,and_true] using hkinds

def facts (s : System) (t : TypeHandle) : TypeFacts where
  spelling := ((s.layer? t).getD {}).name
  meaning := s.meaning t
  element := s.meaning (s.element t)

theorem Sound.not_dangles_of_referent (hs : s.Sound) (h : (s.referent? t).isSome = true) :
    ¬ s.Dangles t := by
  intro hdangles
  obtain ⟨failure,he⟩ := (hs.dangles_iff t).mp hdangles
  have hnone : s.referent? t = none := by rw [referent?,he]; rfl
  rw [hnone] at h
  cases h

theorem Sound.not_dangles_of_resolved (hs : s.Sound) (h : s.Resolved t.owner) : ¬ s.Dangles t := by
  intro hdangles
  have ⟨l,_,hl,hc,_⟩ := hdangles
  exact hs.not_dangles_of_referent (h t.depth l hl hc) hdangles

theorem Sound.not_dangles_of_element (hs : s.Sound) (hnot : ¬ s.Dangles (s.element t)) :
    ¬ s.Dangles t := by
  rcases element_cases (t := t) rfl with heq | ⟨l,hl,hlist,-⟩
  · rwa [heq]
  · rintro ⟨l',_,hl',hc,-⟩
    obtain rfl := Option.some.inj (hl.symm.trans hl')
    rw [(Layer.list_only (hs.layer hl).kinds hlist).2.2] at hc
    cases hc

namespace Agree

theorem bareLayer (h : Agree t s s') :
    (s'.layer? t).map Layer.bare = (s.layer? t).map Layer.bare := by
  rw [map_bare_layer?,map_bare_layer?,h.wording]

theorem element (h : Agree t s s') (u : TypeHandle) : s'.element u = s.element u := by
  rw [System.element,System.element,h.wording]

theorem referent? (h : Agree t s s') : s'.referent? t = s.referent? t := by
  rw [System.referent?,System.referent?,h.answer]

theorem meaning (h : Agree t s s') : s'.meaning t = s.meaning t := by
  have hreferent : s'.referentMeaning t = s.referentMeaning t := by
    unfold referentMeaning
    rw [h.referent?]
    simp only [h.enumeration]
  have hbare : ∀ s : System, s.meaning t =
      ((s.layer? t).map Layer.bare).elim .nothing fun l => .ofLayer l (s.referentMeaning t) := by
    intro s
    rw [System.meaning]
    cases s.layer? t <;> rfl
  rw [hbare,hbare,h.bareLayer,hreferent]

theorem spelling (h : Agree t s s') :
    ((s'.layer? t).getD {}).name = ((s.layer? t).getD {}).name := by
  have hbare : ∀ o : Option Layer, (o.getD {}).name = ((o.map Layer.bare).getD {}).name := by
    intro o
    cases o <;> rfl
  rw [hbare,h.bareLayer,← hbare]

end Agree

theorem Sound.facts_resolves (hs : s.Sound) (hnot : ¬ s.Dangles (s.element t)) (h : s.Resolves s') :
    s'.facts t = s.facts t := by
  have hagree := hs.agree (hs.not_dangles_of_element hnot) h
  have hinner := hs.agree hnot h
  rw [facts,facts,hagree.element,hagree.spelling,hagree.meaning,hinner.meaning]

/-! ## Symbols that types refer to -/

/-- What a type refers to has the name of the type. -/
theorem Sound.names_referent (hs : s.Sound) (hh : s.referent? t = some (.symbol h)) :
    ∃ m l, s.module? t.owner.module = some m ∧ s.layer? t = some l ∧ s.Names m l.name h := by
  rw [referent?,hs.reference_eq] at hh
  cases hl : s.layer? t with
  | none =>
    rw [hl] at hh
    cases hh
  | some l =>
    obtain ⟨m,-,hm,-⟩ := exists_common_of_layer? hl
    refine ⟨m,l,hm,rfl,?_⟩
    rw [hl,Option.elim_some] at hh
    split at hh
    · next hc =>
        rw [Bool.and_eq_true] at hc
        cases hlookup : s.lookupFrom t.owner.module l.name none with
        | error failure =>
          rw [hlookup] at hh
          cases hh
        | ok e =>
          rw [hlookup] at hh
          obtain rfl : e = .symbol h := Option.some.inj hh
          exact hs.named.lookupFrom_names hm (hs.complex hl hc.1).2 hlookup
    · exact hs.target hm hl hh

/-- A type that refers to a symbol in a module is spelt like the symbol, as far as the name is
qualified. -/
theorem Sound.qualify_referent (hs : s.Sound) (hh : s.referent? t = some (.symbol h))
    (hplace : h.place ≠ .module) :
    ∃ m l m' c, s.module? t.owner.module = some m ∧ s.layer? t = some l ∧
      s.module? h.module = some m' ∧
      m'.common? h.place = some c ∧ m'.content? .module c.name = some h.place ∧
      m'.qualify c.name = m.qualify l.name := by
  obtain ⟨m,l,hm,hl,hnames⟩ := hs.names_referent hh
  obtain ⟨m',name,hm',hcontent,hqualify⟩ := hnames.resolve_left hplace
  obtain ⟨c,hc,rfl⟩ := (hs.named.module hm').exists_common hcontent
  exact ⟨m,l,m',c,hm,hl,hm',hc,hcontent,hqualify⟩

theorem Sound.exists_enumeration (hs : s.Sound) {id : Nat} {e : String}
    (hh : s.referent? t = some (.symbol ⟨id,.enum e⟩)) : ∃ x, s.enumeration? id e = some x := by
  obtain ⟨-,-,m,c,-,-,hm,-,hcontent,-⟩ := hs.qualify_referent hh nofun
  rcases Module.content?_module hcontent with ⟨hplace,-⟩ | ⟨hplace,-⟩ | ⟨hplace,hsome⟩
  · cases hplace
  · cases hplace
  · obtain rfl := Place.enum.inj hplace
    obtain ⟨x,hx⟩ := Option.isSome_iff_exists.mp hsome
    exact ⟨_,by rw [enumeration?,hm,Option.bind_some,Module.enumeration?,hx,Option.map_some]⟩

theorem meaning_of_complex (hl : s.layer? t = some l) (hc : l.isComplex = true) :
    s.meaning t = s.referentMeaning t := by
  rw [meaning,hl,Option.elim_some,Meaning.ofLayer,if_pos hc]

/-- The complex types that no value comes first in: those of enumerations without members, and those
that refer to something else than a type. -/
theorem Sound.meaning_barren_iff (hs : s.Sound) (hl : s.layer? t = some l)
    (hsome : l.isComplex = true → (s.referent? t).isSome = true) :
    (s.meaning t = .elsewhere ∨ ∃ plain, s.meaning t = .enumeration plain []) ↔
      l.isComplex = true ∧ ∃ e, s.referent? t = some e ∧ (e.isType = false ∨
        ∃ id k plain, e = .symbol ⟨id,.enum k⟩ ∧ s.enumeration? id k = some (plain, [])) := by
  cases hc : l.isComplex with
  | false =>
    have hkinds := hs.kinds_meaning t
    rw [hl,Option.getD_some] at hkinds
    refine ⟨fun hm => ?_,fun h => nomatch h.1⟩
    rcases hm with hm | ⟨plain,hm⟩ <;> simp [hm,Layer.kinds,Meaning.kinds,hc] at hkinds
  | true =>
    obtain ⟨e,he⟩ := Option.isSome_iff_exists.mp (hsome hc)
    rw [meaning_of_complex hl hc,referentMeaning,he]
    simp only [true_and,Option.some.injEq,exists_eq_left']
    rcases e with _ | ⟨id,p⟩
    · simp [Entity.isType]
    · cases p with
      | enum k =>
        obtain ⟨⟨plain,members⟩,hx⟩ := hs.exists_enumeration he
        cases plain <;> simp [Entity.isType,hx]
      | _ => simp [Entity.isType]

end System

end InterfaceKit.Model
