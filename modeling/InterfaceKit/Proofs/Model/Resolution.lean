import InterfaceKit.Generator.Rules
import InterfaceKit.Proofs.Model.Lookup
import InterfaceKit.Proofs.Model.Types

/-!
# Resolving types

What asking a type for its reference does, case by case. The attempt is noted first, so a type is
resolved once and gives the same answer from then on. Where the name of a complex type cannot be
looked up the first attempt fails, and only that one does: the type dangles until it has been asked.

The outline of a system, the names of its modules and of the symbols in them, stays as it is. It is
all that the visits of a walk depend on.
-/
namespace InterfaceKit.Model
open Data Lexical

/-! ## Outlines -/

theorem Table.names_modify {α : Type} (t : Table α) (n : String) (f : α → α) :
    (t.modify n f).names = t.names := by
  induction t with
  | nil => rfl
  | cons e t ih =>
    obtain ⟨m,a⟩ := e
    unfold names at ih ⊢
    rw [modify]
    split
    · rfl
    · rw [List.map_cons,List.map_cons,ih]

/-- The names of the interfaces, the structures and the enumerations of a module. -/
def Module.outline (m : Module) : List String × List String × List String :=
  (m.interfaces.names, m.structs.names, m.enums.names)

theorem Module.outline_modifyCommon (m : Module) (p : Place) (f : Common → Common) :
    (m.modifyCommon p f).outline = m.outline := by
  cases p with
  | module => rfl
  | interface _ | property _ _ | operation _ _ | signal _ _ | operationParameter _ _ _
  | signalParameter _ _ _ =>
    simp [outline,modifyCommon,modifyProperty,modifyOperation,modifySignal,modifyInterface,
      Table.names_modify]
  | struct _ | field _ _ => simp [outline,modifyCommon,modifyField,modifyStruct,Table.names_modify]
  | enum _ | member _ _ => simp [outline,modifyCommon,modifyMember,modifyEnum,Table.names_modify]

namespace System
variable (s : System)

/-- The modules of a system by name, and the outline of each module that was ever read. -/
def outline : Table Nat × List (List String × List String × List String) :=
  (s.directory, s.archive.map Module.outline)

theorem outline_modifyLayer (t : TypeHandle) (f : Layer → Layer) :
    (s.modifyLayer t f).outline = s.outline := by
  have hmodules : ∀ (ms : List Module) (id : Nat) (g : Module → Module),
    (∀ m, (g m).outline = m.outline) →
      (ms.modify id g).map Module.outline = ms.map Module.outline := by
    intro ms id g hg
    apply List.ext_getElem?
    intro i
    rw [List.getElem?_map,List.getElem?_map,List.getElem?_modify]
    rcases ms[i]? with _ | m
    · rfl
    · by_cases hi : id = i
      · simp [hi,hg]
      · simp [hi]
  exact Prod.ext rfl (hmodules _ _ _ fun m => m.outline_modifyCommon _ _)

theorem outline_resolve (t : TypeHandle) : (s.resolve t).2.outline = s.outline := by
  unfold resolve
  dsimp only
  split
  · exact s.outline_modifyLayer _ _
  · split
    · split
      · rw [outline_modifyLayer,outline_modifyLayer]
      · exact s.outline_modifyLayer _ _
    · exact s.outline_modifyLayer _ _

theorem outline_reference (t : TypeHandle) : (s.reference t).2.outline = s.outline := by
  have hresolve := s.outline_resolve t
  unfold reference
  dsimp only
  split
  · rfl
  · split
    · rfl
    · split <;>
      · rename_i heq
        rw [heq] at hresolve
        exact hresolve

variable {s} {s' : System}

theorem Resolves.outline_eq (h : s.Resolves s') : s'.outline = s.outline := by
  induction h with
  | refl => rfl
  | step _ t ih => rw [outline_reference,ih]

theorem module?_cases (h : s'.outline = s.outline) (id : Nat) :
    s'.module? id = none ∧ s.module? id = none ∨
    ∃ m' m, s'.module? id = some m' ∧ s.module? id = some m ∧ m'.outline = m.outline := by
  have hmodule : (s'.module? id).map Module.outline = (s.module? id).map Module.outline := by
    rw [module?,module?,← List.getElem?_map,← List.getElem?_map,(Prod.mk.inj h).2]
  revert hmodule
  rcases s'.module? id with _ | m' <;> rcases s.module? id with _ | m
  · exact fun _ => .inl ⟨rfl,rfl⟩
  · exact nofun
  · exact nofun
  · exact fun hmodule => .inr ⟨m',m,rfl,rfl,Option.some.inj hmodule⟩

end System

/-! ## Layers -/

def Layer.note (l : Layer) (g : Resolution → Resolution) : Layer :=
  { l with resolution := g l.resolution }

theorem TypeExpr.layers_ofLayers {ls : List Layer} (h : ls ≠ []) :
    (TypeExpr.ofLayers ls).layers = ls := by
  cases ls with
  | nil => exact absurd rfl h
  | cons l ls => rfl

theorem TypeExpr.layers_modify (t : TypeExpr) (depth : Nat) (f : Layer → Layer) :
    (t.modify depth f).layers = t.layers.modify depth f := by
  apply TypeExpr.layers_ofLayers
  intro h
  have hlength := congrArg List.length h
  simp [TypeExpr.layers] at hlength

theorem TypeExpr.layer?_modify (t : TypeExpr) (depth k : Nat) (f : Layer → Layer) :
    (t.modify depth f).layer? k = if depth = k then (t.layer? k).map f else t.layer? k := by
  rw [TypeExpr.layer?,TypeExpr.layers_modify,List.getElem?_modify,TypeExpr.layer?]
  split
  · rfl
  · exact Option.map_id'

theorem Module.common?_modifyCommon (m : Module) (p : Place) (f : Common → Common) :
    (m.modifyCommon p f).common? p = (m.common? p).map f := by
  cases p <;>
    simp [modifyCommon,modifyInterface,modifyOperation,modifySignal,modifyProperty,modifyStruct,
      modifyField,modifyEnum,modifyMember,common?,Table.get?_modify,Option.bind_map,Option.map_bind,
        Function.comp_def]

theorem Module.content?_congr {m m' : Module} (h : m'.outline = m.outline) (n : String) :
    m'.content? .module n = m.content? .module n := by
  obtain ⟨hinterfaces,hrest⟩ := Prod.mk.inj h
  obtain ⟨hstructs,henums⟩ := Prod.mk.inj hrest
  simp only [content?,contentTables,placesIn,hinterfaces,hstructs,henums]

namespace System
variable {s : System} {t : TypeHandle} {l : Layer} {e : Entity} {failure : Failure}

theorem common?_modifyCommon (s : System) (h : Handle) (f : Common → Common) :
    (s.modifyCommon h f).common? h = (s.common? h).map f := by
  rw [common?,modifyCommon,modifyModule,module?,List.getElem?_modify_eq,common?,module?]
  cases s.archive[h.module]? with
  | none => rfl
  | some m => exact m.common?_modifyCommon h.place f

theorem layer?_modifyLayer (s : System) (t : TypeHandle) (depth : Nat) (f : Layer → Layer) :
    (s.modifyLayer t f).layer? { t with depth } =
      if t.depth = depth then (s.layer? { t with depth }).map f else s.layer? { t with depth } := by
  simp only [layer?,modifyLayer,common?_modifyCommon]
  cases s.common? t.owner with
  | none => simp
  | some c => exact c.type.layer?_modify t.depth depth f

theorem layer?_modifyLayer_self (hl : s.layer? t = some l) (f : Layer → Layer) :
    (s.modifyLayer t f).layer? t = some (f l) := by
  have h := s.layer?_modifyLayer t t.depth f
  rwa [if_pos rfl,hl] at h

theorem nested?_modifyLayer (s : System) (t : TypeHandle) (f : Layer → Layer) :
    (s.modifyLayer t f).nested? t = s.nested? t := by
  have hlayer : (s.modifyLayer t f).layer? { t with depth := t.depth + 1 } =
      s.layer? { t with depth := t.depth + 1 } := by
    rw [layer?_modifyLayer,if_neg (by simp)]
  simp only [nested?,hlayer]

/-! ## Names without a number sign -/

variable {s' : System} {name : String}

/-- Names without a number sign are looked up in the outline. -/
theorem localSymbol?_congr (h : s'.outline = s.outline) (id : Nat) (name : String) :
    s'.localSymbol? id name none = s.localSymbol? id name none := by
  rcases module?_cases h id with ⟨hm',hm⟩ | ⟨m',m,hm',hm,houtline⟩
  · simp only [localSymbol?,hm',hm]
  · simp only [localSymbol?,hm',hm,Module.content?_congr houtline name,Option.getD_none]
    cases m.content? .module name <;> rfl

theorem fragment_splitName (hname : '#' ∉ name.toList) : (splitName name).fragment = none := by
  rcases exists_symbolName hname with hdot | ⟨m,n,rfl,hm,hn,hdot⟩
  · rw [splitName_type hdot hname]
  · rw [splitName_symbol hm hn hdot]

theorem lookupFrom_congr (h : s'.outline = s.outline) (id : Nat)
    (hname : '#' ∉ name.toList) : s'.lookupFrom id name none = s.lookupFrom id name none := by
  have hplain : ∀ n, s'.lookupPlain n = s.lookupPlain n := by
    intro n
    simp only [lookupPlain,moduleNamed?,(Prod.mk.inj h).1]
  have hnamed : ∀ n, s'.moduleNamed? n = s.moduleNamed? n := by
    intro n
    simp only [moduleNamed?,(Prod.mk.inj h).1]
  have hlookup : s'.lookup name = s.lookup name := by
    simp only [lookup,hplain,fragment_splitName hname,localSymbol?_congr h]
    cases hm : (splitName name).module with
    | none => rfl
    | some m => simp only [Option.bind_some,hnamed]
  simp only [lookupFrom,localSymbol?_congr h,hlookup]

/-- A name without a number sign is not looked up because it, or the last part of it, stands for
nothing. -/
theorem lookupFrom_error {id : Nat} (hname : '#' ∉ name.toList)
    (h : s.lookupFrom id name none = .error failure) : ∃ n, failure = .unknownName n := by
  have hplain : ∀ {n f}, s.lookupPlain n = .error f → f = .unknownName n := by
    intro n f hf
    unfold lookupPlain at hf
    split at hf
    · cases hf
    · split at hf
      · cases hf
      · exact (Except.error.inj hf).symm
  have hlocal : ∀ {id n found}, s.localSymbol? id n none = some found → found ≠ .error failure := by
    intro id n found hfound
    unfold localSymbol? at hfound
    split at hfound
    · cases hfound
    · simp only [Option.getD_none] at hfound
      split at hfound
      · cases hfound
      · cases hfound
        exact nofun
      · contradiction
  unfold lookupFrom at h
  split at h
  · next found hfound => exact absurd h (hlocal hfound)
  · simp only [lookup,fragment_splitName hname] at h
    split at h
    · cases h
    · next e he =>
        split at h
        · cases h
          exact ⟨name,hplain he⟩
        · split at h
          · next found hfound => exact absurd h (hlocal hfound)
          · exact ⟨_,hplain h⟩

/-! ## References -/

def note (s : System) (t : TypeHandle) (g : Resolution → Resolution) : System :=
  s.modifyLayer t (·.note g)

def attempt (s : System) (t : TypeHandle) : System := s.note t fun r => { r with attempted := true }

/-- The type is complex and has never been asked for its reference, and its name cannot be looked
up. -/
def Dangles (s : System) (t : TypeHandle) : Prop :=
  ∃ l failure, s.layer? t = some l ∧ l.isComplex = true ∧ l.resolution.attempted = false ∧
    s.lookupFrom t.owner.module l.name none = .error failure

theorem reference_none (hl : s.layer? t = none) : s.reference t = (.ok none, s) := by
  simp [reference,hl]

section
variable (hl : s.layer? t = some l)
include hl

theorem reference_attempted (h : l.resolution.attempted = true) :
    s.reference t = (.ok l.resolution.target, s) := by
  simp [reference,hl,h]

theorem reference_resolved (h : l.resolution.attempted = false)
    (hr : s.resolve t = (.ok (), s')) :
    s.reference t = (.ok ((s'.layer? t).bind (·.resolution.target)), s') := by
  simp [reference,hl,h,hr]

theorem reference_unresolved (h : l.resolution.attempted = false)
    (hr : s.resolve t = (.error failure, s')) : s.reference t = (.error failure, s') := by
  simp [reference,hl,h,hr]

theorem reference_plain (h : l.resolution.attempted = false) (hc : l.isComplex = false) :
    s.reference t = (.ok l.resolution.target, s.attempt t) := by
  have hattempt : (s.attempt t).layer? t = _ := layer?_modifyLayer_self hl _
  have hresolve : s.resolve t = (.ok (), s.attempt t) := by
    have hfirst : (s.modifyLayer t fun l => { l with resolution.attempted := true }) =
      s.attempt t := rfl
    simp only [resolve]
    rw [hfirst,hattempt]
    simp [Layer.note,hc]
  rw [reference_resolved hl h hresolve,hattempt]
  rfl

theorem resolve_complex (hc : l.isComplex = true) (hn : s.nested? t = none)
    (hname : '#' ∉ l.name.toList) :
    s.resolve t = match s.lookupFrom t.owner.module l.name none with
      | .ok e => (.ok (), (s.attempt t).note t fun r => { r with target := some e })
      | .error failure => (.error failure, s.attempt t) := by
  have hattempt : (s.attempt t).layer? t = _ := layer?_modifyLayer_self hl _
  have hnested : (s.attempt t).nested? t = none := (s.nested?_modifyLayer t _).trans hn
  have houtline : (s.attempt t).outline = s.outline := s.outline_modifyLayer t _
  have hlookup := lookupFrom_congr houtline t.owner.module hname
  have hfirst : (s.modifyLayer t fun l => { l with resolution.attempted := true }) = s.attempt t :=
    rfl
  simp only [resolve]
  rw [hfirst,hattempt]
  simp only [Layer.note,hc,if_true,hnested,Option.getD_none,hattempt,Option.map_some,
    Option.getD_some,hlookup]
  rfl

end

/-- What asking a type for its reference gives and leaves. -/
inductive Referring (s : System) (t : TypeHandle) : Except Failure (Option Entity) × System → Prop
  | none (hl : s.layer? t = none) : Referring s t (.ok none, s)
  | again {l : Layer} (hl : s.layer? t = some l) (ha : l.resolution.attempted = true) :
      Referring s t (.ok l.resolution.target, s)
  | plain {l : Layer} (hl : s.layer? t = some l) (ha : l.resolution.attempted = false) (hc :
      l.isComplex = false) :
      Referring s t (.ok l.resolution.target, s.attempt t)
  | found {l : Layer} {e : Entity} (hl : s.layer? t = some l) (ha : l.resolution.attempted = false)
      (hc : l.isComplex = true) (he : s.lookupFrom t.owner.module l.name none = .ok e) :
      Referring s t (.ok (some e), (s.attempt t).note t fun r => { r with target := some e })
  | dangling {l : Layer} {failure : Failure} (hl : s.layer? t = some l) (ha :
      l.resolution.attempted = false)
      (hc : l.isComplex = true) (he : s.lookupFrom t.owner.module l.name none = .error failure) :
      Referring s t (.error failure, s.attempt t)

theorem referring
    (h : ∀ l, s.layer? t = some l → l.isComplex = true → s.nested? t = none ∧ '#' ∉ l.name.toList) :
    s.Referring t (s.reference t) := by
  cases hl : s.layer? t with
  | none =>
    rw [reference_none hl]
    exact .none hl
  | some l =>
    cases ha : l.resolution.attempted with
    | true =>
      rw [reference_attempted hl ha]
      exact .again hl ha
    | false =>
      cases hc : l.isComplex with
      | false =>
        rw [reference_plain hl ha hc]
        exact .plain hl ha hc
      | true =>
        obtain ⟨hn,hname⟩ := h l hl hc
        have hattempt : (s.attempt t).layer? t = _ := layer?_modifyLayer_self hl _
        have hresolve := resolve_complex hl hc hn hname
        cases he : s.lookupFrom t.owner.module l.name none with
        | error failure =>
          rw [he] at hresolve
          rw [reference_unresolved hl ha hresolve]
          exact .dangling hl ha hc he
        | ok e =>
          rw [he] at hresolve
          rw [reference_resolved hl ha hresolve,note,layer?_modifyLayer_self hattempt]
          exact .found hl ha hc he

namespace Referring
variable {r : Except Failure (Option Entity)} {s' : System}

/-- What no note about the type changes stays as it is. -/
theorem invariant (h : s.Referring t (r, s')) {β : Type} (φ : System → β)
    (hφ : ∀ s g, φ (s.note t g) = φ s) :
    φ s' = φ s := by
  cases h with
  | none hl => rfl
  | again hl ha => rfl
  | plain hl ha hc => exact hφ _ _
  | found hl ha hc he => exact (hφ _ _).trans (hφ _ _)
  | dangling hl ha hc he => exact hφ _ _

/-- When it has been asked a type is settled: asked again it gives what is known and changes
nothing. -/
theorem settled (h : s.Referring t (r, s')) :
    s'.reference t = (.ok ((s'.layer? t).bind (·.resolution.target)), s') := by
  have hattempted : ∀ l', s'.layer? t = some l' → l'.resolution.attempted = true := by
    intro l' hl'
    cases h with
    | none hl => cases hl.symm.trans hl'
    | again hl ha => exact Option.some.inj (hl.symm.trans hl') ▸ ha
    | plain hl ha hc | dangling hl ha hc he =>
      obtain rfl := Option.some.inj ((layer?_modifyLayer_self hl _).symm.trans hl')
      rfl
    | found hl ha hc he =>
      obtain rfl :=
        Option.some.inj ((layer?_modifyLayer_self (layer?_modifyLayer_self hl _) _).symm.trans hl')
      rfl
  cases hl' : s'.layer? t with
  | none => exact reference_none hl'
  | some l' => exact reference_attempted hl' (hattempted l' hl')

/-- The first answer is what is known from then on, unless the type dangles. -/
theorem answer (h : s.Referring t (r, s')) :
    r = .ok ((s'.layer? t).bind (·.resolution.target)) ∧ ¬ s.Dangles t ∨
      s.Dangles t ∧ ∃ l failure, s.layer? t = some l ∧ l.isComplex = true ∧
        s.lookupFrom t.owner.module l.name Option.none = .error failure ∧ r = .error failure := by
  have hdangles : s.Dangles t → ∀ {l}, s.layer? t = some l → l.isComplex = true ∧
    l.resolution.attempted = false ∧
      ∃ failure, s.lookupFrom t.owner.module l.name Option.none = .error failure := by
    intro hd l hl
    obtain ⟨l',failure,hl',hc,ha,he⟩ := hd
    obtain rfl := Option.some.inj (hl.symm.trans hl')
    exact ⟨hc,ha,failure,he⟩
  cases h with
  | none hl =>
    refine .inl ⟨by rw [hl]; rfl,?_⟩
    intro hd
    obtain ⟨l,_,hl',-⟩ := hd
    cases hl.symm.trans hl'
  | again hl ha =>
    refine .inl ⟨by rw [hl]; rfl,?_⟩
    intro hd
    cases ha.symm.trans (hdangles hd hl).2.1
  | plain hl ha hc =>
    refine .inl ⟨by rw [attempt,note,layer?_modifyLayer_self hl]; rfl,?_⟩
    intro hd
    cases hc.symm.trans (hdangles hd hl).1
  | found hl ha hc he =>
    refine .inl ⟨?_,?_⟩
    · rw [note,attempt,note,layer?_modifyLayer_self (layer?_modifyLayer_self hl _)]
      rfl
    · intro hd
      obtain ⟨_,_,failure,he'⟩ := hdangles hd hl
      cases he.symm.trans he'
  | dangling hl ha hc he => exact .inr ⟨⟨_,_,hl,hc,ha,he⟩,_,_,hl,hc,he,rfl⟩

end Referring

end System

end InterfaceKit.Model

namespace InterfaceKit.Workspace
open Data Model

variable {w w' : Workspace} {n : Nat}

/-- Visits are told by the outline of their system. -/
theorem visits_eq (h : (w'.systemAt n).outline = (w.systemAt n).outline) :
    w'.visits n = w.visits n := by
  have hmodules : w'.symbolsIn n .system .modules = w.symbolsIn n .system .modules := by
    simp [symbolsIn,System.modules,(Prod.mk.inj h).1]
  have hpart : ∀ (k : Handle) (part : Section), part ∈ [.interfaces,.structs,.enums] →
      w'.symbolsIn n (.symbol k) part = w.symbolsIn n (.symbol k) part := by
    intro k part hpart
    unfold symbolsIn
    dsimp only
    rcases System.module?_cases h k.module with ⟨hm',hm⟩ | ⟨m',m,hm',hm,houtline⟩
    · rw [hm',hm]
    · rw [hm',hm]
      obtain ⟨hinterfaces,hrest⟩ := Prod.mk.inj houtline
      obtain ⟨hstructs,henums⟩ := Prod.mk.inj hrest
      simp only [List.mem_cons,List.not_mem_nil,or_false] at hpart
      rcases hpart with rfl | rfl | rfl
      · simp [Module.sectionOf,Module.placesIn,hinterfaces]
      · simp [Module.sectionOf,Module.placesIn,hstructs]
      · simp [Module.sectionOf,Module.placesIn,henums]
  simp only [visits,hmodules,hpart _ .interfaces (by decide),hpart _ .structs (by decide),
    hpart _ .enums (by decide)]

theorem Grows.visits_eq (h : w.Grows w') (n : Nat) : w'.visits n = w.visits n :=
  Workspace.visits_eq (h.systems n).outline_eq

end InterfaceKit.Workspace
