import InterfaceKit.Proofs.Model.Resolution

/-!
# Types and what they refer to

The name of a complex type is looked up from its module. If a symbol of a module is found, the
qualified name of the type is that of the symbol, whether the symbol stands in the same module under
a plain or a dotted name, or in another one. A type goes on referring to the symbol when modules are
replaced, and the names still agree.
-/
namespace InterfaceKit.Model
open Grammar Lexical

theorem Layer.complex_only {l : Layer} (h : l.kinds.count true ≤ 1) (hc : l.isComplex = true) :
    l.isVoid = false ∧ l.isPrimitive = false ∧ l.isList = false ∧ l.isMap = false ∧
    l.isModel = false := by
  simp only [kinds,hc,List.count_cons,List.count_nil] at h
  refine ⟨?_,?_,?_,?_,?_⟩ <;>
    · rw [← Bool.not_eq_true]
      intro hother
      simp only [hother,beq_self_eq_true,if_true] at h
      omega

theorem Layer.list_only {l : Layer} (h : l.kinds.count true ≤ 1) (hlist : l.isList = true) :
    l.isVoid = false ∧ l.isPrimitive = false ∧ l.isComplex = false := by
  simp only [kinds,hlist,List.count_cons,List.count_nil] at h
  refine ⟨?_,?_,?_⟩ <;>
    · rw [← Bool.not_eq_true]
      intro hother
      simp only [hother,beq_self_eq_true,if_true] at h
      omega

theorem TypeExpr.Written.note {type : TypeExpr} (h : type.Written) (depth : Nat)
    (g : Resolution → Resolution) :
    (type.modify depth (·.note g)).Written := by
  have hnested : ∀ k, (type.modify depth (·.note g)).hasNested k = type.hasNested k := by
    intro k
    rw [hasNested,layer?_modify,hasNested]
    split
    · exact Option.isSome_map
    · rfl
  intro k l' hl'
  rw [hnested]
  rw [layer?_modify] at hl'
  split at hl'
  · obtain ⟨l,hl,rfl⟩ := Option.map_eq_some_iff.mp hl'
    exact { h k l hl with }
  · exact h k l' hl'

namespace Module
variable {m : Module} {p : Place} {f : Common → Common}

theorem name_modifyCommon (hf : ∀ c, (f c).name = c.name) : (m.modifyCommon p f).name = m.name := by
  cases p with
  | module => exact hf m.common
  | _ => rfl

/-- Something is noted about a layer of the type of a symbol. -/
def note (m : Module) (p : Place) (depth : Nat) (g : Resolution → Resolution) : Module :=
  m.modifyCommon p fun c => { c with type := c.type.modify depth (·.note g) }

theorem qualify_congr {m' : Module} (h : m'.name = m.name) (n : String) :
    m'.qualify n = m.qualify n := by
  simp only [qualify,h]

end Module

namespace System
variable {s s' : System} {m : Module} {l : Layer} {t : TypeHandle} {h : Handle}

/-- The handle is that of a module, or of a symbol with the qualified name that the name has in the
module. -/
def Names (s : System) (m : Module) (name : String) (h : Handle) : Prop :=
  h.place = .module ∨
    ∃ m' n, s.module? h.module = some m' ∧ m'.content? .module n = some h.place ∧
      m'.qualify n = m.qualify name

/-- What a name is looked up to has the qualified name. -/
theorem Named.lookupFrom_names (hs : s.Named) {id : Nat} (hm : s.module? id = some m) {name : String}
    (hsign : '#' ∉ name.toList) (he : s.lookupFrom id name none = .ok (.symbol h)) :
    s.Names m name h := by
  have hplain : ∀ n, s.lookupPlain n = .ok (.symbol h) → h.place = .module := by
    intro n hn
    unfold lookupPlain at hn
    split at hn
    · cases hn
      rfl
    · split at hn <;> cases hn
  cases hp : m.content? .module name with
  | some p =>
    simp only [lookupFrom,localSymbol?_symbol hm hp] at he
    cases he
    exact .inr ⟨m,name,hm,hp,rfl⟩
  | none =>
    have hlocal : s.localSymbol? id name none = none := by simp [localSymbol?,hm,hp]
    simp only [lookupFrom,hlocal] at he
    rcases hs.lookup_finds hsign he with he | ⟨_,n,_,_,_,_,_,_,he⟩ | ⟨m',n,id',p,rfl,hdot,hm',hp',he⟩
    · exact .inl (hplain _ he)
    · exact .inl (hplain _ he)
    · cases he
      refine .inr ⟨m',n,hm',hp',?_⟩
      simp [Module.qualify,hdot]

/-- What was ever found keeps its name as long as modules keep their names and contents. -/
theorem Names.mono {m₀ : Module} (hmodule : ∀ id m, s.module? id = some m →
      ∃ m', s'.module? id = some m' ∧ m'.name = m.name ∧ m'.outline = m.outline)
    (hname : m₀.name = m.name) {name : String} (hn : s.Names m name h) : s'.Names m₀ name h := by
  rcases hn with hn | ⟨m',n,hm',hp,hq⟩
  · exact .inl hn
  · obtain ⟨m'',hm'',hname',houtline⟩ := hmodule _ m' hm'
    refine .inr ⟨m'',n,hm'',(Module.content?_congr houtline n).trans hp,?_⟩
    rw [Module.qualify_congr hname',Module.qualify_congr hname,hq]

/-- The symbols that are known for the layers of a type of the module have the names of these
layers. -/
def TypeNames (s : System) (m : Module) (type : TypeExpr) : Prop :=
  ∀ depth l h, type.layer? depth = some l → l.resolution.target = some (.symbol h) →
    s.Names m l.name h

/-- What holds of a system that is read from texts and asked about. -/
structure Sound (s : System) : Prop where
  named : s.Named
  placed : s.Placed
  written : ∀ m ∈ s.archive, m.AllTypes TypeExpr.Written
  names : ∀ m ∈ s.archive, m.AllTypes (s.TypeNames m)

/-! ## Notes -/

section
variable (s : System) (t : TypeHandle) (g : Resolution → Resolution)

theorem module?_note (id : Nat) : (s.note t g).module? id =
    if t.owner.module = id then (s.module? id).map (·.note t.owner.place t.depth g)
    else s.module? id := by
  have hmodule : (s.note t g).module? id =
      (fun m => if t.owner.module = id then m.note t.owner.place t.depth g else m) <$> s.module?
        id :=
    List.getElem?_modify _ _ _ _
  rw [hmodule]
  split
  · rfl
  · exact Option.map_id'

/-- Modules keep their names and contents. -/
theorem exists_module?_note {id : Nat} (hm : s.module? id = some m) :
    ∃ m', (s.note t g).module? id = some m' ∧ m'.name = m.name ∧ m'.outline = m.outline := by
  rw [module?_note,hm]
  split
  · exact ⟨_,rfl,Module.name_modifyCommon fun _ => rfl,Module.outline_modifyCommon _ _ _⟩
  · exact ⟨m,rfl,rfl,rfl⟩

theorem mem_archive_note {m' : Module} (hm' : m' ∈ (s.note t g).archive) :
    m' ∈ s.archive ∨ ∃ m, s.module? t.owner.module = some m ∧
    m' = m.note t.owner.place t.depth g := by
  obtain ⟨id,hid⟩ := List.mem_iff_getElem?.mp hm'
  have hmodule := s.module?_note t g id
  rw [module?,hid] at hmodule
  split at hmodule
  · next heq =>
      subst heq
      obtain ⟨m,hm,hnote⟩ := Option.map_eq_some_iff.mp hmodule.symm
      exact .inr ⟨m,hm,hnote.symm⟩
  · exact .inl (List.mem_of_getElem? hmodule.symm)

variable {s}

theorem Named.note (hs : s.Named) : (s.note t g).Named where
  listed := by
    intro e he
    obtain ⟨m,hm,hn⟩ := hs.listed e he
    obtain ⟨m',hm',hname,-⟩ := s.exists_module?_note t g hm
    exact ⟨m',hm',hname.trans hn⟩
  distinct := hs.distinct
  modules := by
    intro m' hm'
    rcases s.mem_archive_note t g hm' with hm | ⟨m,hm,rfl⟩
    · exact hs.modules m' hm
    · exact Module.named_iff.mpr ((Module.named_iff.mp (hs.module hm)).modifyCommon fun _ _ => id)

theorem Placed.note (hs : s.Placed) : (s.note t g).Placed := by
  intro id m hm
  rw [module?_note] at hm
  split at hm
  · obtain ⟨m₀,hm₀,rfl⟩ := Option.map_eq_some_iff.mp hm
    refine (hs id m₀ hm₀).modifyCommon fun c _ hc => { hc with types := ?_ }
    rw [TypeExpr.layers_modify,List.length_modify]
    exact hc.types
  · exact hs id m hm

end

theorem exists_common_of_layer? (hl : s.layer? t = some l) :
    ∃ m c, s.module? t.owner.module = some m ∧
    m.common? t.owner.place = some c ∧ c.type.layer? t.depth = some l := by
  obtain ⟨c,hc,hl⟩ := Option.bind_eq_some_iff.mp hl
  obtain ⟨m,hm,hc⟩ := Option.bind_eq_some_iff.mp hc
  exact ⟨m,c,hm,hc,hl⟩

namespace Sound

theorem empty (tags : Data.Value) : ({ tags } : System).Sound where
  named := ⟨Table.All.nil,List.nodup_nil,fun _ hm => absurd hm List.not_mem_nil⟩
  placed _ _ hm := nomatch hm
  written _ hm := absurd hm List.not_mem_nil
  names _ hm := absurd hm List.not_mem_nil

variable (hs : s.Sound)
include hs

/-- Something is noted about a type, and if this is a symbol that it refers to, the symbol has the
name of the type. -/
theorem note {g : Resolution → Resolution}
    (hg : ∀ m l h, s.module? t.owner.module = some m → s.layer? t = some l →
      (g l.resolution).target = some (.symbol h) → s.Names m l.name h) : (s.note t g).Sound where
  named := hs.named.note t g
  placed := hs.placed.note t g
  written := by
    intro m' hm'
    rcases s.mem_archive_note t g hm' with hm | ⟨m,hm,rfl⟩
    · exact hs.written m' hm
    · apply (hs.written m (List.mem_of_getElem? hm)).modifyCommon
      intro c _ hc
      exact hc.note t.depth g
  names := by
    intro m' hm'
    have hmono : ∀ {m m₀ : Module} {name h}, m₀.name = m.name → s.Names m name h →
        (s.note t g).Names m₀ name h :=
      fun hname hn => hn.mono (fun id m hm => s.exists_module?_note t g hm) hname
    rcases s.mem_archive_note t g hm' with hm | ⟨m,hm,rfl⟩
    · refine (hs.names m' hm).imp fun _ c htype depth l h hl hh => ?_
      exact hmono rfl (htype depth l h hl hh)
    · have hname : (m.note t.owner.place t.depth g).name = m.name :=
        Module.name_modifyCommon fun _ => rfl
      have hold : m.AllTypes ((s.note t g).TypeNames (m.note t.owner.place t.depth g)) :=
        (hs.names m (List.mem_of_getElem? hm)).imp fun _ c htype depth l h hl hh =>
          hmono hname (htype depth l h hl hh)
      apply hold.modifyCommon
      intro c hc hall depth l' h hl' hh
      rw [TypeExpr.layer?_modify] at hl'
      split at hl'
      · next heq =>
          subst heq
          obtain ⟨l,hl,rfl⟩ := Option.map_eq_some_iff.mp hl'
          have hlayer : s.layer? t = some l := by simp [layer?,System.common?,hm,hc,hl]
          exact hmono hname (hg m l h hm hlayer hh)
      · exact hall depth l' h hl' hh

theorem register (hm : m.Named) (hplaced : m.Placed s.archive.length)
    (hfresh : m.AllTypes TypeExpr.Fresh) :
    (s.register m).2.Sound where
  named := hs.named.register hm
  placed := hs.placed.register hplaced
  written := by
    intro m' hm'
    rcases List.mem_append.mp hm' with hm' | hm'
    · exact hs.written m' hm'
    · obtain rfl := List.mem_singleton.mp hm'
      exact hfresh.imp fun _ _ h => h.written
  names := by
    have hkeep : ∀ id x, s.module? id = some x →
        ∃ x', (s.register m).2.module? id = some x' ∧ x'.name = x.name ∧ x'.outline = x.outline := by
      intro id x hx
      refine ⟨x,?_,rfl,rfl⟩
      have hlt : id < s.archive.length := (List.getElem?_eq_some_iff.mp hx).1
      exact (List.getElem?_append_left hlt).trans hx
    intro m' hm'
    rcases List.mem_append.mp hm' with hm' | hm'
    · refine (hs.names m' hm').imp fun _ c htype depth l h hl hh => ?_
      exact (htype depth l h hl hh).mono hkeep rfl
    · obtain rfl := List.mem_singleton.mp hm'
      refine hfresh.imp fun _ c htype depth l h hl hh => ?_
      rw [htype.unresolved depth l hl] at hh
      cases hh

theorem layer (hl : s.layer? t = some l) : l.Written (s.nested? t).isSome := by
  obtain ⟨m,c,hm,hc,hlayer⟩ := exists_common_of_layer? hl
  have hwritten : c.type.Written := (hs.written m (List.mem_of_getElem? hm)).common? hc
  have hnested : (s.nested? t).isSome = c.type.hasNested t.depth := by
    simp only [nested?,layer?,System.common?,hm,Option.bind_some,hc,TypeExpr.hasNested]
    split
    · next h => exact h.symm
    · next h => simpa using h
  rw [hnested]
  exact hwritten t.depth l hlayer

/-- Nothing is nested in a complex type, and its name is looked up as it is. -/
theorem complex (hl : s.layer? t = some l) (hc : l.isComplex = true) :
    s.nested? t = none ∧ '#' ∉ l.name.toList := by
  have hwritten := hs.layer hl
  refine ⟨?_,(hwritten.name hc).sign_notMem⟩
  obtain ⟨-,-,hlist,hmap,hmodel⟩ := Layer.complex_only hwritten.kinds hc
  have hnested := hwritten.container
  rw [Layer.isContainer,hlist,hmap,hmodel] at hnested
  simpa using hnested.symm

/-- What a type is known to refer to has its name. -/
theorem target (hm : s.module? t.owner.module = some m) (hl : s.layer? t = some l)
    (hh : l.resolution.target = some (.symbol h)) : s.Names m l.name h := by
  obtain ⟨m',c,hm',hc,hlayer⟩ := exists_common_of_layer? hl
  obtain rfl := Option.some.inj (hm.symm.trans hm')
  exact (hs.names m (List.mem_of_getElem? hm)).common? hc t.depth l h hlayer hh

theorem attempt (t : TypeHandle) : (s.attempt t).Sound := by
  apply hs.note
  intro m l h hm hl hh
  exact hs.target hm hl hh

theorem referring (t : TypeHandle) : s.Referring t ((s.reference t).1, (s.reference t).2) :=
  System.referring fun _ hl hc => hs.complex hl hc

/-- The first answer is what is known of the type from then on, unless its name cannot be looked
up. -/
theorem answer (t : TypeHandle) :
    (s.reference t).1 = .ok (((s.reference t).2.layer? t).bind (·.resolution.target)) ∧
    ¬ s.Dangles t ∨
      (∃ name, (s.reference t).1 = .error (.unknownName name)) ∧ s.Dangles t := by
  rcases (hs.referring t).answer with hanswer | ⟨hdangles,l,failure,hl,hc,he,hr⟩
  · exact .inl hanswer
  · obtain ⟨name,rfl⟩ := lookupFrom_error (hs.complex hl hc).2 he
    exact .inr ⟨⟨name,hr⟩,hdangles⟩

theorem reference (t : TypeHandle) : (s.reference t).2.Sound := by
  have hreferring := hs.referring t
  revert hreferring
  rcases s.reference t with ⟨r,s'⟩
  intro hreferring
  cases hreferring with
  | none | again => exact hs
  | plain | dangling => exact hs.attempt t
  | found hl ha hc he =>
    apply (hs.attempt t).note
    intro m l' h hm hl' hh
    obtain rfl := Option.some.inj hh
    obtain ⟨m₀,_,hm₀,-⟩ := exists_common_of_layer? hl
    obtain ⟨m₁,hm₁,hname,-⟩ := s.exists_module?_note t _ hm₀
    obtain rfl := Option.some.inj (hm.symm.trans hm₁)
    obtain rfl := Option.some.inj (hl'.symm.trans (layer?_modifyLayer_self hl _))
    have hnames := hs.named.lookupFrom_names hm₀ (hs.complex hl hc).2 he
    exact hnames.mono (fun _ _ hx => s.exists_module?_note t _ hx) hname

theorem resolves {s' : System} (h : s.Resolves s') : s'.Sound := by
  induction h with
  | refl => exact hs
  | step _ t ih => exact ih.reference t

end Sound

end System

end InterfaceKit.Model
