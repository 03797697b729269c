import InterfaceKit.Proofs.Model.Types

/-!
# What an export tells

The export of a module leaves out comments, tags, values and bases. All else can be read off from
it, in whatever order the members of its objects are written: the names, the kinds, the order of the
symbols and their types with all that is nested in them.
-/
namespace InterfaceKit

namespace Json

/-- A member of an object. -/
@[simp]
def member? : Json → String → Option Json
  | object es, name => es.lookup name
  | _, _ => none

/-- Documents that are the same but for the order of the members of objects. -/
inductive Same : Json → Json → Prop
  | null : Same null null
  | bool (b : Bool) : Same (bool b) (bool b)
  | int (i : Int) : Same (int i) (int i)
  | float (d : Number.Double) : Same (float d) (float d)
  | text (s : String) : Same (text s) (text s)
  | array {xs ys : List Json} : List.Forall₂ Same xs ys → Same (array xs) (array ys)
  | object {es fs : List (String × Json)} :
      (∀ name, Option.Rel Same (es.lookup name) (fs.lookup name)) →
      Same (object es) (object fs)

theorem Same.member {j j' : Json} (h : j.Same j') (name : String) :
    Option.Rel Same (j.member? name) (j'.member? name) := by
  cases h with
  | object h => exact h name
  | _ => exact .none

theorem Same.members {j j' : Json} (h : j.Same j') {name : String} {o o' : Option Json}
    (hj : j.member? name = o) (hj' : j'.member? name = o') : Option.Rel Same o o' := by
  rw [← hj,← hj']
  exact h.member name

theorem Same.int_inj {i i' : Int} (h : (Json.int i).Same (.int i')) : i = i' := by
  cases h
  rfl

theorem Same.text_inj {s s' : String} (h : (Json.text s).Same (.text s')) : s = s' := by
  cases h
  rfl

theorem Same.refl : ∀ j : Json, j.Same j
  | .null => .null
  | .bool b => .bool b
  | .int i => .int i
  | .float d => .float d
  | .text s => .text s
  | .array xs => .array (List.forall₂_same.mpr fun x _ => refl x)
  | .object es => .object fun name => by
      cases h : es.lookup name with
      | none => exact .none
      | some x =>
        have hmem := Model.Table.mem_of_get? h
        exact .some (refl x)
termination_by j => sizeOf j
decreasing_by
  · simp_wf
    have := List.sizeOf_lt_of_mem ‹_ ∈ xs›
    omega
  · simp_wf
    have := List.sizeOf_lt_of_mem hmem
    rw [Prod.mk.sizeOf_spec] at this
    omega

end Json

namespace Model
open Json

/-! ## Members -/

def written (name : String) : Option Json := if name = "" then none else some (.text name)

def flagged (b : Bool) : Option Json := if b then some (.bool true) else none

theorem written_inj {n n' : String} (h : Option.Rel Same (written n) (written n')) : n = n' := by
  unfold written at h
  split at h <;> split at h <;> cases h
  · simp_all
  · rename_i h
    exact h.text_inj

theorem flagged_inj {b b' : Bool} (h : Option.Rel Same (flagged b) (flagged b')) : b = b' := by
  cases b <;> cases b' <;> first | rfl | cases h

@[simp]
theorem lookup_name (name key : String) :
    (if name = "" then [] else [("name", Json.text name)]).lookup key = if key = "name" then
    written name else none := by
  unfold written
  split <;> by_cases h : key = "name" <;> simp [h]

@[simp]
theorem lookup_entry (name key : String) (j : Json) (es : List (String × Json)) :
    ((name, j) :: es).lookup key = if key = name then some j else es.lookup key :=
  Table.get?_cons name j es key

@[simp]
theorem lookup_flag (name key : String) (b : Bool) :
    (flag name b).lookup key = if key = name then flagged b else none := by
  cases b <;> by_cases h : key = name <;> simp [flag,flagged,h]

/-! ## Types -/

theorem member?_layers (l : Layer) (inner : List Layer) :
    (layersToJson (l :: inner)).member? "name" = written l.name ∧
      (layersToJson (l :: inner)).member? "void" = flagged l.isVoid ∧
      (layersToJson (l :: inner)).member? "primitive" = flagged l.isPrimitive ∧
      (layersToJson (l :: inner)).member? "complex" = flagged l.isComplex ∧
      (layersToJson (l :: inner)).member? "list" = flagged l.isList ∧
      (layersToJson (l :: inner)).member? "map" = flagged l.isMap ∧
      (layersToJson (l :: inner)).member? "model" = flagged l.isModel ∧
      (layersToJson (l :: inner)).member? "nested" =
        if inner = [] then none else some (layersToJson inner) := by
  have hnested : ∀ key, (if inner = [] then [] else [("nested", layersToJson inner)]).lookup key =
      if key = "nested" then (if inner = [] then none else some (layersToJson inner)) else none := by
    intro key
    split <;> by_cases hkey : key = "nested" <;> simp [hkey]
  simp [layersToJson,List.lookup_append,hnested]

/-- A type can be read off from its export, at every depth. -/
theorem layersToJson_inj {ls ls' : List Layer} (hne : ls ≠ []) (hne' : ls' ≠ [])
    (hls : ∀ l ∈ ls, l.resolution = {}) (hls' : ∀ l ∈ ls', l.resolution = {})
    (h : (layersToJson ls).Same (layersToJson ls')) : ls = ls' := by
  induction ls generalizing ls' with
  | nil => exact absurd rfl hne
  | cons l inner ih =>
    cases ls' with
    | nil => exact absurd rfl hne'
    | cons l' inner' =>
      obtain ⟨hname,hvoid,hprimitive,hcomplex,hlist,hmap,hmodel,hnested⟩ := member?_layers l inner
      obtain ⟨hname',hvoid',hprimitive',hcomplex',hlist',hmap',hmodel',hnested'⟩ :=
        member?_layers l' inner'
      have hlayer : l = l' := by
        have hname := written_inj (h.members hname hname')
        have hvoid := flagged_inj (h.members hvoid hvoid')
        have hprimitive := flagged_inj (h.members hprimitive hprimitive')
        have hcomplex := flagged_inj (h.members hcomplex hcomplex')
        have hlist := flagged_inj (h.members hlist hlist')
        have hmap := flagged_inj (h.members hmap hmap')
        have hmodel := flagged_inj (h.members hmodel hmodel')
        have hresolution :=
          (hls l (List.mem_cons_self ..)).trans (hls' l' (List.mem_cons_self ..)).symm
        cases l
        cases l'
        simp_all
      have hinner := h.members hnested hnested'
      have hrest : inner = inner' := by
        split at hinner <;> split at hinner <;> cases hinner
        · simp_all
        · rename_i hne hne' hinner
          exact ih hne hne' (fun l hl => hls l (List.mem_cons_of_mem _ hl))
            (fun l hl => hls' l (List.mem_cons_of_mem _ hl)) hinner
      rw [hlayer,hrest]

theorem TypeExpr.toJson_inj {t t' : TypeExpr} (ht : ∀ l ∈ t.layers, l.resolution = {})
    (ht' : ∀ l ∈ t'.layers, l.resolution = {}) (h : t.toJson.Same t'.toJson) : t = t' := by
  have hlayers : t.layers = t'.layers :=
    layersToJson_inj (List.cons_ne_nil _ _) (List.cons_ne_nil _ _) ht ht' h
  obtain ⟨houter,hinner⟩ := List.cons.inj hlayers
  cases t
  cases t'
  simp_all

/-! ## Symbols -/

/-- A type as a member; one that says nothing is left out. -/
def typed (t : TypeExpr) : Option Json := if t.isValid then some t.toJson else none

@[simp]
theorem lookup_members (c : Common) (key : String) : c.members.lookup key =
    if key = "name" then written c.name else if key = "type" then typed c.type else none := by
  have htype : (if c.type.isValid then [("type", c.type.toJson)] else []).lookup key =
      if key = "type" then typed c.type else none := by
    unfold typed
    split <;> by_cases hkey : key = "type" <;> simp [hkey]
  rw [Common.members,List.lookup_append,lookup_name,htype]
  by_cases hname : key = "name"
  · simp [hname]
  · simp [hname]

def Common.exported (c : Common) : Common := { name := c.name, type := c.type }

def Parameter.exported (x : Parameter) : Parameter := { common := x.common.exported }

def Property.exported (x : Property) : Property :=
  { common := x.common.exported, readonly := x.readonly, const := x.const }

def Operation.exported (x : Operation) : Operation :=
  { common := x.common.exported, parameters := x.parameters.mapValues Parameter.exported }

def Signal.exported (x : Signal) : Signal :=
  { common := x.common.exported, parameters := x.parameters.mapValues Parameter.exported }

def Interface.exported (x : Interface) : Interface :=
  { common := x.common.exported
    properties := x.properties.mapValues Property.exported
    operations := x.operations.mapValues Operation.exported
    signals := x.signals.mapValues Signal.exported }

def Field.exported (x : Field) : Field := { common := x.common.exported }

def Struct.exported (x : Struct) : Struct :=
  { common := x.common.exported, fields := x.fields.mapValues Field.exported }

def Member.exported (x : Member) : Member := { common := x.common.exported, value := x.value }

def Enum.exported (x : Enum) : Enum :=
  { common := x.common.exported
    isEnum := x.isEnum
    isFlag := x.isFlag
    members := x.members.mapValues Member.exported }

/-- A module without its comments, tags and imports, the values of its properties and fields, the
bases of its interfaces and the constancy of its operations. -/
def Module.exported (m : Module) : Module :=
  { common := m.common.exported
    version := m.version
    interfaces := m.interfaces.mapValues Interface.exported
    structs := m.structs.mapValues Struct.exported
    enums := m.enums.mapValues Enum.exported }

variable {α : Type} {m : Module} {f : α → Json} {g : α → α} {P : String → α → Prop}

theorem listOf_mapValues (h : ∀ a, f (g a) = f a) (t : Table α) :
    listOf f (t.mapValues g) = listOf f t := by
  simp [listOf,Table.values,Table.mapValues,h]

theorem Module.exported_toJson (m : Module) : m.exported.toJson = m.toJson := by
  have hparameters := listOf_mapValues (f := Parameter.toJson) (g := Parameter.exported) fun _ => rfl
  have hproperties := listOf_mapValues (f := Property.toJson) (g := Property.exported) fun _ => rfl
  have hfields := listOf_mapValues (f := Field.toJson) (g := Field.exported) fun _ => rfl
  have hmembers := listOf_mapValues (f := Member.toJson) (g := Member.exported) fun _ => rfl
  have hcommon : ∀ c : Common, c.exported.members = c.members := fun _ => rfl
  have htype : ∀ c : Common, c.exported.type = c.type := fun _ => rfl
  have hoperations := listOf_mapValues (f := Operation.toJson) (g := Operation.exported) fun x => by
    simp only [Operation.toJson,Operation.exported,hparameters,hcommon,htype]
  have hsignals := listOf_mapValues (f := Signal.toJson) (g := Signal.exported) fun x => by
    simp only [Signal.toJson,Signal.exported,hparameters,hcommon]
  have hinterfaces := listOf_mapValues (f := Interface.toJson) (g := Interface.exported) fun x => by
    simp only [Interface.toJson,Interface.exported,hproperties,hoperations,hsignals,hcommon]
  have hstructs := listOf_mapValues (f := Struct.toJson) (g := Struct.exported) fun x => by
    simp only [Struct.toJson,Struct.exported,hfields,hcommon]
  have henums := listOf_mapValues (f := Enum.toJson) (g := Enum.exported) fun x => by
    simp only [Enum.toJson,Enum.exported,hmembers,hcommon]
  simp only [Module.toJson,Module.exported,hinterfaces,hstructs,henums,hcommon]

/-! ## Modules that have been read -/

/-- A symbol stands under its name. Nothing has been looked up of its type, and this says something
unless the symbol has none or is an operation. -/
structure Common.Told (p : Place) (c : Common) : Prop where
  name : c.name = p.name?.getD c.name
  unresolved : ∀ l ∈ c.type.layers, l.resolution = {}
  valid : p.hasType = true → p.isOperation = false → c.type.isValid = true
  bare : p.hasType = false → c.type = {}

def Module.Told : Module → Prop := Module.Each Common.Told

theorem TypeExpr.Formed.isValid {t : TypeExpr} (h : t.Formed false) (hw : t.Written) :
    t.isValid = true := by
  obtain ⟨hkinds,hcontainer,hvoid⟩ := h 0 t.outer rfl
  have hwritten := hw 0 t.outer rfl
  have hnotVoid : t.outer.isVoid = false := by
    cases hv : t.outer.isVoid with
    | false => rfl
    | true => cases (hvoid hv).2
  have hprimitive : t.outer.isPrimitive = true → t.outer.name ≠ "" := by
    intro hp hempty
    have hname := hwritten.primitive hp
    rw [hempty] at hname
    exact absurd hname (by decide)
  have hcomplex : t.outer.isComplex = true → t.outer.name ≠ "" := by
    intro hc hempty
    have hname := hwritten.name hc
    rw [hempty] at hname
    obtain ⟨_,_,-,-,hcons⟩ := hname
    cases hcons
  have hnested : t.outer.isContainer = true → t.inner.isEmpty = false := by
    intro hc
    rw [hcontainer] at hc
    cases hi : t.inner with
    | nil => simp [hasNested,layer?,layers,hi] at hc
    | cons _ _ => rfl
  simp only [TypeExpr.isValid,Layer.isValid]
  cases hp : t.outer.isPrimitive with
  | true => simp [hprimitive hp]
  | false =>
    cases hc : t.outer.isComplex with
    | true => simp [hcomplex hc]
    | false =>
      cases hcont : t.outer.isContainer with
      | true => simp [hnested hcont]
      | false =>
        simp only [Layer.isContainer,Bool.or_eq_false_iff] at hcont
        simp [Layer.kinds,hnotVoid,hp,hc,hcont] at hkinds

theorem told_of_read (hnamed : m.Named) (hfresh : m.AllTypes TypeExpr.Fresh) (htyped : m.Typed) :
    m.Told := by
  refine (Module.named_iff.mp hnamed).imp₂ (hfresh.imp₂ htyped fun _ _ => And.intro)
    fun p c hname h => ?_
  obtain ⟨hfresh,hformed,hbare⟩ := h
  refine ⟨hname.1,fun l hl => ?_,fun hp hoperation => ?_,hbare⟩
  · obtain ⟨depth,hl⟩ := List.mem_iff_getElem?.mp hl
    exact hfresh.unresolved depth l hl
  · exact (hoperation ▸ hformed hp).isValid hfresh.written

/-! ## Reading exports -/

attribute [local simp] List.lookup_append Parameter.toJson Property.toJson Operation.toJson
  Signal.toJson
  Interface.toJson Field.toJson Struct.toJson Member.toJson Enum.toJson Module.toJson

/-- The name and the content of a symbol can be read off from its export. -/
def Readable {α : Type} (P : String → α → Prop) (toJson : α → Json) (exported : α → α) : Prop :=
  ∀ n n' x x', P n x → P n' x' → (toJson x).Same (toJson x') → n = n' ∧ exported x = exported x'

theorem Readable.table (hf : Readable P f g) {t t' : Table α} (ht : t.All P) (ht' : t'.All P)
    (h : Option.Rel Same (some (listOf f t)) (some (listOf f t'))) :
    t.mapValues g = t'.mapValues g := by
  cases h with
  | some h =>
    cases h with
    | array h =>
      rw [Table.values,Table.values,List.map_map,List.map_map,List.forall₂_map_left_iff,
        List.forall₂_map_right_iff] at h
      induction h with
      | nil => rfl
      | @cons e e' t t' he _ ih =>
        obtain ⟨hhead,htail⟩ := List.forall_mem_cons.mp ht
        obtain ⟨hhead',htail'⟩ := List.forall_mem_cons.mp ht'
        obtain ⟨hname,hvalue⟩ := hf _ _ _ _ hhead hhead' he
        exact congrArg₂ List.cons (Prod.ext hname hvalue) (ih htail htail')

section
variable {α β : Type} {toJson : β → Json} {x x' : β}

/-- What stands in a table of a symbol can be read off from the member that the table is written
as. -/
theorem Readable.part {P : String → α → Prop} {f : α → Json} {g : α → α} (hf : Readable P f g)
    (k : String) {t : β → Table α} (hx : (t x).All P) (hx' : (t x').All P)
    (h : (toJson x).Same (toJson x')) (hk : ∀ x, (toJson x).member? k = some (listOf f (t x))) :
    (t x).mapValues g = (t x').mapValues g :=
  hf.table hx hx' (h.members (hk x) (hk x'))

theorem flag_eq {b : β → Bool} (k : String) (h : (toJson x).Same (toJson x'))
    (hk : ∀ x, (toJson x).member? k = flagged (b x)) : b x = b x' :=
  flagged_inj (h.members (hk x) (hk x'))

theorem Common.Told.type_eq {p p' : Place} {c c' : Common} (hc : c.Told p) (hc' : c'.Told p')
    (hp : p.isOperation = false) (hp' : p'.isOperation = false)
    (h : Option.Rel Same (typed c.type) (typed c'.type)) : c.type = c'.type := by
  have hbare : ∀ {p : Place} {c : Common}, c.Told p → p.isOperation = false →
      ¬ c.type.isValid = true → c.type = {} := by
    intro p c hc hp hvalid
    cases hhas : p.hasType with
    | false => exact hc.bare hhas
    | true => exact absurd (hc.valid hhas hp) hvalid
  unfold typed at h
  split at h <;> split at h <;> cases h
  · rename_i h
    exact TypeExpr.toJson_inj hc.unresolved hc'.unresolved h
  · rename_i hvalid hvalid'
    rw [hbare hc hp hvalid,hbare hc' hp' hvalid']

/-- The name and the type of a symbol can be read off from its export. -/
theorem Common.Told.read {c : β → Common} {p p' : Place} {n n' : String} (hx : (c x).Told p)
    (hx' : (c x').Told p') (hp : p.isOperation = false ∧ p.name? = some n)
    (hp' : p'.isOperation = false ∧ p'.name? = some n') (h : (toJson x).Same (toJson x'))
    (hname : ∀ x, (toJson x).member? "name" = written (c x).name)
    (htype : ∀ x, (toJson x).member? "type" = typed (c x).type) :
    n = n' ∧ (c x).exported = (c x').exported := by
  have hnames := written_inj (h.members (hname x) (hname x'))
  have htypes := hx.type_eq hx' hp.1 hp'.1 (h.members (htype x) (htype x'))
  have hn := hx.name
  have hn' := hx'.name
  rw [hp.2] at hn
  rw [hp'.2] at hn'
  refine ⟨hn.symm.trans (hnames.trans hn'),?_⟩
  rw [Common.exported,Common.exported,hnames,htypes]

end

theorem Parameter.readable {place : String → Place}
    (hplace : ∀ n, (place n).isOperation = false ∧ (place n).name? = some n) :
    Readable (fun n x => x.common.Told (place n)) toJson exported := by
  intro n n' x x' hx hx' h
  obtain ⟨hnames,hcommon⟩ :=
    hx.read (c := Parameter.common) hx' (hplace n) (hplace n') h (by simp) (by simp)
  exact ⟨hnames,congrArg Parameter.mk hcommon⟩

section
variable {i : String}

theorem Property.readable : Readable (fun n x => x.common.Told (.property i n)) toJson exported := by
  intro n n' x x' hx hx' h
  obtain ⟨hnames,hcommon⟩ :=
    hx.read (c := Property.common) hx' ⟨rfl,rfl⟩ ⟨rfl,rfl⟩ h (by simp) (by simp)
  have hreadonly := flag_eq (b := Property.readonly) "readonly" h (by simp)
  have hconst := flag_eq (b := Property.const) "const" h (by simp)
  rw [exported,exported,hcommon,hreadonly,hconst]
  exact ⟨hnames,rfl⟩

theorem Operation.member?_type (x : Operation) :
    x.toJson.member? "type" = some x.common.type.toJson := by
  by_cases hvalid : x.common.type.isValid = true
  · simp [typed,hvalid]
  · simp [typed,hvalid]

theorem Operation.readable : Readable (Operation.Each Common.Told i) toJson exported := by
  intro n n' x x' hx hx' h
  have hname : Option.Rel Same (written x.common.name) (written x'.common.name) := by
    have hnone : ∀ t : TypeExpr, (if t.isValid then [] else [("type", t.toJson)]).lookup "name" =
        none := by
      intro t
      split <;> rfl
    simpa [hnone] using h.member "name"
  have htype := h.members x.member?_type x'.member?_type
  cases htype with
  | some htype =>
    have hname := written_inj hname
    obtain rfl : n = n' := hx.own.name.symm.trans (hname.trans hx'.own.name)
    have hparameters :=
      (Parameter.readable fun _ => ⟨rfl,rfl⟩).part (t := Operation.parameters) "parameters"
      hx.parameters hx'.parameters h (by simp)
    rw [exported,exported,hparameters,Common.exported,Common.exported,hname,
      TypeExpr.toJson_inj hx.own.unresolved hx'.own.unresolved htype]
    exact ⟨rfl,rfl⟩

theorem Signal.readable : Readable (Signal.Each Common.Told i) toJson exported := by
  intro n n' x x' hx hx' h
  obtain ⟨rfl,hcommon⟩ :=
    hx.own.read (c := Signal.common) hx'.own ⟨rfl,rfl⟩ ⟨rfl,rfl⟩ h (by simp) (by simp)
  have hparameters :=
    (Parameter.readable fun _ => ⟨rfl,rfl⟩).part (t := Signal.parameters) "parameters" hx.parameters
    hx'.parameters h (by simp)
  rw [exported,exported,hcommon,hparameters]
  exact ⟨rfl,rfl⟩

theorem Field.readable : Readable (fun n x => x.common.Told (.field i n)) toJson exported := by
  intro n n' x x' hx hx' h
  obtain ⟨hnames,hcommon⟩ :=
    hx.read (c := Field.common) hx' ⟨rfl,rfl⟩ ⟨rfl,rfl⟩ h (by simp) (by simp)
  rw [exported,exported,hcommon]
  exact ⟨hnames,rfl⟩

theorem Member.readable : Readable (fun n x => x.common.Told (.member i n)) toJson exported := by
  intro n n' x x' hx hx' h
  obtain ⟨hnames,hcommon⟩ :=
    hx.read (c := Member.common) hx' ⟨rfl,rfl⟩ ⟨rfl,rfl⟩ h (by simp) (by simp)
  have hvalue : Option.Rel Same (some (.int x.value)) (some (.int x'.value)) := by
    simpa using h.member "value"
  have hvalue : x.value = x'.value := by
    cases hvalue with
    | some hvalue => exact hvalue.int_inj
  rw [exported,exported,hcommon,hvalue]
  exact ⟨hnames,rfl⟩

end

theorem Interface.readable : Readable (Interface.Each Common.Told) toJson exported := by
  intro n n' x x' hx hx' h
  obtain ⟨rfl,hcommon⟩ :=
    hx.own.read (c := Interface.common) hx'.own ⟨rfl,rfl⟩ ⟨rfl,rfl⟩ h (by simp) (by simp)
  have hproperties := Property.readable.part (t := Interface.properties) "properties" hx.properties
    hx'.properties h (by simp)
  have hoperations := Operation.readable.part (t := Interface.operations) "operations" hx.operations
    hx'.operations h (by simp)
  have hsignals :=
    Signal.readable.part (t := Interface.signals) "signals" hx.signals hx'.signals h (by simp)
  rw [exported,exported,hcommon,hproperties,hoperations,hsignals]
  exact ⟨rfl,rfl⟩

theorem Struct.readable : Readable (Struct.Each Common.Told) toJson exported := by
  intro n n' x x' hx hx' h
  obtain ⟨rfl,hcommon⟩ :=
    hx.own.read (c := Struct.common) hx'.own ⟨rfl,rfl⟩ ⟨rfl,rfl⟩ h (by simp) (by simp)
  have hfields := Field.readable.part (t := Struct.fields) "fields" hx.fields hx'.fields h (by simp)
  rw [exported,exported,hcommon,hfields]
  exact ⟨rfl,rfl⟩

theorem Enum.readable : Readable (Enum.Each Common.Told) toJson exported := by
  intro n n' x x' hx hx' h
  obtain ⟨rfl,hcommon⟩ :=
    hx.own.read (c := Enum.common) hx'.own ⟨rfl,rfl⟩ ⟨rfl,rfl⟩ h (by simp) (by simp)
  have henum := flag_eq (b := Enum.isEnum) "enum" h (by simp)
  have hflag := flag_eq (b := Enum.isFlag) "flag" h (by simp)
  have hmembers :=
    Member.readable.part (t := Enum.members) "members" hx.members hx'.members h (by simp)
  rw [exported,exported,hcommon,henum,hflag,hmembers]
  exact ⟨rfl,rfl⟩

/-- Two modules whose exports are the same differ only in what is not exported. -/
theorem Module.exported_eq {m' : Module} (hm : m.Told) (hm' : m'.Told)
    (h : m.toJson.Same m'.toJson) :
    m.exported = m'.exported := by
  have hname : Option.Rel Same (written m.common.name) (written m'.common.name) := by
    simpa using h.member "name"
  have hversion : Option.Rel Same (some (.text m.version)) (some (.text m'.version)) := by
    simpa using h.member "version"
  have hversion : m.version = m'.version := by
    cases hversion with
    | some hversion => exact hversion.text_inj
  have hinterfaces := Interface.readable.part (t := Module.interfaces) "interfaces" hm.interfaces
    hm'.interfaces h (by simp)
  have hstructs :=
    Struct.readable.part (t := Module.structs) "structs" hm.structs hm'.structs h (by simp)
  have henums := Enum.readable.part (t := Module.enums) "enums" hm.enums hm'.enums h (by simp)
  rw [exported,exported,hinterfaces,hstructs,henums,hversion,Common.exported,Common.exported,
    written_inj hname,hm.own.bare rfl,hm'.own.bare rfl]

/-- Every property, parameter, field and operation is written with its type. -/
structure Module.TypesWritten (m : Module) : Prop where
  properties : ∀ i ∈ m.interfaces.values, ∀ p ∈ i.properties.values,
    p.toJson.member? "type" = some p.common.type.toJson
  operations : ∀ i ∈ m.interfaces.values, ∀ o ∈ i.operations.values,
    o.toJson.member? "type" = some o.common.type.toJson ∧
      ∀ p ∈ o.parameters.values, p.toJson.member? "type" = some p.common.type.toJson
  signals : ∀ i ∈ m.interfaces.values, ∀ s ∈ i.signals.values, ∀ p ∈ s.parameters.values,
    p.toJson.member? "type" = some p.common.type.toJson
  fields : ∀ s ∈ m.structs.values, ∀ f ∈ s.fields.values,
    f.toJson.member? "type" = some f.common.type.toJson

theorem Table.All.value {t : Table α} (h : t.All P) {a : α} (ha : a ∈ t.values) : ∃ n, P n a := by
  obtain ⟨e,he,rfl⟩ := List.mem_map.mp ha
  exact ⟨e.1,h e he⟩

theorem Module.Told.typesWritten (h : m.Told) : m.TypesWritten := by
  have hwritten : ∀ {p : Place} {c : Common}, c.Told p → p.hasType = true → p.isOperation = false →
      typed c.type = some c.type.toJson := fun hc hp hp' => if_pos (hc.valid hp hp')
  constructor
  · intro i hi p hp
    obtain ⟨_,hi⟩ := h.interfaces.value hi
    obtain ⟨_,hp⟩ := hi.properties.value hp
    simp [hwritten hp rfl rfl]
  · intro i hi o ho
    obtain ⟨_,hi⟩ := h.interfaces.value hi
    obtain ⟨_,ho⟩ := hi.operations.value ho
    refine ⟨o.member?_type,fun p hp => ?_⟩
    obtain ⟨_,hp⟩ := ho.parameters.value hp
    simp [hwritten hp rfl rfl]
  · intro i hi s hs p hp
    obtain ⟨_,hi⟩ := h.interfaces.value hi
    obtain ⟨_,hs⟩ := hi.signals.value hs
    obtain ⟨_,hp⟩ := hs.parameters.value hp
    simp [hwritten hp rfl rfl]
  · intro s hs f hf
    obtain ⟨_,hs⟩ := h.structs.value hs
    obtain ⟨_,hf⟩ := hs.fields.value hf
    simp [hwritten hf rfl rfl]

end Model

end InterfaceKit
