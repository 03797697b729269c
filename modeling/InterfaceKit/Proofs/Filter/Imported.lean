import InterfaceKit.Proofs.Filter.Writable

/-!
# Types of other modules in generated code

A type of another module is spelt with the name of that module, and code is generated from the
spelling. So the dots of the module's name get into texts for C++, except into lists and into first
values of interfaces. In QML a first value names the module of the symbol that has the type, and not
the one that declares it.
-/
namespace InterfaceKit
open Data Model Inquiry

namespace Model

/-! ## Spellings -/

section
variable {s : System} {t : TypeHandle} {k : Handle} {m m' : Module} {l : Layer} {d : Common}

section
variable (hs : s.Sound) (hl : s.layer? t = some l) (hk : s.referent? t = some (.symbol k))
  (hplace : k.place ≠ .module) (hm : s.module? t.owner.module = some m)
  (hm' : s.module? k.module = some m') (hd : m'.common? k.place = some d)
include hs hl hk hplace hm hm' hd

theorem System.Sound.qualify_eq : m'.qualify d.name = m.qualify l.name := by
  obtain ⟨m₁,l₁,m₂,d₁,hm₁,hl₁,hm₂,hd₁,-,hqualify⟩ := hs.qualify_referent hk hplace
  obtain rfl := Option.some.inj (hm.symm.trans hm₁)
  obtain rfl := Option.some.inj (hl.symm.trans hl₁)
  obtain rfl := Option.some.inj (hm'.symm.trans hm₂)
  obtain rfl := Option.some.inj (hd.symm.trans hd₁)
  exact hqualify

/-- A type is spelt like the symbol that it refers to, and this is one of its own module, or it is
spelt with the name of the module that declares it. -/
theorem System.Sound.spelling_cases (hdot : '.' ∉ d.name.toList) :
    '.' ∉ l.name.toList ∧ l.name = d.name ∧ m.name = m'.name ∨
      '.' ∈ l.name.toList ∧ l.name = m'.name ++ "." ++ d.name := by
  have hqualify := hs.qualify_eq hl hk hplace hm hm' hd
  rw [Module.qualify,Module.qualify,if_neg (by simpa using hdot)] at hqualify
  by_cases hl : '.' ∈ l.name.toList
  · rw [if_pos (by simpa using hl)] at hqualify
    exact .inr ⟨hl,hqualify.symm⟩
  · rw [if_neg (by simpa using hl)] at hqualify
    have hsplit : (m'.name ++ "." ++ d.name).toList = m'.name.toList ++ '.' :: d.name.toList := by
      simp
    have hsplit' : (m.name ++ "." ++ l.name).toList = m.name.toList ++ '.' :: l.name.toList := by
      simp
    have hparts := Text.splitLast?_append m'.name.toList hdot
    rw [← hsplit,hqualify,hsplit',Text.splitLast?_append _ hl] at hparts
    obtain ⟨hname,hspelling⟩ := Prod.mk.inj (Option.some.inj hparts)
    exact .inl ⟨hl,String.toList_inj.mp hspelling,String.toList_inj.mp hname⟩

/-- Where a declared name may have dots too, the spelling may also be the shorter one. -/
theorem System.Sound.spelling_or_qualified :
    l.name = d.name ∨ l.name = m'.name ++ "." ++ d.name ∨ d.name = m.name ++ "." ++ l.name := by
  by_cases hdot : '.' ∈ d.name.toList
  · have hqualify := hs.qualify_eq hl hk hplace hm hm' hd
    rw [Module.qualify,Module.qualify,if_pos (by simpa using hdot)] at hqualify
    split at hqualify
    · exact .inl hqualify.symm
    · exact .inr (.inr hqualify)
  · rcases hs.spelling_cases hl hk hplace hm hm' hd hdot with ⟨-,hname,-⟩ | ⟨-,hname⟩
    · exact .inl hname
    · exact .inr (.inl hname)

end

theorem Module.Named.dot_notMem_members (hm : m.Named)
    (hnames : ∀ p c, p ≠ .module → m.common? p = some c → '.' ∉ c.name.toList) {e : String}
    {x : Enum} (hx : m.enums.get? e = some x) :
    ∀ name ∈ x.members.values.map (·.common.name), '.' ∉ name.toList := by
  intro name hname
  obtain ⟨y,hy,rfl⟩ := List.mem_map.mp hname
  obtain ⟨⟨key,z⟩,hmem,rfl⟩ := List.mem_map.mp hy
  have hmembers := (hm.enums.get? hx).members
  have hkey : z.common.name = key := (hmembers _ hmem).1
  cases hget : x.members.get? key with
  | none => exact absurd (List.mem_map_of_mem hmem) (Table.get?_eq_none_iff.mp hget)
  | some y =>
    have hcommon : m.common? (.member e key) = some y.common := by simp [common?,hx,hget]
    have hdot := hnames (.member e key) y.common (by simp) hcommon
    rw [(hmembers.get? hget).1] at hdot
    rw [hkey]
    exact hdot

end

/-! ## Dots -/

def Meaning.isDeclared : Meaning → Bool
  | enumeration _ _ | struct | interface => true
  | _ => false

theorem Meaning.isWritable_of_isDeclared {m : Meaning} (h : m.isDeclared = true) :
    m.isWritable = true := by
  cases m with
  | enumeration | struct | interface => rfl
  | _ => cases h

theorem Meaning.dot_mem_passed (m : Meaning) (type name : String) :
    '.' ∈ (m.passed type name).toList ↔ '.' ∈ type.toList ∨ '.' ∈ name.toList := by
  unfold passed
  split <;> simp

theorem Meaning.dot_mem_first {m : Meaning} {type text : String}
    (hm : m = .list ∨ m.isDeclared = true)
    (hmembers : ∀ plain members, m = .enumeration plain members → ∀ e ∈ members, '.' ∉ e.toList)
    (h : m.first? type = some text) : '.' ∈ text.toList ↔ '.' ∈ type.toList ∧ m ≠ .interface := by
  cases m with
  | enumeration plain members =>
    obtain ⟨e,he,rfl⟩ := Option.map_eq_some_iff.mp h
    have hdot := hmembers plain members rfl e (List.mem_of_head? he)
    simp [hdot]
  | list | struct | interface =>
    obtain rfl := Option.some.inj h
    simp
  | _ => simp [isDeclared] at hm

theorem TypeFacts.dot_mem_text {x : TypeFacts} (hx : x.meaning.isDeclared = true)
    (cppPrefix : String) :
    '.' ∈ (x.text cppPrefix).toList ↔ '.' ∈ x.spelling.toList ∨ x.meaning = .struct ∧
    '.' ∈ cppPrefix.toList := by
  rw [text]
  cases hm : x.meaning with
  | enumeration plain members => simp
  | struct => simp [or_comm]
  | interface => simp
  | _ =>
    rw [hm] at hx
    cases hx

namespace System
variable {s : System} {t : TypeHandle} {k : Handle} {m' : Module} {l : Layer}

theorem Sound.isDeclared_meaning (hs : s.Sound) (hl : s.layer? t = some l) (hc : l.isComplex = true)
    (hk : s.referent? t = some (.symbol k)) (htype : (Entity.symbol k).isType = true) :
    (s.meaning t).isDeclared = true := by
  obtain ⟨id,p⟩ := k
  rw [meaning_of_complex hl hc,referentMeaning,hk]
  cases p with
  | enum e =>
    obtain ⟨x,hx⟩ := hs.exists_enumeration hk
    simp only [hx]
    rfl
  | struct | interface => rfl
  | _ => cases htype

theorem Sound.list_or_isDeclared (hs : s.Sound) (h : (s.meaning (s.element t)).isDeclared = true) :
    s.meaning t = .list ∨ (s.meaning t).isDeclared = true := by
  by_cases hlist : s.meaning t = .list
  · exact .inl hlist
  · rw [hs.element_self hlist] at h
    exact .inr h

theorem Sound.dot_mem_text (hs : s.Sound) (hl : s.layer? (s.element t) = some l)
    (hdeclared : (s.meaning (s.element t)).isDeclared = true) (cppPrefix : String) :
    '.' ∈ ((s.facts t).text cppPrefix).toList ↔
      s.meaning t ≠ .list ∧ '.' ∈ l.name.toList ∨ s.meaning t = .struct ∧
      '.' ∈ cppPrefix.toList := by
  by_cases hlist : s.meaning t = .list
  · have htext : (s.facts t).text cppPrefix = "QVariantList" := by
      simp only [TypeFacts.text,show (s.facts t).meaning = .list from hlist]
    rw [htext,hlist]
    simp
  · rw [hs.element_self hlist] at hl hdeclared
    have hspelling : (s.facts t).spelling = l.name := by
      rw [facts,hl]
      rfl
    rw [TypeFacts.dot_mem_text hdeclared,hspelling]
    simp only [ne_eq,hlist,not_false_eq_true,true_and]
    rfl

/-- The members that a type means are symbols of the module that declares it. -/
theorem Sound.dot_notMem_members (hs : s.Sound) (hl : s.layer? (s.element t) = some l)
    (hc : l.isComplex = true) (hk : s.referent? (s.element t) = some (.symbol k))
    (hm' : s.module? k.module = some m') (hnames : ∀ p c, p ≠ .module → m'.common? p = some c →
      '.' ∉ c.name.toList) {plain : Bool} {members : List String}
    (hm : s.meaning t = .enumeration plain members) : ∀ e ∈ members, '.' ∉ e.toList := by
  rw [hs.element_self (by rw [hm]; nofun)] at hl hk
  obtain ⟨id,p⟩ := k
  rw [meaning_of_complex hl hc,referentMeaning,hk] at hm
  cases p with
  | enum e =>
    obtain ⟨x,hx⟩ := hs.exists_enumeration hk
    simp only [hx] at hm
    obtain ⟨-,rfl⟩ := Meaning.enumeration.inj hm
    rw [enumeration?,hm',Option.bind_some,Module.enumeration?] at hx
    obtain ⟨y,hy,rfl⟩ := Option.map_eq_some_iff.mp hx
    exact (hs.named.module hm').dot_notMem_members hnames hy
  | _ => cases hm

end System

end Model

/-! ## First values in QML -/

theorem Qml.create_qualified_ne (own declaring qualifier name : String) :
    own ++ "Module.create" ++ (qualifier ++ "." ++ name) ++ "()" ≠ declaring ++ "Module.create" ++
      name ++ "()" := by
  intro h
  have hchars : (own.toList ++ "Module.create".toList ++ qualifier.toList ++ ['.']) ++
    (name.toList ++ "()".toList) =
      (declaring.toList ++ "Module.create".toList) ++ (name.toList ++ "()".toList) := by
    simpa using congrArg String.toList h
  have hlast := congrArg List.getLast? (List.append_cancel_right hchars)
  rw [List.getLast?_concat] at hlast
  simp at hlast

namespace Model

section
variable {x : TypeFacts}

theorem TypeFacts.qmlFirst?_enumeration {first : String} {rest : List String}
    (h : x.meaning = .enumeration true (first :: rest)) :
    x.qmlFirst? = fun name => some (name ++ "Module." ++ first) := by
  funext name
  simp only [qmlFirst?,h]
  rfl

theorem TypeFacts.qmlFirst?_struct (h : x.meaning = .struct) :
    x.qmlFirst? = fun name => some (name ++ "Module.create" ++ x.spelling ++ "()") := by
  funext name
  simp only [qmlFirst?,h]

end

namespace System
variable {s : System} {t : TypeHandle} {k : Handle} {l : Layer} {e : String}
  (hl : s.layer? t = some l) (hc : l.isComplex = true) (hk : s.referent? t = some (.symbol k))
include hl hc hk

theorem meaning_of_enum {plain : Bool} {members : List String} (hplace : k.place = .enum e)
    (hmembers : s.enumeration? k.module e = some (plain, members)) :
    s.meaning t = .enumeration plain members := by
  obtain ⟨id,p⟩ := k
  obtain rfl : p = .enum e := hplace
  rw [meaning_of_complex hl hc,referentMeaning,hk]
  simp only [hmembers]
  rfl

theorem meaning_of_struct (hplace : k.place = .struct e) : s.meaning t = .struct := by
  obtain ⟨id,p⟩ := k
  obtain rfl : p = .struct e := hplace
  rw [meaning_of_complex hl hc,referentMeaning,hk]

end System

end Model

namespace Workspace.Parsed
variable {w : Workspace} {n : Nat} {ids : List Nat} {h k : Handle} {m m' : Module} {l : Layer}
  {d : Common}

/-- A type that is declared without dots has a dot in its text if and only if it is spelt with the
name of a module, and all types of modules with other names are; a list shows nothing of this, and a
structure shows the prefix of classes. The name of the symbol goes into the text of a parameter, and
the first value of an interface shows nothing of its type. -/
theorem dot_mem_cpp_texts_iff (hw : w.Parsed n ids) (hplace : h.place.hasType = true)
    (hl : (w.systemAt n).layer? ((w.systemAt n).element ⟨h,0⟩) = some l) (hc : l.isComplex = true)
    (hk : (w.systemAt n).referent? ((w.systemAt n).element ⟨h,0⟩) = some (.symbol k))
    (htype : (Entity.symbol k).isType = true) (hm : (w.systemAt n).module? h.module = some m)
    (hm' : (w.systemAt n).module? k.module = some m') (hd : m'.common? k.place = some d)
    (hnames : ∀ p c, p ≠ .module → m'.common? p = some c → '.' ∉ c.name.toList) :
    let v := Value.entity n (.symbol h)
    let meaning := (w.systemAt n).meaning ⟨h,0⟩
    (l.name = m'.name ++ "." ++ d.name ∨ l.name = d.name ∧ m.name = m'.name) ∧
      ∃ returned parameter, ((Cpp.returnType v).act.run w).1 = .ok returned ∧
        ((Cpp.parameterType v).act.run w).1 = .ok parameter ∧
        ('.' ∈ returned.toList ↔ meaning ≠ .list ∧ l.name = m'.name ++ "." ++ d.name ∨
          meaning = .struct ∧ '.' ∈ w.cppPrefix.toList) ∧
        ('.' ∈ parameter.toList ↔ '.' ∈ returned.toList ∨
          '.' ∈ (w.entityName n (.symbol h)).toList) ∧
        ∀ text, ((Cpp.defaultValue v).act.run w).1 = .ok text →
          ('.' ∈ text.toList ↔ '.' ∈ returned.toList ∧ meaning ≠ .interface) := by
  intro v meaning
  have hs := hw.retains.sound
  have hnot := hs.not_dangles_of_referent (Option.isSome_of_eq_some hk)
  have hdeclared := hs.isDeclared_meaning hl hc hk htype
  have hplace' : k.place ≠ .module := by
    obtain ⟨id,p⟩ := k
    rintro rfl
    cases htype
  have hcases := hs.spelling_cases hl hk hplace' hm hm' hd (hnames _ _ hplace' hd)
  have hdotted : '.' ∈ l.name.toList ↔ l.name = m'.name ++ "." ++ d.name := by
    rcases hcases with ⟨hdot,-⟩ | ⟨hdot,hname⟩
    · refine iff_of_false hdot fun hname => hdot ?_
      simp [hname]
    · exact iff_of_true hdot hname
  have hreturned : ((w.systemAt n).facts ⟨h,0⟩).returned w.cppPrefix =
      .ok (((w.systemAt n).facts ⟨h,0⟩).text w.cppPrefix) :=
        if_pos (Meaning.isWritable_of_isDeclared hdeclared)
  refine ⟨?_,_,_,(firm_returnType hs hnot).now.trans hreturned,
    (firm_parameterType hs hnot).now.trans (congrArg _ hreturned),?_,Meaning.dot_mem_passed ..,
      fun text htext => ?_⟩
  · rcases hcases with ⟨-,hname⟩ | ⟨-,hname⟩
    · exact .inr hname
    · exact .inl hname
  · rw [hs.dot_mem_text hl hdeclared,hdotted]
  · have hfirst := outcome_defaultValue hs hnot hplace
    rw [htext,hreturned] at hfirst
    exact Meaning.dot_mem_first (hs.list_or_isDeclared hdeclared)
      (fun plain members hm => hs.dot_notMem_members hl hc hk hm' hnames hm) hfirst.symm

/-- A structure of another module. -/
theorem imported_struct_has_dot :
    let w₀ := (Act.newSystem.run {}).2
    let declaring := "module a 1.0 struct S \x7b \x7d"
    let importing := "module b 1.0 import a 1.0 interface I \x7b a.S p \x7d"
    let w₁ := ((Act.readSystemText 0 .full declaring).run w₀).2
    let w := ((Act.readSystemText 0 .full importing).run w₁).2
    let v := Value.entity 0 (.symbol ⟨1,.property "I" "p"⟩)
    w.Parsed 0 [] ∧ ∃ returned, ((Cpp.returnType v).act.run w).1 = .ok returned ∧
      '.' ∈ returned.toList ∧
      ∀ initial, ((Cpp.defaultValue v).act.run w).1 = .ok initial → '.' ∈ initial.toList := by
  intro w₀ declaring importing w₁ w v
  let s := w.systemAt 0
  let p : Handle := ⟨1,.property "I" "p"⟩
  have hread : s.element ⟨p,0⟩ = ⟨p,0⟩ ∧ s.layer? ⟨p,0⟩ = some (.complex "a.S") ∧
      s.referent? ⟨p,0⟩ = some (.symbol ⟨0,.struct "S"⟩) ∧ s.meaning ⟨p,0⟩ = .struct ∧
        (s.module? 1).isSome = true ∧
      (s.common? ⟨0,.struct "S"⟩).isSome = true ∧
      (s.module? 0).map (fun m => (m.name, m.interfaces.names ++ m.enums.names)) = some ("a", []) ∧
      (s.module? 0).map (fun m => m.structs.map fun e => (e.2.common.name, e.2.fields.names)) =
        some [("S", [])] := by
    decide +kernel
  obtain ⟨helement,hlayer,hreferent,hmeaning,hsome,hdeclared,hnone,hstructs⟩ := hread
  obtain ⟨m,hm⟩ := Option.isSome_iff_exists.mp hsome
  obtain ⟨m',hm',hempty⟩ := Option.map_eq_some_iff.mp hnone
  rw [hm',Option.map_some,Option.some.injEq] at hstructs
  rw [System.common?,hm',Option.bind_some] at hdeclared
  obtain ⟨d,hd⟩ := Option.isSome_iff_exists.mp hdeclared
  obtain ⟨hname,htables⟩ := Prod.mk.inj hempty
  obtain ⟨hinterfaces,henums⟩ := List.append_eq_nil_iff.mp htables
  have hstruct : ∀ n x, m'.structs.get? n = some x → x.common.name = "S" ∧ x.fields.names = [] := by
    intro n x hx
    have hmem :=
      List.mem_map_of_mem (f := fun e => (e.2.common.name, e.2.fields.names)) (Table.mem_of_get? hx)
    rw [hstructs,List.mem_singleton,Prod.mk.injEq] at hmem
    exact hmem
  have hnames : ∀ q c, q ≠ .module → m'.common? q = some c → c.name = "S" := by
    intro q c hq hc
    have hinterface : ∀ i, m'.interfaces.get? i = none := fun i =>
      Table.get?_eq_none_iff.mpr (by simp [hinterfaces])
    have henum : ∀ e, m'.enums.get? e = none := fun e =>
      Table.get?_eq_none_iff.mpr (by simp [henums])
    cases q with
    | module => exact absurd rfl hq
    | struct n =>
        obtain ⟨x,hx,rfl⟩ := Option.map_eq_some_iff.mp hc
        exact (hstruct n x hx).1
    | field n y =>
        obtain ⟨x,hx,hy⟩ := Option.bind_eq_some_iff.mp hc
        have hfield : x.fields.get? y = none :=
          Table.get?_eq_none_iff.mpr (by simp [(hstruct n x hx).2])
        simp [hfield] at hy
    | _ => simp [Module.common?,hinterface,henum] at hc
  have hnew : w₀.Parsed 0 [] := .new (w := {}) rfl
  have hw : w.Parsed 0 [] :=
    (hnew.revise (.readText 0 .full declaring)).revise (.readText 0 .full importing)
  rw [← helement] at hlayer hreferent
  have hdots : ∀ q c, q ≠ .module → m'.common? q = some c → '.' ∉ c.name.toList := by
    intro q c hq hc
    rw [hnames q c hq hc]
    decide
  obtain ⟨-,returned,parameter,hreturned,-,hdot,-,hinitial⟩ :=
    dot_mem_cpp_texts_iff hw (h := p) rfl hlayer rfl hreferent rfl hm hm' hd hdots
  have hspelling : (Layer.complex "a.S").name = m'.name ++ "." ++ d.name := by
    rw [hname,hnames (.struct "S") d (by decide) hd]
    rfl
  have hmem : '.' ∈ returned.toList := hdot.mpr (.inl ⟨by rw [hmeaning]; decide,hspelling⟩)
  refine ⟨hw,returned,hreturned,hmem,fun initial hfirst => (hinitial initial hfirst).mpr ⟨hmem,?_⟩⟩
  rw [hmeaning]
  decide

/-- In QML a first value names the module of the symbol that has the type. So it names the module
that declares the type if and only if both have the same name there, and a structure must be spelt
without its module besides. -/
theorem qml_first_value_names_declaring_iff (hw : w.Parsed n ids)
    (hl : (w.systemAt n).layer? ⟨h,0⟩ = some l) (hc : l.isComplex = true)
    (hk : (w.systemAt n).referent? ⟨h,0⟩ = some (.symbol k)) (hm :
      (w.systemAt n).module? h.module = some m) (hm' : (w.systemAt n).module? k.module = some m')
    (hd : m'.common? k.place = some d) {declaring : String}
    (hdeclaring : Generic.upperFirstText? m'.shortName = some declaring) :
    let initial := ((Qml.defaultValue (.entity n (.symbol h))).act.run w).1
    let own := Generic.upperFirstText? m.shortName
    (∀ e first rest, k.place = .enum e →
      (w.systemAt n).enumeration? k.module e = some (true, first :: rest) →
      initial.toOption = own.map (· ++ "Module." ++ first) ∧
        (initial = .ok (declaring ++ "Module." ++ first) ↔
          own = Generic.upperFirstText? m'.shortName)) ∧
    ∀ e, k.place = .struct e → initial.toOption = own.map (· ++ "Module.create" ++ l.name ++ "()") ∧
      (initial = .ok (declaring ++ "Module.create" ++ d.name ++ "()") ↔
        own = Generic.upperFirstText? m'.shortName ∧ l.name = d.name) := by
  intro initial own
  have hs := hw.retains.sound
  have hnot := hs.not_dangles_of_referent (Option.isSome_of_eq_some hk)
  rw [hdeclaring]
  refine ⟨fun e first rest hplace hmembers => ?_,fun e hplace => ?_⟩
  · have hmeaning := System.meaning_of_enum hl hc hk hplace hmembers
    have hvalue : initial.toOption = own.map (· ++ "Module." ++ first) := by
      have houtcome := outcome_qmlDefaultValue hs hnot (.inr ⟨_,hmeaning⟩)
      rw [hm,TypeFacts.qmlFirst?_enumeration hmeaning] at houtcome
      exact houtcome.trans Option.map_eq_bind.symm
    refine ⟨hvalue,?_⟩
    rw [eq_ok_iff,hvalue,Option.map_eq_some_iff]
    constructor
    · rintro ⟨name,hname,htext⟩
      obtain rfl : name = declaring := by simpa [← String.toList_inj] using htext
      exact hname
    · exact fun hown => ⟨declaring,hown,rfl⟩
  · have hmeaning := System.meaning_of_struct hl hc hk hplace
    have hvalue : initial.toOption = own.map (· ++ "Module.create" ++ l.name ++ "()") := by
      have houtcome := outcome_qmlDefaultValue hs hnot (.inl hmeaning)
      rw [hm,TypeFacts.qmlFirst?_struct hmeaning] at houtcome
      simp only [System.facts,hl,Option.getD_some] at houtcome
      exact houtcome.trans Option.map_eq_bind.symm
    refine ⟨hvalue,?_⟩
    rw [eq_ok_iff,hvalue,Option.map_eq_some_iff]
    constructor
    · rintro ⟨name,hname,htext⟩
      rcases hs.spelling_or_qualified hl hk (by simp [hplace]) hm hm' hd with
        hspelling | hspelling | hspelling
      · rw [hspelling] at htext
        obtain rfl : name = declaring := by simpa [← String.toList_inj] using htext
        exact ⟨hname,hspelling⟩
      · rw [hspelling] at htext
        exact absurd htext (Qml.create_qualified_ne _ _ _ _)
      · rw [hspelling] at htext
        exact absurd htext.symm (Qml.create_qualified_ne _ _ _ _)
    · rintro ⟨hown,hspelling⟩
      exact ⟨declaring,hown,by rw [hspelling]⟩

/-- A member of an enumeration of another module is looked for in the wrong one. -/
theorem imported_member_names_own_module :
    let w₀ := (Act.newSystem.run {}).2
    let declaring := "module a 1.0 enum E \x7b A \x7d"
    let importing := "module b 1.0 import a 1.0 interface I \x7b a.E p \x7d"
    let w₁ := ((Act.readSystemText 0 .full declaring).run w₀).2
    let w := ((Act.readSystemText 0 .full importing).run w₁).2
    let initial := ((Qml.defaultValue (.entity 0 (.symbol ⟨1,.property "I" "p"⟩))).act.run w).1
    w.Parsed 0 [] ∧ initial = .ok "BModule.A" ∧ initial ≠ .ok "AModule.A" := by
  intro w₀ declaring importing w₁ w initial
  let s := w.systemAt 0
  let p : Handle := ⟨1,.property "I" "p"⟩
  have hread : s.layer? ⟨p,0⟩ = some (.complex "a.E") ∧
    s.referent? ⟨p,0⟩ = some (.symbol ⟨0,.enum "E"⟩) ∧
      s.enumeration? 0 "E" = some (true, ["A"]) ∧ (s.common? ⟨0,.enum "E"⟩).isSome = true ∧
      (s.module? 0).map (fun m => Generic.upperFirstText? m.shortName) = some (some "A") ∧
      (s.module? 1).map (fun m => Generic.upperFirstText? m.shortName) = some (some "B") := by
    decide +kernel
  obtain ⟨hlayer,hreferent,hmembers,hdeclared,hdeclaring,hown⟩ := hread
  obtain ⟨m',hm',hdeclaring⟩ := Option.map_eq_some_iff.mp hdeclaring
  obtain ⟨m,hm,hown⟩ := Option.map_eq_some_iff.mp hown
  rw [System.common?,hm',Option.bind_some] at hdeclared
  obtain ⟨d,hd⟩ := Option.isSome_iff_exists.mp hdeclared
  have hnew : w₀.Parsed 0 [] := .new (w := {}) rfl
  have hw : w.Parsed 0 [] :=
    (hnew.revise (.readText 0 .full declaring)).revise (.readText 0 .full importing)
  obtain ⟨hvalue,hiff⟩ :=
    (qml_first_value_names_declaring_iff hw hlayer rfl hreferent hm hm' hd hdeclaring).1 "E" "A" []
      rfl hmembers
  rw [hown,hdeclaring] at hiff
  rw [hown] at hvalue
  exact ⟨hw,eq_ok_iff.mpr hvalue,fun hinitial => absurd (hiff.mp hinitial) (by decide)⟩

end Workspace.Parsed

end InterfaceKit
