import InterfaceKit.Proofs.Filter.TypeText
import InterfaceKit.Proofs.Model.Meaning

/-!
# Types in C++

What the filters for C++ write of a type is told by what is to be known of it. A parameter and a
first value are written around the type as it is returned; only what stands inside of lists decides
whether it can be written at all.
-/
namespace InterfaceKit
open Data Model Inquiry

/-! ## Symbols that types refer to -/

namespace Model

def Meaning.isEnumeration : Meaning → Bool
  | .enumeration _ _ => true
  | _ => false

/-- Whether an enumeration is no flag, and the names of its members. -/
def Meaning.enumeration? : Meaning → Option (Bool × List String)
  | .enumeration plain members => some (plain, members)
  | _ => none

theorem Meaning.isSome_enumeration? (m : Meaning) : m.enumeration?.isSome = m.isEnumeration := by
  cases m <;> rfl

def Entity.handle? : Entity → Option Handle
  | .system => none
  | .symbol h => some h

namespace System

def target? (s : System) (t : TypeHandle) : Option Handle :=
  if ((s.layer? t).getD {}).isComplex then (s.referent? t).bind Entity.handle? else none

def enumAt? (s : System) : Option Handle → Option Enum
  | some ⟨id,.enum e⟩ => (s.module? id).bind (·.enums.get? e)
  | _ => none

/-- What the symbol that a type refers to tells of the meaning of the type. -/
structure Stands (s : System) (o : Option Handle) (m : Meaning) : Prop where
  enum : (s.enumAt? o).map (fun x => (x.isEnum, x.members.values.map (·.common.name))) =
    m.enumeration?
  struct : o.any (·.place matches .struct _) = decide (m = .struct)
  interface : o.any (·.place matches .interface _) = decide (m = .interface)

theorem stands (s : System) (t : TypeHandle) : s.Stands (s.target? t) (s.meaning t) := by
  unfold target? meaning
  cases s.layer? t with
  | none => exact ⟨rfl,rfl,rfl⟩
  | some l =>
    rw [Option.getD_some,Option.elim_some]
    cases hc : l.isComplex with
    | false =>
      rw [Meaning.ofLayer,hc,if_neg Bool.false_ne_true,if_neg Bool.false_ne_true]
      repeat' split
      all_goals exact ⟨rfl,rfl,rfl⟩
    | true =>
      have hreferent : Meaning.ofLayer l (s.referentMeaning t) = s.referentMeaning t := if_pos hc
      rw [hreferent,referentMeaning]
      rcases s.referent? t with _ | (_ | ⟨id,p⟩)
      · exact ⟨rfl,rfl,rfl⟩
      · exact ⟨rfl,rfl,rfl⟩
      · cases p with
        | enum e =>
          have hinfo : s.enumeration? id e = ((s.module? id).bind (·.enums.get? e)).map fun x =>
              (x.isEnum, x.members.values.map (·.common.name)) := by
            rw [enumeration?]
            cases s.module? id <;> rfl
          simp only [hinfo]
          cases hx : (s.module? id).bind (·.enums.get? e) with
          | none | some x => exact ⟨congrArg (Option.map _) hx,rfl,rfl⟩
        | _ => exact ⟨rfl,rfl,rfl⟩

end System

end Model

/-! ## Tests of types that have been asked -/

namespace Inquiry
variable {α β : Type} {x : Inquiry α} {f : α → Inquiry β} {w : Workspace} {n : Nat} {t : TypeHandle}

/-- The inquiry has this outcome and leaves the workspace as it is. -/
def Gives (w : Workspace) (x : Inquiry α) (r : Except Failure α) : Prop := x.act.run w = (r, w)

theorem run_after {a : α} (hx : x.act.run w = (.ok a, w)) :
    (x >>= f).act.run w = (f a).act.run w := by
  rw [act_bind,run_bind,hx]

theorem Gives.after {a : α} {r : Except Failure β} (hx : x.act.run w = (.ok a, w))
    (h : Gives w (f a) r) :
    Gives w (x >>= f) r := (run_after hx).trans h

/-- The inquiry leaves the workspace as it is, and this comes out unless it fails, but not for a
name that cannot be looked up. -/
def Yields (w : Workspace) (x : Inquiry α) (o : Option α) : Prop :=
  ∃ r, Gives w x r ∧ r.toOption = o ∧ ∀ name, r ≠ .error (.unknownName name)

theorem Yields.still {o : Option α} (h : Yields w x o) : Still w x := by
  obtain ⟨r,hr,-,hname⟩ := h
  exact ⟨r,hr,hname⟩

theorem Yields.ok {a : α} {o : Option α} (h : Gives w x (.ok a)) (ho : some a = o) : Yields w x o :=
  ⟨_,h,ho,nofun⟩

theorem Yields.exhausted (h : Gives w x (.error .exhausted)) : Yields w x none := ⟨_,h,rfl,nofun⟩

theorem Yields.unknownKind {detail : String} (h : Gives w x (.error (.unknownKind detail))) :
    Yields w x none :=
  ⟨_,h,rfl,nofun⟩

theorem Yields.after {a : α} {o : Option β} (hx : x.act.run w = (.ok a, w)) (h : Yields w (f a) o) :
    Yields w (x >>= f) o := by
  obtain ⟨r,hr,ho⟩ := h
  exact ⟨r,.after hx hr,ho⟩

theorem run_target (h : w.Answered n t) :
    (target n t).act.run w = (.ok ((w.systemAt n).target? t), w) := by
  refine Gives.after (run_layer w n t) ?_
  rw [System.target?]
  cases hc : (((w.systemAt n).layer? t).getD {}).isComplex with
  | false => rfl
  | true =>
    cases hl : (w.systemAt n).layer? t with
    | none =>
      rw [hl] at hc
      cases hc
    | some l =>
      rw [hl] at hc
      have hsettled := h l hl hc
      have hreferent :
          (w.systemAt n).referent? t = ((w.systemAt n).layer? t).bind (·.resolution.target) := by
        rw [Workspace.Settled,Workspace.run_reference] at hsettled
        rw [System.referent?,(Prod.mk.inj hsettled).1]
        rfl
      refine Gives.after hsettled ?_
      rw [hreferent]
      rcases ((w.systemAt n).layer? t).bind (·.resolution.target) with _ | (_ | e) <;> rfl

section
variable (h : w.Answered n t)
include h

theorem exists_targetEnum : ∃ e, (targetEnum n t).act.run w = (.ok e, w) ∧
    e.map (fun x => (x.isEnum, x.members.values.map (·.common.name))) =
      ((w.systemAt n).meaning t).enumeration? := by
  refine ⟨_,Gives.after (run_target h) ?_,((w.systemAt n).stands t).enum⟩
  rcases (w.systemAt n).target? t with _ | ⟨id,p⟩
  · rfl
  · cases p <;> rfl

theorem run_isEnumeration :
    (isEnumeration n t).act.run w = (.ok ((w.systemAt n).meaning t).isEnumeration, w) := by
  obtain ⟨e,he,hm⟩ := exists_targetEnum h
  rw [← Meaning.isSome_enumeration?,← hm,Option.isSome_map]
  exact Gives.after he rfl

theorem run_isEnum : (isEnum n t).act.run w =
    (.ok ((((w.systemAt n).meaning t).enumeration?.map (·.1)).getD false), w) := by
  obtain ⟨e,he,hm⟩ := exists_targetEnum h
  rw [← hm,Option.map_map]
  exact Gives.after he rfl

theorem run_isFlag (hm : ((w.systemAt n).meaning t).isEnumeration = false) :
    (isFlag n t).act.run w = (.ok false, w) := by
  obtain ⟨e,he,hmeaning⟩ := exists_targetEnum h
  rw [← Meaning.isSome_enumeration?,← hmeaning,Option.isSome_map] at hm
  cases e with
  | none => exact Gives.after he rfl
  | some e => cases hm

theorem run_isStruct :
    (isStruct n t).act.run w = (.ok (decide ((w.systemAt n).meaning t = .struct)), w) := by
  refine Gives.after (run_target h) ?_
  rw [← ((w.systemAt n).stands t).struct]
  rcases (w.systemAt n).target? t with _ | ⟨id,p⟩
  · rfl
  · cases p <;> rfl

theorem run_isInterface :
    (isInterface n t).act.run w = (.ok (decide ((w.systemAt n).meaning t = .interface)), w) := by
  refine Gives.after (run_target h) ?_
  rw [← ((w.systemAt n).stands t).interface]
  rcases (w.systemAt n).target? t with _ | ⟨id,p⟩
  · rfl
  · cases p <;> rfl

theorem run_membersOf {plain : Bool} {members : List String}
    (hm : (w.systemAt n).meaning t = .enumeration plain members) :
    (Cpp.membersOf n t).act.run w = (.ok members, w) := by
  obtain ⟨e,he,hmeaning⟩ := exists_targetEnum h
  rw [hm] at hmeaning
  cases e with
  | none => cases hmeaning
  | some e =>
    cases hmeaning
    exact Gives.after he rfl

end

end Inquiry

/-! ## Texts -/

namespace Cpp

def primitiveText : String → String
  | "string" => "QString"
  | "var" => "QVariant"
  | "real" => "qreal"
  | name => name

/-- What a first value of a primitive type is made from. -/
def literal : String → String
  | "int" => "0"
  | "bool" => "false"
  | "real" => "0.0"
  | _ => ""

end Cpp

namespace Model

namespace Meaning

def isWritable : Meaning → Bool
  | nothing | map => false
  | _ => true

/-- A parameter of a type that is written `type` where it is returned. -/
def passed (m : Meaning) (type name : String) : String :=
  match m with
  | primitive "string" | primitive "var" | list | struct | elsewhere =>
    "const " ++ type ++ " &" ++ name
  | model | interface => type ++ name
  | _ => type ++ " " ++ name

/-- A first value of a type that is written `type` where it is returned. -/
def first? (m : Meaning) (type : String) : Option String :=
  match m with
  | void => some ""
  | primitive name => some (type ++ "(" ++ Cpp.literal name ++ ")")
  | list | struct => some (type ++ "()")
  | enumeration _ members => members.head?.map (type ++ "::" ++ ·)
  | model | interface => some "nullptr"
  | nothing | map | elsewhere => none

end Meaning

namespace TypeFacts

def text (x : TypeFacts) (cppPrefix : String) : String :=
  match x.meaning with
  | .void => "void"
  | .primitive name => Cpp.primitiveText name
  | .list => "QVariantList"
  | .model => "QAbstractItemModel *"
  | .enumeration _ _ => x.spelling ++ "::" ++ x.spelling ++ "Enum"
  | .interface => x.spelling ++ "Base *"
  | .struct | .elsewhere => cppPrefix ++ x.spelling
  | .nothing | .map => ""

/-- What stands inside of lists decides whether there is a text. -/
def returned (x : TypeFacts) (cppPrefix : String) : Except Failure String :=
  if x.element.isWritable then .ok (x.text cppPrefix) else .error (.unknownKind "")

/-- A first value in QML where the module is called `name`. -/
def qmlFirst? (x : TypeFacts) (name : String) : Option String :=
  match x.meaning with
  | .enumeration true members => members.head?.map (name ++ "Module." ++ ·)
  | .struct => some (name ++ "Module.create" ++ x.spelling ++ "()")
  | _ => none

end TypeFacts

namespace System
variable {s : System} {t : TypeHandle}

theorem depth_element_le (s : System) (t : TypeHandle) :
    (s.element t).depth ≤ t.depth + ((s.wording? t.owner).map (·.2.length)).getD 0 := by
  rw [element]
  cases s.wording? t.owner with
  | none => exact Nat.le_refl _
  | some x =>
    have htake := ((x.2.drop t.depth).takeWhile_sublist (·.isList)).length_le
    rw [List.length_drop] at htake
    simp only [Option.map_some,Option.getD_some]
    omega

theorem Sound.isList_eq (hs : s.Sound) (t : TypeHandle) :
    ((s.layer? t).getD {}).isList = decide (s.meaning t = .list) := by
  cases hm : s.meaning t <;>
    obtain ⟨-,-,-,hlist,-⟩ := hs.flags (congrArg Meaning.kinds hm) <;>
    exact hlist

theorem Sound.void (hs : s.Sound) (t : TypeHandle) :
    ((s.layer? t).getD {}).isVoid = true → ((s.layer? t).getD {}).name = "void" := by
  cases hl : s.layer? t with
  | none => exact nofun
  | some l => exact (hs.layer hl).void

theorem Sound.name_of_primitive (hs : s.Sound) {name : String} (h : s.meaning t = .primitive name) :
    ((s.layer? t).getD {}).name = name := by
  obtain ⟨hvoid,hprimitive,hcomplex,-⟩ := hs.flags (congrArg Meaning.kinds h)
  cases hl : s.layer? t with
  | none =>
    rw [meaning,hl] at h
    cases h
  | some l =>
    rw [hl,Option.getD_some] at hvoid hprimitive hcomplex
    rw [meaning,hl,Option.elim_some,Meaning.ofLayer,hcomplex,hvoid,hprimitive] at h
    exact Meaning.primitive.inj h

theorem Sound.mem_primitiveNames (hs : s.Sound) {name : String} (h : s.meaning t = .primitive name) :
    name ∈ primitiveNames := by
  obtain ⟨-,hprimitive,-⟩ := hs.flags (congrArg Meaning.kinds h)
  rw [← hs.name_of_primitive h]
  exact hs.primitive t hprimitive

theorem Sound.element_self (hs : s.Sound) (h : s.meaning t ≠ .list) : s.element t = t := by
  apply element_of_not_list
  intro l hl
  have hlist := hs.isList_eq t
  rw [hl,Option.getD_some] at hlist
  rw [hlist]
  exact decide_eq_false h

theorem Sound.element_eq (hs : s.Sound) (h : (s.facts t).meaning ≠ .list) :
    (s.facts t).element = (s.facts t).meaning := by
  rw [facts,hs.element_self h]

end System

end Model

namespace Inquiry
variable {α β : Type} {x : Inquiry α} {f : α → Inquiry β} {w : Workspace} {n : Nat} {t : TypeHandle}
  {v : Value}

theorem Gives.pure {a b : α} (h : a = b) : Gives w (Pure.pure a) (.ok b) := by
  rw [h]
  rfl

theorem Gives.fail {e : Failure} (hx : x.act.run w = (.error e, w)) :
    Gives w (x >>= f) (.error e) := by
  rw [Gives,act_bind,run_bind,hx]

theorem gives_primitiveName {l : Layer} (h : l.isPrimitive = true)
    (hname : l.name ∈ primitiveNames) :
    Gives w (Cpp.primitiveName l) (.ok (Cpp.primitiveText l.name)) := by
  simp only [primitiveNames,List.mem_cons,List.not_mem_nil,or_false] at hname
  rcases hname with hname | hname | hname | hname | hname <;>
    · simp only [Cpp.primitiveName,Layer.isPrimitiveNamed,h,hname]
      rfl

/-- What is written of a type is not used, but it must be possible to write it. -/
theorem Gives.constant {y : TypeFacts} {cppPrefix : String} {x : Inquiry String}
    (hx : Gives w x (y.returned cppPrefix)) (text : String) : Gives w (do let _ ← x; return text)
      (if y.element.isWritable then .ok text else .error (.unknownKind "")) := by
  rw [TypeFacts.returned] at hx
  split at hx
  · next hwritable =>
      rw [if_pos hwritable]
      exact .after hx rfl
  · next hwritable =>
      rw [if_neg hwritable]
      exact .fail hx

section
variable (hs : (w.systemAt n).Sound)
include hs

/-- A list has its text when the type inside of it can be written. -/
theorem gives_nestedText {l : Layer} (hl : (w.systemAt n).layer? t = some l)
    (hlist : l.isList = true) {write : Value → Inquiry String}
    (hwrite : Gives w (write (.type n { t with depth := t.depth + 1 }))
      (((w.systemAt n).facts { t with depth := t.depth + 1 }).returned w.cppPrefix)) (text :
        String) :
    Gives w (do let _ ← write (← Cpp.nestedValue n t); return text : Inquiry String)
      (if ((w.systemAt n).facts t).element.isWritable then .ok text
        else .error (.unknownKind "")) := by
  have helement : ((w.systemAt n).facts t).element =
      ((w.systemAt n).facts { t with depth := t.depth + 1 }).element :=
    congrArg (w.systemAt n).meaning (System.element_of_list hl hlist)
  rw [helement]
  exact .after (Workspace.run_nestedValue w hs hl hlist (.refl _ _ _)) (hwrite.constant text)

theorem gives_returnTypeUpTo (fuel : Nat) (hv : Presents n t v)
    (ha : w.Answered n ((w.systemAt n).element t))
    (hfuel : ((w.systemAt n).element t).depth < t.depth + fuel) :
    Gives w (Cpp.returnTypeUpTo fuel v) (((w.systemAt n).facts t).returned w.cppPrefix) := by
  induction fuel generalizing t v with
  | zero => exact absurd hfuel (Nat.not_lt.mpr (Nat.le_add_right _ _))
  | succ fuel ih =>
    have hself := ha.self hs
    refine .after rfl (.after (hv.run_typeOf w)
      (.after (run_isEnumeration hself) (.after (run_layer w n t) ?_)))
    cases hm : (w.systemAt n).meaning t <;>
      obtain ⟨hvoid,hprimitive,hcomplex,hlist,-,hmodel⟩ := hs.flags (congrArg Meaning.kinds hm) <;>
      simp only [Meaning.isEnumeration,hvoid,hprimitive,hcomplex,hlist,hmodel]
    case list =>
      obtain ⟨l,hl,hlist⟩ := System.exists_layer_of_list hlist
      rw [System.element_of_list hl hlist] at ha hfuel
      have hnested := ih .type ha (by rw [Nat.add_right_comm]; exact hfuel)
      have htext : ((w.systemAt n).facts t).text w.cppPrefix = "QVariantList" := by
        simp only [TypeFacts.text,System.facts,hm]
      rw [TypeFacts.returned,htext]
      exact gives_nestedText hs hl hlist hnested "QVariantList"
    all_goals
      rw [TypeFacts.returned,hs.element_eq (by simp [System.facts,hm]),TypeFacts.text]
      simp only [System.facts,hm]
    case void =>
      simp only [Cpp.primitiveName,Layer.isPrimitiveNamed,hprimitive,hvoid]
      rfl
    case primitive name =>
      rw [← hs.name_of_primitive hm]
      exact gives_primitiveName hprimitive (hs.primitive t hprimitive)
    case struct | interface | elsewhere =>
      refine .after (run_isInterface hself) ?_
      simp only [hm]
      rfl
    all_goals rfl

theorem gives_returnType (hv : Presents n t v) (ha : w.Answered n ((w.systemAt n).element t)) :
    Gives w (Cpp.returnType v) (((w.systemAt n).facts t).returned w.cppPrefix) := by
  have hdepth := (w.systemAt n).depth_element_le t
  exact .after (hv.run_typeDepth w) (gives_returnTypeUpTo hs _ hv ha (by omega))

theorem gives_listText (ha : w.Answered n ((w.systemAt n).element t))
    (hlist : (((w.systemAt n).layer? t).getD {}).isList = true) (text : String) :
    Gives w (do let _ ← Cpp.returnType (← Cpp.nestedValue n t); return text : Inquiry String)
      (if ((w.systemAt n).facts t).element.isWritable then .ok text
        else .error (.unknownKind "")) := by
  obtain ⟨l,hl,hlist⟩ := System.exists_layer_of_list hlist
  rw [System.element_of_list hl hlist] at ha
  exact gives_nestedText hs hl hlist (gives_returnType hs .type ha) text

theorem gives_parameterType {name : String} (hv : Presents n t v)
    (hname : (Generic.plainText v).act.run w = (.ok name, w))
    (ha : w.Answered n ((w.systemAt n).element t)) :
    Gives w (Cpp.parameterType v) ((((w.systemAt n).facts t).returned w.cppPrefix).map
      (((w.systemAt n).facts t).meaning.passed · name)) := by
  have hself := ha.self hs
  refine .after rfl (.after (hv.run_typeOf w)
    (.after (run_isEnumeration hself) (.after (run_layer w n t) (.after hname ?_))))
  cases hm : (w.systemAt n).meaning t <;>
    obtain ⟨hvoid,hprimitive,hcomplex,hlist,-,hmodel⟩ := hs.flags (congrArg Meaning.kinds hm) <;>
    simp only [Meaning.isEnumeration,hvoid,hprimitive,hcomplex,hlist,hmodel]
  case list =>
    have htext : (((w.systemAt n).facts t).returned w.cppPrefix).map
        (((w.systemAt n).facts t).meaning.passed · name) =
        if ((w.systemAt n).facts t).element.isWritable then .ok ("const QVariantList &" ++ name)
        else .error (.unknownKind "") := by
      simp only [TypeFacts.returned,TypeFacts.text,System.facts,hm,Meaning.passed]
      split
      · exact congrArg Except.ok (by simp)
      · rfl
    rw [htext]
    exact gives_listText hs ha hlist _
  all_goals
    rw [TypeFacts.returned,hs.element_eq (by simp [System.facts,hm]),TypeFacts.text]
    simp only [System.facts,hm]
  case void =>
    simp only [Layer.isPrimitiveNamed,hprimitive,hs.void _ hvoid]
    rfl
  case primitive type =>
    have hprimitives := hs.mem_primitiveNames hm
    simp only [primitiveNames,List.mem_cons,List.not_mem_nil,or_false] at hprimitives
    rcases hprimitives with rfl | rfl | rfl | rfl | rfl <;>
      · simp only [Layer.isPrimitiveNamed,hprimitive,hs.name_of_primitive hm]
        exact .pure (by simp [Meaning.passed,Cpp.primitiveText])
  case enumeration plain members => exact .pure (by simp [Meaning.passed,← String.toList_inj])
  case struct | interface | elsewhere =>
    refine .after (run_isInterface hself) ?_
    simp only [hm]
    exact .pure (by simp [Meaning.passed,← String.toList_inj])
  all_goals rfl

/-- Only symbols that have a type are meant: an enumeration gives its first member. -/
theorem yields_defaultValue {h : Handle} (hplace : h.place.hasType = true)
    (ha : w.Answered n ((w.systemAt n).element ⟨h,0⟩)) :
    Yields w (Cpp.defaultValue (.entity n (.symbol h)))
      ((((w.systemAt n).facts ⟨h,0⟩).returned w.cppPrefix).toOption.bind
      ((w.systemAt n).facts ⟨h,0⟩).meaning.first?) := by
  have hself := ha.self hs
  have hv : Presents n ⟨h,0⟩ (.entity n (.symbol h)) := .symbol rfl
  have hkind : w.text (.text (kindName h.place)) ≠ "enum" := kindName_ne_enum hplace
  refine .after rfl (.after (hv.run_typeOf w) (.after (run_layer w n ⟨h,0⟩) ?_))
  cases hm : (w.systemAt n).meaning ⟨h,0⟩ <;>
    obtain ⟨hvoid,hprimitive,-,hlist,-,hmodel⟩ := hs.flags (congrArg Meaning.kinds hm) <;>
    simp only [hvoid,hprimitive,hlist,hmodel]
  case list =>
    refine .after (run_isEnumeration hself) ?_
    simp only [hm]
    refine .after (w.attribute_kind n h) (.after rfl ?_)
    rw [if_neg hkind]
    refine .after (run_isFlag hself (by rw [hm]; rfl)) ?_
    have hlisted := gives_listText hs ha hlist "QVariantList()"
    rw [TypeFacts.returned,TypeFacts.text]
    by_cases hwritable : ((w.systemAt n).facts ⟨h,0⟩).element.isWritable = true
    · rw [if_pos hwritable] at hlisted ⊢
      simp only [System.facts,hm]
      exact .ok hlisted rfl
    · rw [if_neg hwritable] at hlisted ⊢
      exact .unknownKind hlisted
  all_goals
    rw [TypeFacts.returned,hs.element_eq (by simp [System.facts,hm]),TypeFacts.text]
    simp only [System.facts,hm]
  case void => exact .ok rfl rfl
  case primitive name =>
    have hprimitives := hs.mem_primitiveNames hm
    simp only [primitiveNames,List.mem_cons,List.not_mem_nil,or_false] at hprimitives
    rcases hprimitives with rfl | rfl | rfl | rfl | rfl <;>
      · simp only [Cpp.primitiveDefault,Layer.isPrimitiveNamed,hprimitive,hs.name_of_primitive hm]
        exact .ok rfl rfl
  all_goals
    refine .after (run_isEnumeration hself) ?_
    simp only [hm]
  case enumeration plain members =>
    refine .after (run_membersOf hself hm) ?_
    cases members with
    | nil => exact .exhausted rfl
    | cons m members => exact .ok (.after rfl rfl) (congrArg some (by simp [← String.toList_inj]))
  all_goals
    refine .after (w.attribute_kind n h) (.after rfl ?_)
    rw [if_neg hkind]
    refine .after (run_isFlag hself (by rw [hm]; rfl)) (.after (run_isStruct hself) ?_)
    simp only [hm]
  case struct | model => exact .ok rfl rfl
  all_goals
    refine .after (run_isInterface hself) ?_
    simp only [hm]
  case interface => exact .ok rfl rfl
  all_goals exact .unknownKind (.after rfl rfl)

theorem yields_qmlDefaultValue {name : String} (hv : Presents n t v) (ha : w.Answered n t)
    (hname : Generic.upperFirstText?
      (((w.systemAt n).module? t.owner.module).getD default).shortName = some name)
    (hm : (w.systemAt n).meaning t = .struct ∨
      ∃ members, (w.systemAt n).meaning t = .enumeration true members) :
    Yields w (Qml.defaultValue v) (((w.systemAt n).facts t).qmlFirst? name) := by
  have hupper := run_upperFirst (((w.systemAt n).module? t.owner.module).getD default).shortName w
  rw [hname] at hupper
  refine .after (hv.run_moduleOf hs.placed)
    (.after hupper (.after (hv.run_typeOf w) (.after (run_layer w n t) ?_)))
  rw [TypeFacts.qmlFirst?]
  rcases hm with hm | ⟨members,hm⟩ <;>
    obtain ⟨-,hprimitive,-⟩ := hs.flags (congrArg Meaning.kinds hm) <;>
    simp only [hprimitive,System.facts,hm]
  · refine .after (run_isEnum ha) ?_
    simp only [hm]
    refine .after (run_isStruct ha) ?_
    simp only [hm]
    exact .ok rfl rfl
  · refine .after (run_isEnum ha) ?_
    simp only [hm]
    refine .after (run_membersOf ha hm) ?_
    cases members with
    | nil => exact .exhausted rfl
    | cons m members => exact .ok (.after rfl rfl) rfl

end

/-! ## Filters that find nothing to ask -/

namespace Still

theorem firstMember (names : List String) : Still w (Cpp.firstMember names) := by
  cases names with
  | nil => exact .throw nofun
  | cons name names => exact .pure name

section
variable (h : w.Answered n t)
include h

theorem isFlag : Still w (isFlag n t) := by
  obtain ⟨o,ho,-⟩ := exists_targetEnum h
  exact .after ho (.pure _)

theorem membersOf : Still w (Cpp.membersOf n t) := by
  obtain ⟨o,ho,-⟩ := exists_targetEnum h
  exact .after ho (.pure _)

end

section
variable (hs : (w.systemAt n).Sound)
include hs

theorem returnType (hv : Presents n t v) (h : w.Answered n ((w.systemAt n).element t)) :
    Still w (Cpp.returnType v) := by
  refine ⟨_,gives_returnType hs hv h,fun name => ?_⟩
  rw [TypeFacts.returned]
  split <;> nofun

theorem parameterType (hv : Presents n t v) (h : w.Answered n ((w.systemAt n).element t)) :
    Still w (Cpp.parameterType v) := by
  obtain ⟨text,htext⟩ := hv.exists_text w
  refine ⟨_,gives_parameterType hs hv (htext w (.refl _ _ _)) h,fun name => ?_⟩
  rw [TypeFacts.returned]
  split <;> nofun

end

theorem propertyType (hv : Presents n t v) (h : w.Answered n t) : Still w (Qml.propertyType v) := by
  refine .after (hv.run_typeOf w) ?_
  refine .after (run_isEnum h) ?_
  refine .ite (fun _ => .pure _) fun _ => ?_
  refine .after rfl ?_
  refine .ite (fun _ => .pure _) fun _ => ?_
  refine .after (run_isStruct h) ?_
  refine .ite (fun _ => .pure _) fun _ => ?_
  exact .ite (fun _ => .pure _) fun _ => .pure _

theorem qmlDefaultValue (hs : (w.systemAt n).Placed) (hv : Presents n t v) (h : w.Answered n t) :
    Still w (Qml.defaultValue v) := by
  refine .after (hv.run_moduleOf hs) ?_
  have hupper : ∀ text : String, Still w (Generic.upperFirst (.text text)) := fun text =>
    ⟨_,run_upperFirst text w,by cases Generic.upperFirstText? text <;> nofun⟩
  refine (hupper _).bind fun name _ => ?_
  refine .after (hv.run_typeOf w) ?_
  refine .after rfl ?_
  have hrest : ∀ l : Layer, Still w (do
      if ← Inquiry.isStruct n t then return name ++ "Module.create" ++ l.name ++ "()"
      if l.isModel then return "ListModel \x7b\x7d"
      return "XXX" : Inquiry String) := by
    intro l
    refine .after (run_isStruct h) ?_
    refine .ite (fun _ => .pure _) fun _ => ?_
    exact .ite (fun _ => .pure _) fun _ => .pure _
  refine .ite (fun _ => ?_) fun _ => ?_
  · split
    · exact .pure _
    · exact hrest _
  refine .after (run_isEnum h) ?_
  refine .ite (fun _ => ?_) fun _ => hrest _
  exact (membersOf h).bind fun names _ => (firstMember names).bind fun _ _ => .pure _

end Still

end Inquiry

end InterfaceKit
