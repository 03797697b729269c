import InterfaceKit.Proofs.Workspace.Consulting

/-!
# Filters that tell of types

The filters that write a type, or a value of a type, consult one type: that of the value, or what
stands inside if it is a list. When there is nothing to find out about this type they change
nothing.
-/
namespace InterfaceKit
open Data Model Inquiry

/-- The values that have a type: the type itself, and the symbol that it belongs to if it is not
nested. -/
inductive Presents (n : Nat) (t : TypeHandle) : Value → Prop
  | type : Presents n t (.type n t)
  | symbol (h : t.depth = 0) : Presents n t (.entity n (.symbol t.owner))

namespace Presents
variable {n : Nat} {t : TypeHandle} {v : Value}

theorem run_typeOf (h : Presents n t v) (w : Workspace) :
    (Cpp.typeOf v).act.run w = (.ok (n, t), w) := by
  cases h with
  | type => rfl
  | symbol h =>
    obtain ⟨owner,depth⟩ := t
    subst h
    rw [Cpp.typeOf,act_bind,run_bind,Workspace.attribute_type]
    rfl

theorem run_moduleOf (h : Presents n t v) {w : Workspace} (hs : (w.systemAt n).Placed) :
    (Cpp.moduleOf v).act.run w =
      (.ok (((w.systemAt n).module? t.owner.module).getD default), w) := by
  cases h with
  | type =>
    rw [Cpp.moduleOf,act_bind,run_bind,Workspace.attribute_type_module hs]
    rfl
  | symbol h =>
    rw [Cpp.moduleOf,act_bind,run_bind,Workspace.attribute_module hs]
    rfl

theorem exists_text (h : Presents n t v) (w : Workspace) : ∃ text, ∀ w', w.Alike n t.owner w' →
    (Generic.plainText v).act.run w' = (.ok text, w') := by
  cases h with
  | type =>
    refine ⟨(w.bareLayer n t).name,fun w' hw => ?_⟩
    have hname : w'.typeName n t = (w'.bareLayer n t).name := by
      rw [Workspace.typeName,Workspace.bareLayer]
      cases (w'.systemAt n).layer? t <;> rfl
    rw [← hw.bareLayer,← hname]
    rfl
  | symbol h =>
    refine ⟨(((w.systemAt n).wording? t.owner).map (·.1)).getD "",fun w' hw => ?_⟩
    have hname : w'.entityName n (.symbol t.owner) =
        (((w'.systemAt n).wording? t.owner).map (·.1)).getD "" := by
      rw [Workspace.entityName,System.wording?,Option.map_map]
      rfl
    rw [← hw.wording,← hname]
    rfl

theorem run_typeDepth (h : Presents n t v) (w : Workspace) :
    (Cpp.typeDepth v).act.run w =
      (.ok ((((w.systemAt n).wording? t.owner).map (·.2.length)).getD 0), w) := by
  have hlength : (((w.systemAt n).common? t.owner).map (·.type.layers.length)) =
      ((w.systemAt n).wording? t.owner).map (·.2.length) := by
    rw [System.wording?,Option.map_map]
    congr 1
    funext c
    exact (List.length_map _).symm
  rw [← hlength]
  cases h <;> rfl

end Presents

namespace Workspace
variable {w v : Workspace} {n : Nat} {t u : TypeHandle}

theorem Alike.cppPrefix {h : Handle} (hv : w.Alike n h v) : v.cppPrefix = w.cppPrefix := by
  rw [hv.rest]

theorem Alike.nested? (h : w.Alike n t.owner v) :
    (v.systemAt n).nested? t = (w.systemAt n).nested? t := by
  have hlayer : ∀ s : System, (s.layer? { t with depth := t.depth + 1 }).isSome =
      ((s.wording? t.owner).bind (·.2[t.depth + 1]?)).isSome := by
    intro s
    rw [← s.map_bare_layer? { t with depth := t.depth + 1 },Option.isSome_map]
  simp only [System.nested?,hlayer,h.wording]

theorem run_nestedValue (w : Workspace) {l : Layer} (hs : (w.systemAt n).Sound)
    (hl : (w.systemAt n).layer? t = some l) (hlist : l.isList = true) (h : w.Alike n t.owner v) :
    (Cpp.nestedValue n t).act.run v = (.ok (.type n { t with depth := t.depth + 1 }), v) := by
  have hnested : (v.systemAt n).nested? t = some { t with depth := t.depth + 1 } := by
    have hsome := (hs.layer hl).container
    rw [Layer.isContainer,hlist,Bool.true_or] at hsome
    rw [h.nested?]
    rw [System.nested?] at hsome ⊢
    split
    · rfl
    · next hnone =>
        rw [if_neg hnone] at hsome
        cases hsome
  have hrun : (Cpp.nestedValue n t).act.run v =
      (.ok (((v.systemAt n).nested? t).elim .null (.type n ·)), v) := by
    have hquiet : (Inquiry.nested? n t).act.run v = (.ok ((v.systemAt n).nested? t), v) := rfl
    rw [Cpp.nestedValue,act_bind,run_bind,hquiet]
    rcases (v.systemAt n).nested? t with _ | u <;> rfl
  rw [hrun,hnested]
  rfl

theorem Answered.self (hs : (w.systemAt n).Sound) (h : w.Answered n ((w.systemAt n).element t)) :
    w.Answered n t := by
  intro l hl hc
  have hplain : (w.systemAt n).element t = t := by
    apply System.element_of_not_list
    intro l' hl'
    obtain rfl := Option.some.inj (hl.symm.trans hl')
    exact (Layer.complex_only (hs.layer hl).kinds hc).2.2.1
  rw [hplain] at h
  exact h l hl hc

end Workspace

namespace Model.System
variable {s : System} {t : TypeHandle}

theorem exists_layer_of_list (h : ((s.layer? t).getD {}).isList = true) :
    ∃ l, s.layer? t = some l ∧ l.isList = true := by
  cases hl : s.layer? t with
  | none =>
    rw [hl] at h
    cases h
  | some l =>
    rw [hl] at h
    exact ⟨l,rfl,h⟩

theorem Sound.primitive (hs : s.Sound) (t : TypeHandle) :
    ((s.layer? t).getD {}).isPrimitive = true → ((s.layer? t).getD {}).name ∈ primitiveNames := by
  cases hl : s.layer? t with
  | none => exact nofun
  | some l => exact (hs.layer hl).primitive

end Model.System

namespace Generic

def upperFirstText? (text : String) : Option String :=
  match text.toList with
  | c :: cs => some (String.ofList (Text.upperChar c ++ cs))
  | [] => none

theorem exists_upperFirstText {text : String} (h : text ≠ "") :
    ∃ name, upperFirstText? text = some name := by
  rw [upperFirstText?]
  cases hchars : text.toList with
  | nil => exact absurd (String.toList_eq_nil_iff.mp hchars) h
  | cons c cs => exact ⟨_,rfl⟩

end Generic

theorem Inquiry.kindName_ne_enum {p : Place} (h : p.hasType = true) : kindName p ≠ "enum" := by
  have hclass : placeClass p ∈ ["Property","Operation","Parameter","Field"] := by
    cases p <;> simp [Place.hasType,placeClass] at h ⊢
  have hlower : ∀ c ∈ ["Property","Operation","Parameter","Field"],
      String.ofList (Text.lower c.toList) ≠ "enum" := by decide +kernel
  exact hlower _ hclass

/-! ## The type that is consulted -/

namespace Inquiry
variable {w v : Workspace} {n : Nat} {t u : TypeHandle}

theorem run_target_none (h : (w.bareLayer n t).isComplex = false) :
    (target n t).act.run w = (.ok none, w) := by
  have hcomplex : (((w.systemAt n).layer? t).getD {}).isComplex = false := h
  rw [target,act_bind,run_bind,run_layer]
  simp only [hcomplex]
  rfl

theorem run_isEnumeration_false (h : (w.bareLayer n t).isComplex = false) :
    (isEnumeration n t).act.run w = (.ok false, w) := by
  rw [isEnumeration,act_bind,run_bind,targetEnum,act_bind,run_bind,run_target_none h]
  rfl

theorem run_isFlag_false (h : (w.bareLayer n t).isComplex = false) :
    (isFlag n t).act.run w = (.ok false, w) := by
  rw [isFlag,act_bind,run_bind,targetEnum,act_bind,run_bind,run_target_none h]
  rfl

theorem run_upperFirst (text : String) (w : Workspace) :
    (Generic.upperFirst (.text text)).act.run w =
    ((Generic.upperFirstText? text).elim (.error (.outOfRange "string index out of range")) .ok,
      w) := by
  have htext : (Generic.plainText (.text text)).act.run w = (.ok text, w) := rfl
  rw [Generic.upperFirst,act_bind,run_bind,htext,Generic.upperFirstText?]
  simp only [Generic.mapFirst]
  cases text.toList <;> rfl

namespace Consults
variable {x : Value} {l : Layer}

theorem list_layer (hs : (w.systemAt n).Sound) (h : (w.systemAt n).element t = u)
    (hl : (w.systemAt n).layer? t = some l) (hlist : l.isList = true) : t.owner = u.owner ∧
      (w.bareLayer n t).isVoid = false ∧ (w.bareLayer n t).isPrimitive = false ∧
      (∀ v, w.Alike n u.owner v → (v.bareLayer n t).isComplex = false) ∧
      (w.bareLayer n t).isList = true := by
  have howner := System.owner_of_element h
  have hbare : w.bareLayer n t = l.bare := by rw [Workspace.bareLayer,hl,Option.getD_some]
  obtain ⟨hvoid,hprimitive,hcomplex⟩ := Layer.list_only (hs.layer hl).kinds hlist
  refine ⟨howner,?_,?_,fun v hv => ?_,?_⟩
  · rw [hbare]
    exact hvoid
  · rw [hbare]
    exact hprimitive
  · rw [(howner ▸ hv : w.Alike n t.owner v).bareLayer,hbare]
    exact hcomplex
  · rw [hbare]
    exact hlist

section
variable (hs : (w.systemAt n).Sound) (hc : (w.bareLayer n u).isComplex = true)
include hs hc

theorem complex_layer : ∃ l, (w.systemAt n).layer? u = some l ∧
    (w.bareLayer n u).isVoid = false ∧ (w.bareLayer n u).isPrimitive = false := by
  cases hl : (w.systemAt n).layer? u with
  | none =>
    rw [Workspace.bareLayer,hl] at hc
    cases hc
  | some l =>
    rw [Workspace.bareLayer,hl] at hc
    obtain ⟨hvoid,hprimitive,-⟩ := Layer.complex_only (hs.layer hl).kinds hc
    refine ⟨l,rfl,?_,?_⟩
    · rw [Workspace.bareLayer,hl]
      exact hvoid
    · rw [Workspace.bareLayer,hl]
      exact hprimitive

theorem returnTypeUpTo (fuel : Nat) (hx : Presents n t x) (ht : (w.systemAt n).element t = u)
    (hfuel : u.depth < t.depth + fuel) : Consults w n u (Cpp.returnTypeUpTo fuel x) := by
  induction fuel generalizing t x with
  | zero =>
    subst ht
    exact absurd hfuel (Nat.not_lt.mpr (Nat.le_add_right _ _))
  | succ fuel ih =>
    refine .after (a := w) ?_ fun v hv => ⟨v,rfl,by simp only [hv.cppPrefix]⟩
    refine .after (a := (n, t)) ?_ fun v _ => ⟨(n, t),hx.run_typeOf v,rfl⟩
    rcases System.element_cases ht with rfl | ⟨l,hl,hlist,hinner⟩
    · exact (isEnumeration hc).bind
    · obtain ⟨howner,hvoid,hprimitive,hcomplex,hlist'⟩ := list_layer hs ht hl hlist
      refine .after (a := false) ?_ fun v hv => ⟨false,run_isEnumeration_false (hcomplex v hv),rfl⟩
      refine .after_layer howner (fun _ => rfl) ?_
      simp only [hvoid,hprimitive,hlist']
      refine .after ?_ fun v hv => ⟨_,Workspace.run_nestedValue w hs hl hlist (howner ▸ hv),rfl⟩
      exact (ih .type hinner (by simpa using (by omega : u.depth < t.depth + 1 + fuel))).bind

theorem returnType (hx : Presents n t x) (ht : (w.systemAt n).element t = u) :
    Consults w n u (Cpp.returnType x) := by
  have howner := System.owner_of_element ht
  obtain ⟨l,hl,-,-⟩ := complex_layer hs hc
  obtain ⟨name,ls,hwording,hls⟩ := System.exists_wording hl
  have hdepth : u.depth < ls.length := (List.getElem?_eq_some_iff.mp hls).1
  refine .after (a := ls.length) ?_ fun v hv => ⟨ls.length,?_,rfl⟩
  · exact returnTypeUpTo hs hc _ hx ht (by omega)
  · rw [hx.run_typeDepth,howner,hv.wording,hwording]
    rfl

theorem parameterType (hx : Presents n t x) (ht : (w.systemAt n).element t = u) :
    Consults w n u (Cpp.parameterType x) := by
  refine .after (a := w) ?_ fun v hv => ⟨v,rfl,by simp only [hv.cppPrefix]⟩
  refine .after (a := (n, t)) ?_ fun v _ => ⟨(n, t),hx.run_typeOf v,rfl⟩
  rcases System.element_cases ht with rfl | ⟨l,hl,hlist,hinner⟩
  · exact (isEnumeration hc).bind
  · obtain ⟨howner,hvoid,hprimitive,hcomplex,hlist'⟩ := list_layer hs ht hl hlist
    obtain ⟨text,htext⟩ := hx.exists_text w
    refine .after (a := false) ?_ fun v hv => ⟨false,run_isEnumeration_false (hcomplex v hv),rfl⟩
    refine .after_layer howner (fun _ => rfl) ?_
    refine .after (a := text) ?_ fun v hv => ⟨text,htext v (howner ▸ hv),rfl⟩
    simp only [hvoid,hprimitive,hlist']
    refine .after ?_ fun v hv => ⟨_,Workspace.run_nestedValue w hs hl hlist (howner ▸ hv),rfl⟩
    exact (returnType hs hc .type hinner).bind

theorem defaultValue {h : Handle} (hplace : h.place.hasType = true)
    (ht : (w.systemAt n).element ⟨h,0⟩ = u) :
    Consults w n u (Cpp.defaultValue (.entity n (.symbol h))) := by
  have hx : Presents n ⟨h,0⟩ (.entity n (.symbol h)) := .symbol rfl
  refine .after (a := w) ?_ fun v hv => ⟨v,rfl,by simp only [hv.cppPrefix]⟩
  refine .after (a := (n, ⟨h,0⟩)) ?_ fun v _ => ⟨_,hx.run_typeOf v,rfl⟩
  rcases System.element_cases ht with rfl | ⟨l,hl,hlist,hinner⟩
  · obtain ⟨-,-,hvoid,hprimitive⟩ := complex_layer hs hc
    refine .after_layer rfl (fun _ => rfl) ?_
    simp only [hvoid,hprimitive]
    exact (isEnumeration hc).bind
  · obtain ⟨howner,hvoid,hprimitive,hcomplex,hlist'⟩ := list_layer hs ht hl hlist
    refine .after_layer howner (fun _ => rfl) ?_
    simp only [hvoid,hprimitive,hlist']
    refine .after (a := false) ?_ fun v hv => ⟨false,run_isEnumeration_false (hcomplex v hv),rfl⟩
    refine .after ?_ fun v _ => ⟨_,v.attribute_kind n h,rfl⟩
    refine .after (a := kindName h.place) ?_ fun v _ => ⟨_,rfl,rfl⟩
    rw [if_neg (kindName_ne_enum hplace)]
    refine .after (a := false) ?_ fun v hv => ⟨false,run_isFlag_false (hcomplex v hv),rfl⟩
    refine .after ?_ fun v hv => ⟨_,Workspace.run_nestedValue w hs hl hlist (howner ▸ hv),rfl⟩
    exact (returnType hs hc .type hinner).bind

theorem qmlDefaultValue (hx : Presents n u x)
    (hname : (((w.systemAt n).module? u.owner.module).getD default).shortName ≠ "") :
    Consults w n u (Qml.defaultValue x) := by
  obtain ⟨-,-,-,hprimitive⟩ := complex_layer hs hc
  obtain ⟨name,hname⟩ := Generic.exists_upperFirstText hname
  refine .after (a := ((w.systemAt n).module? u.owner.module).getD default) ?_
    fun v hv => ⟨_,hx.run_moduleOf (hv.placed hs.placed),by simp only [hv.module]⟩
  refine .after (a := name) ?_ fun v _ => ⟨name,by rw [run_upperFirst,hname]; rfl,rfl⟩
  refine .after (a := (n, u)) ?_ fun v _ => ⟨(n, u),hx.run_typeOf v,rfl⟩
  refine .after_layer rfl (fun _ => rfl) ?_
  simp only [hprimitive]
  exact (isEnum hc).bind

omit hs in
theorem propertyType (hx : Presents n u x) : Consults w n u (Qml.propertyType x) := by
  refine .after (a := (n, u)) ?_ fun v _ => ⟨(n, u),hx.run_typeOf v,rfl⟩
  exact (isEnum hc).bind

end

end Consults

end Inquiry

end InterfaceKit
