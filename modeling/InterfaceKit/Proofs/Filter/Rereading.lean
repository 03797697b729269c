import InterfaceKit.Proofs.Filter.TypeMeaning

/-!
# Reading a reference twice

What a type refers to is read by its attributes and by the filters that tell of types. A type is
looked up once, so a reading gives the same again, with one exception: where the name of the type
cannot be looked up the first reading fails, and only the first one does. From the second reading on
the type passes for one that refers to nothing.
-/
namespace InterfaceKit
open Data Model Inquiry

def referenceTests : List String := ["is_enumeration","is_enum","is_flag","is_struct","is_interface"]

/-- The readings that use what a type refers to, with this type: the tests, and the filters on
values of a type. The filters for C++ look into lists, and those for QML do not. -/
inductive Telling (s : System) (n : Nat) : Inquiry Value → TypeHandle → Prop
  | test (u : TypeHandle) {name : String} (h : name ∈ referenceTests) :
      Telling s n (attributeOf (.type n u) name) u
  | returnType {t u : TypeHandle} {v : Value} (hv : Presents n t v) (hu : s.element t = u) :
      Telling s n (Filter.returnType.applyPlain v) u
  | parameterType {t u : TypeHandle} {v : Value} (hv : Presents n t v) (hu : s.element t = u) :
      Telling s n (Filter.parameterType.applyPlain v) u
  | defaultValue {h : Handle} {u : TypeHandle} (hplace : h.place.hasType = true) (hu :
      s.element ⟨h,0⟩ = u) :
      Telling s n (Filter.defaultValue.applyPlain (.entity n (.symbol h))) u
  | propertyType {u : TypeHandle} {v : Value} (hv : Presents n u v) :
      Telling s n (Filter.qmlPropertyType.applyPlain v) u
  | qmlDefaultValue {u : TypeHandle} {v : Value} (hv : Presents n u v)
      (hname : ((s.module? u.owner.module).getD default).shortName ≠ "") :
      Telling s n (Filter.qmlDefaultValue.applyPlain v) u

/-- The readings of what a type refers to: the reference itself, and what uses it. -/
inductive Reading (s : System) (n : Nat) : Inquiry Value → TypeHandle → Prop
  | reference (u : TypeHandle) : Reading s n (attributeOf (.type n u) "reference") u
  | telling {x : Inquiry Value} {u : TypeHandle} (h : Telling s n x u) : Reading s n x u

namespace Telling
variable {w v : Workspace} {n : Nat} {x : Inquiry Value} {u : TypeHandle}

theorem exists_test {name : String} (h : name ∈ referenceTests) (n : Nat) (u : TypeHandle) :
    ∃ test : Inquiry Bool, attributeOf (.type n u) name =
      (do let _ ← layer n u; return .bool (← test)) ∧
      (∀ w, w.Answered n u → Still w test) ∧
      ∀ w : Workspace, (w.bareLayer n u).isComplex = true → Consults w n u test := by
  simp only [referenceTests,List.mem_cons,List.not_mem_nil,or_false] at h
  rcases h with rfl | rfl | rfl | rfl | rfl
  · exact ⟨isEnumeration n u,rfl,fun _ h => .of_run (run_isEnumeration h),
      fun _ h => .isEnumeration h⟩
  · exact ⟨isEnum n u,rfl,fun _ h => .of_run (run_isEnum h),fun _ h => .isEnum h⟩
  · exact ⟨isFlag n u,rfl,fun _ h => .isFlag h,fun _ h => .isFlag h⟩
  · exact ⟨isStruct n u,rfl,fun _ h => .of_run (run_isStruct h),fun _ h => .isStruct h⟩
  · exact ⟨isInterface n u,rfl,fun _ h => .of_run (run_isInterface h),fun _ h => .isInterface h⟩

theorem still (hs : (w.systemAt n).Sound) (hx : Telling (w.systemAt n) n x u) (h : w.Answered n u) :
    Still w x := by
  cases hx with
  | test u hname =>
    obtain ⟨test,hattribute,hstill,-⟩ := exists_test hname n u
    rw [hattribute]
    exact .after rfl ((hstill w h).bind fun _ _ => .pure _)
  | returnType hv hu => exact (Still.returnType hs hv (hu ▸ h)).bind fun _ _ => .pure _
  | parameterType hv hu => exact (Still.parameterType hs hv (hu ▸ h)).bind fun _ _ => .pure _
  | defaultValue hplace hu =>
    exact (yields_defaultValue hs hplace (hu ▸ h)).still.bind fun _ _ => .pure _
  | propertyType hv => exact .propertyType hv h
  | qmlDefaultValue hv hname => exact (Still.qmlDefaultValue hs.placed hv h).bind fun _ _ => .pure _

theorem consults (hs : (w.systemAt n).Sound) (hx : Telling (w.systemAt n) n x u)
    (hc : (w.bareLayer n u).isComplex = true) : Consults w n u x := by
  cases hx with
  | test u hname =>
    obtain ⟨test,hattribute,-,hconsults⟩ := exists_test hname n u
    rw [hattribute]
    exact .after_layer rfl (fun _ => rfl) (hconsults w hc).bind
  | returnType hv hu => exact (Consults.returnType hs hc hv hu).bind
  | parameterType hv hu => exact (Consults.parameterType hs hc hv hu).bind
  | defaultValue hplace hu => exact (Consults.defaultValue hs hc hplace hu).bind
  | propertyType hv => exact .propertyType hc hv
  | qmlDefaultValue hv hname => exact (Consults.qmlDefaultValue hs hc hv hname).bind

theorem alike (hx : Telling (w.systemAt n) n x u) (h : w.Alike n u.owner v) :
    Telling (v.systemAt n) n x u := by
  have helement : ∀ t, (w.systemAt n).element t = u → (v.systemAt n).element t = u := by
    rintro t rfl
    have hwording : (v.systemAt n).wording? t.owner = (w.systemAt n).wording? t.owner := h.wording
    simp only [System.element,hwording]
  cases hx with
  | test u hname => exact .test u hname
  | returnType hv hu => exact .returnType hv (helement _ hu)
  | parameterType hv hu => exact .parameterType hv (helement _ hu)
  | defaultValue hplace hu => exact .defaultValue hplace (helement _ hu)
  | propertyType hv => exact .propertyType hv
  | qmlDefaultValue hv hname => exact .qmlDefaultValue hv (by rwa [h.module])

end Telling

namespace Reading
variable {w : Workspace} {n : Nat} {x : Inquiry Value} {u : TypeHandle}

theorem still_referred (hs : (w.systemAt n).Sound) (hx : Reading (w.systemAt n) n x u) :
    Still (w.referred n u) x := by
  have hsettled := Workspace.settled_referred hs u
  cases hx with
  | reference u =>
    rw [attributeOf_reference]
    refine .after rfl (.after hsettled ?_)
    cases (((w.referred n u).systemAt n).layer? u).bind (·.resolution.target) <;> exact .pure _
  | telling h =>
    refine Telling.still ?_ (h.alike (Workspace.alike_referred hs u)) fun _ _ _ => hsettled
    rw [Workspace.systemAt_referred]
    exact hs.reference u

/-- A reading asks for the reference, or there is nothing to find out. -/
theorem consults_or_still (hs : (w.systemAt n).Sound) (hx : Reading (w.systemAt n) n x u) :
    Consults w n u x ∨ Still w x ∧ ¬ (w.systemAt n).Dangles u := by
  cases hx with
  | reference u => exact .inl (.after_layer rfl (fun _ => rfl) (.reference _))
  | telling h =>
    by_cases hanswered : w.Answered n u
    · refine .inr ⟨h.still hs hanswered,fun hdangles => ?_⟩
      obtain ⟨l,_,hl,hc,-⟩ := id hdangles
      exact (hanswered l hl hc).not_dangles hs hdangles
    · refine .inl (h.consults hs ?_)
      by_contra hplain
      apply hanswered
      intro l hl hc
      rw [Workspace.bareLayer,hl] at hplain
      exact absurd hc hplain

end Reading

namespace Workspace.Explored
variable {w : Workspace} {n : Nat} {x : Inquiry Value} {u : TypeHandle}

/-- A reading gives the same again exactly if the type that it looks at does not dangle. If it does,
the first reading fails and later ones do not fail for this reason. From the second reading on
nothing changes. -/
theorem reading_repeats_iff (hw : w.Explored n) (hx : Reading (w.systemAt n) n x u) :
    let first := x.act.run w
    let second := x.act.run first.2
    let third := x.act.run second.2
    (second.1 = first.1 ↔ ¬ (w.systemAt n).Dangles u) ∧
      ((w.systemAt n).Dangles u → (∃ name, first.1 = .error (.unknownName name)) ∧
        ∀ name, second.1 ≠ .error (.unknownName name)) ∧
      third = second := by
  have hs := hw.sound
  obtain ⟨r,hsettled,hr⟩ := hx.still_referred hs
  rcases hx.consults_or_still hs with ⟨k,hk⟩ | ⟨⟨r',hstill,-⟩,hnot⟩
  · have hfirst := hk w (.refl _ _ _)
    rw [run_bind,run_reference] at hfirst
    rcases hs.answer u with ⟨hanswer,hnot⟩ | ⟨⟨name,hanswer⟩,hdangles⟩
    · have hsecond := hk _ (alike_referred hs u)
      rw [run_bind,settled_referred hs u,systemAt_referred] at hsecond
      rw [hanswer] at hfirst
      have hsame : x.act.run w = (r, w.referred n u) := hfirst.trans (hsecond.symm.trans hsettled)
      simp only [hsame,hsettled]
      exact ⟨⟨fun _ => hnot,fun _ => trivial⟩,fun hd => absurd hd hnot,trivial⟩
    · rw [hanswer] at hfirst
      simp only [hfirst,hsettled]
      exact ⟨⟨fun he => absurd he (hr name),fun hnot => absurd hdangles hnot⟩,
        fun _ => ⟨⟨name,rfl⟩,hr⟩,trivial⟩
  · simp only [hstill]
    exact ⟨⟨fun _ => hnot,fun _ => trivial⟩,fun hd => absurd hd hnot,trivial⟩

/-- A list of what is unknown, written as a type that is returned, and a structure that is there. -/
theorem unknown_type_passes :
    let text := "module m 1.0 interface I \x7b list<X> f() S p \x7d struct S \x7b \x7d"
    let w := ((Act.readSystemText 0 .full text).run (Act.newSystem.run {}).2).2
    let f : Inquiry Value :=
      Filter.returnType.applyPlain (.entity 0 (.symbol ⟨0,.operation "I" "f"⟩))
    let p : Inquiry Value := attributeOf (.type 0 ⟨⟨0,.property "I" "p"⟩,0⟩) "is_struct"
    w.Explored 0 ∧ (f.act.run (f.act.run w).2).1 ≠ (f.act.run w).1 ∧
      (∃ name, (f.act.run w).1 = .error (.unknownName name)) ∧
        (p.act.run (p.act.run w).2).1 = (p.act.run w).1 := by
  intro text w f p
  have hnew : Explored 0 (Act.newSystem.run {}).2 := .new (w := {}) rfl
  have hw : w.Explored 0 := hnew.read 0 .full text
  have hread : (w.systemAt 0).layer? ⟨⟨0,.operation "I" "f"⟩,1⟩ = some (.complex "X") ∧
      (w.systemAt 0).lookupFrom 0 "X" none = .error (.unknownName "X") ∧
      (w.systemAt 0).element ⟨⟨0,.operation "I" "f"⟩,0⟩ = ⟨⟨0,.operation "I" "f"⟩,1⟩ ∧
      (w.systemAt 0).layer? ⟨⟨0,.property "I" "p"⟩,0⟩ = some (.complex "S") ∧
      (w.systemAt 0).lookupFrom 0 "S" none = .ok (.symbol ⟨0,.struct "S"⟩) := by decide +kernel
  obtain ⟨hlayer,hunknown,helement,hlayer',hfound⟩ := hread
  have hf : Reading (w.systemAt 0) 0 f ⟨⟨0,.operation "I" "f"⟩,1⟩ :=
    .telling (.returnType (.symbol rfl) helement)
  have hp : Reading (w.systemAt 0) 0 p ⟨⟨0,.property "I" "p"⟩,0⟩ := .telling (.test _ (by decide))
  have hdangles : (w.systemAt 0).Dangles ⟨⟨0,.operation "I" "f"⟩,1⟩ := ⟨_,_,hlayer,rfl,rfl,hunknown⟩
  have hstands : ¬ (w.systemAt 0).Dangles ⟨⟨0,.property "I" "p"⟩,0⟩ := by
    rintro ⟨l,failure,hl,-,-,he⟩
    obtain rfl := Option.some.inj (hlayer'.symm.trans hl)
    cases hfound.symm.trans he
  obtain ⟨hsame,hfails,-⟩ := reading_repeats_iff hw hf
  obtain ⟨hsame',-⟩ := reading_repeats_iff hw hp
  exact ⟨hw,fun he => hsame.mp he hdangles,(hfails hdangles).1,hsame'.mpr hstands⟩

end Workspace.Explored

end InterfaceKit
