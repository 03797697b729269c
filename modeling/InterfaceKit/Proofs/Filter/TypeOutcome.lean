import InterfaceKit.Proofs.Filter.TypeMeaning

/-!
# Outcomes that do not depend on what was asked before

A symbol whose type is resolved is written the same way in every workspace that inquiries lead to.
So inquiries about such symbols can be made one after the other, and each gives what it would have
given alone.
-/
namespace InterfaceKit
open Data Model Inquiry

theorem Workspace.Grows.resolves {w v : Workspace} (h : w.Grows v) (n : Nat) :
    (w.systemAt n).Resolves (v.systemAt n) :=
  h.systems n

namespace Inquiry
variable {α β : Type} {w : Workspace} {n : Nat} {u : TypeHandle}

/-- This comes out, whatever is asked before. -/
def Firm (w : Workspace) (x : Inquiry α) (r : Except Failure α) : Prop :=
  ∀ v, w.Grows v → (x.act.run v).1 = r

namespace Firm
variable {x : Inquiry α} {f : α → Inquiry β} {r : Except Failure α} {g : α → Except Failure β}

theorem now (h : Firm w x r) : (x.act.run w).1 = r := h w (.refl w)

theorem pure (a : α) : Firm w (Pure.pure a) (.ok a) := fun _ _ => rfl

theorem bind (hx : Firm w x r) (hf : ∀ a, r = .ok a → Firm w (f a) (g a)) :
    Firm w (x >>= f) (r >>= g) := by
  intro v hv
  have hr := hx v hv
  have hgrows := x.grows v
  rw [act_bind,run_bind]
  revert hr hgrows
  rcases x.act.run v with ⟨r',v'⟩
  rintro rfl hgrows
  cases r' with
  | error e => rfl
  | ok a => exact hf a rfl v' (hv.trans hgrows)

theorem map (hx : Firm w x r) (k : α → β) : Firm w (do return k (← x)) (r.map k) := by
  have hbind := hx.bind (f := fun a => Pure.pure (k a)) (g := fun a => .ok (k a)) fun a _ =>
    .pure (k a)
  cases r <;> exact hbind

theorem mapM {γ : Type} {cs : List γ} {k : γ → α} {g : γ → Except Failure β}
    (h : ∀ c ∈ cs, Firm w (f (k c)) (g c)) :
    Firm w ((cs.map k).mapM f) (cs.mapM g) := by
  have hloop : ∀ done, Firm w (List.mapM.loop f (cs.map k) done) (List.mapM.loop g cs done) := by
    induction cs with
    | nil => exact fun done => .pure done.reverse
    | cons c cs ih =>
      intro done
      exact (h c (List.mem_cons_self ..)).bind fun b _ =>
        ih (fun c' hc' => h c' (List.mem_cons_of_mem _ hc')) (b :: done)
  exact hloop []

end Firm

theorem eq_ok_iff {r : Except Failure α} {a : α} : r = .ok a ↔ r.toOption = some a := by
  cases r <;> simp [Except.toOption]

/-- An inquiry about one type can be made when the type has been asked: it has all outcomes in
common with what is told then. -/
theorem outcome_of_answered {x : Inquiry α} {P : Except Failure α → Prop} (hs : (w.systemAt n).Sound)
    (hnot : ¬ (w.systemAt n).Dangles u)
    (hx : ∀ v, w.Grows v → (v.bareLayer n u).isComplex = true → Consults v n u x)
    (h : ∀ v, w.Grows v → v.Answered n u → P (x.act.run v).1) {v : Workspace} (hv : w.Grows v) :
    P (x.act.run v).1 := by
  have hsv := hs.resolves (hv.resolves n)
  by_cases hc : (v.bareLayer n u).isComplex = true
  · have hnotv : ¬ (v.systemAt n).Dangles u := by
      rw [hsv.dangles_iff,(hs.agree hnot (hv.resolves n)).answer,← hs.dangles_iff]
      exact hnot
    obtain ⟨k,hk⟩ := hx v hv hc
    have hfirst := hk v (.refl _ _ _)
    have hsecond := hk _ (Workspace.alike_referred hsv u)
    have hsettled := Workspace.settled_referred hsv u
    rw [run_bind,Workspace.run_reference] at hfirst
    rw [run_bind,hsettled,Workspace.systemAt_referred] at hsecond
    rcases hsv.answer u with ⟨hanswer,-⟩ | ⟨-,hdangles⟩
    · rw [hanswer] at hfirst
      rw [hfirst.trans hsecond.symm]
      exact h _ (hv.trans (.reference v n u)) fun _ _ _ => hsettled
    · exact absurd hdangles hnotv
  · refine h v hv fun l hl hcomplex => absurd ?_ hc
    rw [Workspace.bareLayer,hl]
    exact hcomplex

end Inquiry

/-! ## Symbols whose type is resolved -/

namespace Workspace.Grows
variable {w v : Workspace} {n : Nat} {h : Handle}

theorem cppPrefix (hv : w.Grows v) : v.cppPrefix = w.cppPrefix := by rw [hv.rest]

section
variable (hv : w.Grows v) (hs : (w.systemAt n).Sound)
  (hh : ¬ (w.systemAt n).Dangles ((w.systemAt n).element ⟨h,0⟩))
include hv hs

theorem entityName : v.entityName n (.symbol h) = w.entityName n (.symbol h) := by
  have hname : ∀ w : Workspace, w.entityName n (.symbol h) =
      (((w.systemAt n).wording? h).map (·.1)).getD "" := by
    intro w
    rw [Workspace.entityName,System.wording?,Option.map_map]
    rfl
  rw [hname,hname,hs.wording?_resolves (hv.resolves n)]

theorem shortName (id : Nat) : (((v.systemAt n).module? id).getD default).shortName =
    (((w.systemAt n).module? id).getD default).shortName := by
  have hname : ∀ s : System, (s.module? id).map Module.name =
      (s.wording? ⟨id,.module⟩).map (·.1) := by
    intro s
    rw [System.wording?,System.common?,Option.map_map]
    cases s.module? id <;> rfl
  have hshort : ∀ s : System, ((s.module? id).getD default).shortName =
      ((Text.splitAt '.' (((s.module? id).map Module.name).getD "").toList).map
        String.ofList).getLastD "" := by
    intro s
    cases s.module? id <;> rfl
  rw [hshort,hshort,hname,hname,hs.wording?_resolves (hv.resolves n)]

include hh

theorem element : (v.systemAt n).element ⟨h,0⟩ = (w.systemAt n).element ⟨h,0⟩ :=
  (hs.agree (hs.not_dangles_of_element hh) (hv.resolves n)).element _

theorem facts : (v.systemAt n).facts ⟨h,0⟩ = (w.systemAt n).facts ⟨h,0⟩ :=
  hs.facts_resolves hh (hv.resolves n)

end

end Workspace.Grows

namespace Inquiry
variable {w : Workspace} {n : Nat} {h : Handle}

section
variable (hs : (w.systemAt n).Sound) (hh : ¬ (w.systemAt n).Dangles ((w.systemAt n).element ⟨h,0⟩))
include hs hh

theorem firm_returnType :
    Firm w (Cpp.returnType (.entity n (.symbol h)))
      (((w.systemAt n).facts ⟨h,0⟩).returned w.cppPrefix) := by
  refine fun _ => outcome_of_answered (P := (· = _)) hs (u := (w.systemAt n).element ⟨h,0⟩) hh
    (fun v hv hc => ?_) fun v hv ha => ?_
  · exact .returnType (hs.resolves (hv.resolves n)) hc (.symbol rfl) (hv.element hs hh)
  · rw [← hv.element hs hh] at ha
    rw [gives_returnType (hs.resolves (hv.resolves n)) (.symbol rfl) ha,hv.facts hs hh,hv.cppPrefix]

theorem firm_parameterType :
    Firm w (Cpp.parameterType (.entity n (.symbol h)))
      ((((w.systemAt n).facts ⟨h,0⟩).returned w.cppPrefix).map
      (((w.systemAt n).facts ⟨h,0⟩).meaning.passed · (w.entityName n (.symbol h)))) := by
  refine fun _ => outcome_of_answered (P := (· = _)) hs (u := (w.systemAt n).element ⟨h,0⟩) hh
    (fun v hv hc => ?_) fun v hv ha => ?_
  · exact .parameterType (hs.resolves (hv.resolves n)) hc (.symbol rfl) (hv.element hs hh)
  · rw [← hv.element hs hh] at ha
    have hpresents : Presents n ⟨h,0⟩ (.entity n (.symbol h)) := .symbol rfl
    have hname : (Generic.plainText (.entity n (.symbol h))).act.run v =
      (.ok (v.entityName n (.symbol h)), v) := rfl
    rw [gives_parameterType (hs.resolves (hv.resolves n)) hpresents hname ha,hv.facts hs hh,
      hv.cppPrefix,hv.entityName hs]

/-- Why there is no first value may be told differently. -/
theorem outcome_defaultValue (hplace : h.place.hasType = true) :
    ((Cpp.defaultValue (.entity n (.symbol h))).act.run w).1.toOption =
      (((w.systemAt n).facts ⟨h,0⟩).returned w.cppPrefix).toOption.bind
        ((w.systemAt n).facts ⟨h,0⟩).meaning.first? := by
  refine outcome_of_answered (P := fun r => r.toOption = _) hs (u := (w.systemAt n).element ⟨h,0⟩) hh
    (fun v hv hc => ?_) (fun v hv ha => ?_) (.refl w)
  · exact .defaultValue (hs.resolves (hv.resolves n)) hc hplace (hv.element hs hh)
  · rw [← hv.element hs hh] at ha
    obtain ⟨r,hr,ho,-⟩ := yields_defaultValue (hs.resolves (hv.resolves n)) hplace ha
    rw [hr,ho,hv.facts hs hh,hv.cppPrefix]

end

theorem outcome_qmlDefaultValue (hs : (w.systemAt n).Sound) (hnot : ¬ (w.systemAt n).Dangles ⟨h,0⟩)
    (hm : (w.systemAt n).meaning ⟨h,0⟩ = .struct ∨
      ∃ members, (w.systemAt n).meaning ⟨h,0⟩ = .enumeration true members) :
    ((Qml.defaultValue (.entity n (.symbol h))).act.run w).1.toOption =
      (Generic.upperFirstText? (((w.systemAt n).module? h.module).getD default).shortName).bind
        ((w.systemAt n).facts ⟨h,0⟩).qmlFirst? := by
  have hv : Presents n ⟨h,0⟩ (.entity n (.symbol h)) := .symbol rfl
  have hself : (w.systemAt n).element ⟨h,0⟩ = ⟨h,0⟩ := hs.element_self <| by
    rcases hm with hm | ⟨members,hm⟩ <;> rw [hm] <;> nofun
  cases hname : Generic.upperFirstText?
    (((w.systemAt n).module? h.module).getD default).shortName with
  | none =>
    have hupper := run_upperFirst (((w.systemAt n).module? h.module).getD default).shortName w
    rw [hname] at hupper
    have hrun : Gives w (Qml.defaultValue (.entity n (.symbol h)))
        (.error (.outOfRange "string index out of range")) :=
      .after (hv.run_moduleOf hs.placed) (.fail hupper)
    exact congrArg (·.1.toOption) hrun
  | some name =>
    refine outcome_of_answered (P := fun r => r.toOption = _) hs (u := ⟨h,0⟩) hnot
      (fun v hg hc => ?_) (fun v hg ha => ?_) (.refl w)
    · refine .qmlDefaultValue (hs.resolves (hg.resolves n)) hc hv ?_
      rw [hg.shortName hs]
      intro hempty
      rw [hempty] at hname
      cases hname
    · have hfacts := hg.facts hs (hself.symm ▸ hnot)
      have hmeaning : (v.systemAt n).meaning ⟨h,0⟩ = (w.systemAt n).meaning ⟨h,0⟩ :=
        congrArg TypeFacts.meaning hfacts
      obtain ⟨r,hr,ho,-⟩ := yields_qmlDefaultValue (hs.resolves (hg.resolves n)) hv ha
        (by rw [hg.shortName hs]; exact hname) (by rw [hmeaning]; exact hm)
      rw [hr,ho,hfacts]
      rfl

end Inquiry

end InterfaceKit
