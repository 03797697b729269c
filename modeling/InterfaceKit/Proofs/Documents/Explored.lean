import InterfaceKit.Proofs.Documents.Built
import InterfaceKit.Proofs.Model.References

/-!
# Systems that are asked about

Between the texts that are read into a system anything may be asked: templates and filters resolve
types, and these keep their references when later texts replace modules. In all these systems a type
and the symbol that it refers to tell the same qualified name.
-/
namespace InterfaceKit
open Grammar Lexical Model

theorem Inquiry.attributeOf_reference (n : Nat) (t : TypeHandle) :
    attributeOf (.type n t) "reference" = (do
      let _ ← layer n t
      let e ← reference n t
      e.elim (return .null) (return .entity n ·)) := by
  refine bind_congr fun _ => bind_congr fun e => ?_
  cases e <;> rfl

namespace Workspace

/-- The workspaces in which the system `n` has come about by reading texts, and anything may have
been asked. -/
inductive Explored (n : Nat) : Workspace → Prop
  | new {w w' : Workspace} (h : Act.newSystem.run w = (.ok n, w')) : Explored n w'
  | read {w : Workspace} (h : Explored n w) (k : Nat) (profile : Profile) (text : String) :
      Explored n ((Act.readSystemText k profile text).run w).2
  | ask {w : Workspace} (h : Explored n w) {α : Type} (x : Inquiry α) : Explored n (x.act.run w).2

/-- A workspace with the reference of a type asked for. -/
def referred (w : Workspace) (n : Nat) (t : TypeHandle) : Workspace :=
  { w with systems := w.systems.modify n fun _ => ((w.systemAt n).reference t).2 }

variable {n : Nat} {w : Workspace} {t : TypeHandle}

theorem run_reference (w : Workspace) (n : Nat) (t : TypeHandle) :
    (Inquiry.reference n t).act.run w = (((w.systemAt n).reference t).1, w.referred n t) :=
  Act.run_lift _ _

theorem systemAt_referred (w : Workspace) (n : Nat) (t : TypeHandle) :
    (w.referred n t).systemAt n = ((w.systemAt n).reference t).2 := by
  rcases Nat.lt_or_ge n w.systems.length with hn | hn
  · have hsystems : (w.referred n t).systems = w.systems.modify n fun _ =>
      ((w.systemAt n).reference t).2 := rfl
    exact systemAt_modify_self hsystems hn
  · have hsystems : (w.referred n t).systems = w.systems := by
      simp [referred,List.modify_eq_self hn]
    have hempty : w.systemAt n = {} := by simp [systemAt,hn]
    rw [systemAt,hsystems,← systemAt,hempty]
    rfl

theorem run_referenceAttribute (w : Workspace) (n : Nat) (t : TypeHandle) :
    (Inquiry.attributeOf (.type n t) "reference").act.run w =
      (((w.systemAt n).reference t).1.map fun e => e.elim .null (.entity n ·), w.referred n t) := by
  have hattribute : (Inquiry.attributeOf (.type n t) "reference").act.run w =
      ((Inquiry.reference n t).act >>= fun e =>
        (e.elim (return .null) (return .entity n ·) : Inquiry Data.Value).act).run w := by
    rw [Inquiry.attributeOf_reference]
    rfl
  rw [hattribute,run_bind,run_reference]
  rcases ((w.systemAt n).reference t).1 with failure | (_ | e) <;> rfl

variable {h : Handle} {m : Module}

/-- If a symbol is told, it is the one that the type is known to refer to from then on. -/
theorem target_of_referenceAttribute (hs : (w.systemAt n).Sound) {w' : Workspace}
    (href : (Inquiry.attributeOf (.type n t) "reference").act.run w =
      (.ok (.entity n (.symbol h)), w')) :
    (w'.systemAt n).Sound ∧ ∃ l, (w'.systemAt n).layer? t = some l ∧
    l.resolution.target = some (.symbol h) := by
  rw [run_referenceAttribute] at href
  obtain ⟨hvalue,rfl⟩ := Prod.mk.inj href
  rw [systemAt_referred]
  refine ⟨hs.reference t,?_⟩
  rcases hs.answer t with ⟨hanswer,-⟩ | ⟨⟨name,hanswer⟩,-⟩
  · rw [hanswer] at hvalue
    rcases hl : ((w.systemAt n).reference t).2.layer? t with _ | l
    · rw [hl] at hvalue
      cases hvalue
    · refine ⟨l,rfl,?_⟩
      rw [hl,Option.bind_some] at hvalue
      rcases ht : l.resolution.target with _ | e
      · rw [ht] at hvalue
        cases hvalue
      · rw [ht] at hvalue
        cases hvalue
        rfl
  · rw [hanswer] at hvalue
    cases hvalue

theorem run_typeQualifiedName {l : Layer} (hm : (w.systemAt n).module? t.owner.module = some m)
    (hl : (w.systemAt n).layer? t = some l) :
    (Inquiry.attributeOf (.type n t) "qualified_name").act.run w =
      (.ok (.text (m.qualify l.name)), w) := by
  have hrun : (Inquiry.attributeOf (.type n t) "qualified_name").act.run w =
      (.ok (.text ((((w.systemAt n).module? t.owner.module).getD default).qualify
        (((w.systemAt n).layer? t).getD {}).name)), w) := rfl
  rw [hrun,hm,hl,Option.getD_some,Option.getD_some]

theorem run_symbolQualifiedName {name : String} {c : Common}
    (hm : (w.systemAt n).module? h.module = some m) (hp : m.content? .module name = some h.place)
    (hc : m.common? h.place = some c) :
    (Inquiry.attributeOf (.entity n (.symbol h)) "qualified_name").act.run w =
      (.ok (.text (m.qualify c.name)), w) := by
  obtain ⟨id,p⟩ := h
  have hrun : (Inquiry.attributeOf (.entity n (.symbol ⟨id,p⟩)) "qualified_name").act.run w =
      (.ok (.text ((((w.systemAt n).module? id).getD default).qualifiedName p
        (((((w.systemAt n).module? id).getD default).common? p).getD default).name)), w) := by
    rcases Module.content?_module hp with ⟨rfl,-⟩ | ⟨rfl,-⟩ | ⟨rfl,-⟩ <;> rfl
  rw [hrun,hm,Option.getD_some,hc,Option.getD_some,Module.qualifiedName_symbol hp]

namespace Explored

theorem sound (hw : w.Explored n) : (w.systemAt n).Sound := by
  induction hw with
  | @new w w' h =>
    obtain ⟨-,tags,hsystem⟩ := systemAt_newSystem h
    rw [hsystem]
    exact .empty tags
  | read _ k profile text ih =>
    exact readSystemText_keeps (fun m s hm hs => hs.register hm.named hm.placed hm.fresh) k profile
      text ih
  | @ask w _ _ x ih => exact ih.resolves ((x.grows w).systems n)

/-- A type and the symbol that it refers to tell the same qualified name, unless the symbol is a
module. -/
theorem reference_names (hw : w.Explored n) {h : Handle} {w' : Workspace}
    (href : (Inquiry.attributeOf (.type n t) "reference").act.run w =
      (.ok (.entity n (.symbol h)), w'))
    (hh : h.place ≠ .module) :
    ∃ name, (Inquiry.attributeOf (.type n t) "qualified_name").act.run w' = (.ok (.text name), w') ∧
      (Inquiry.attributeOf (.entity n (.symbol h)) "qualified_name").act.run w' =
        (.ok (.text name), w') := by
  obtain ⟨hs,l,hl,htarget⟩ := target_of_referenceAttribute hw.sound href
  obtain ⟨m,-,hm,-⟩ := System.exists_common_of_layer? hl
  rcases hs.target hm hl htarget with hmodule | ⟨m',k,hm',hp,hqualified⟩
  · exact absurd hmodule hh
  · obtain ⟨c,hc,rfl⟩ := (hs.named.module hm').exists_common hp
    refine ⟨m.qualify l.name,run_typeQualifiedName hm hl,?_⟩
    rw [run_symbolQualifiedName hm' hp hc,hqualified]

/-- A list of structures of another module, written with the name of the module, and a flag with a
dotted name of its own module. -/
theorem nested_reference_named :
    let build := Act.readSystemText 0 .full "module a.b 1.0 struct S \x7b \x7d"
    let use := Act.readSystemText 0 .full
      "module c 1.0 interface I \x7b list<a.b.S> p x.y q \x7d struct S \x7b \x7d flag x.y \x7b A \x7d"
    let w := (use.run (build.run (Act.newSystem.run {}).2).2).2
    let p : TypeHandle := ⟨⟨1,.property "I" "p"⟩,1⟩
    let q : TypeHandle := ⟨⟨1,.property "I" "q"⟩,0⟩
    let agree (t : TypeHandle) (h : Handle) : Prop :=
      ∃ w' name, (Inquiry.attributeOf (.type 0 t) "reference").act.run w =
        (.ok (.entity 0 (.symbol h)), w') ∧
        (Inquiry.attributeOf (.type 0 t) "qualified_name").act.run w' = (.ok (.text name), w') ∧
        (Inquiry.attributeOf (.entity 0 (.symbol h)) "qualified_name").act.run w' =
          (.ok (.text name), w')
    w.Explored 0 ∧ agree p ⟨0,.struct "S"⟩ ∧ agree q ⟨1,.enum "x.y"⟩ := by
  intro build use w p q agree
  have hnew : Explored 0 (Act.newSystem.run {}).2 := .new (w := {}) rfl
  have hw : w.Explored 0 := (hnew.read 0 .full _).read 0 .full _
  have hagree : ∀ t h, ((w.systemAt 0).reference t).1 = .ok (some (.symbol h)) → h.place ≠ .module →
      agree t h := by
    intro t h he hh
    have href := run_referenceAttribute w 0 t
    rw [he] at href
    obtain ⟨name,hname⟩ := reference_names hw href hh
    exact ⟨_,name,href,hname⟩
  have hreference : (((w.systemAt 0).reference p).1, ((w.systemAt 0).reference q).1) =
      (.ok (some (.symbol ⟨0,.struct "S"⟩)), .ok (some (.symbol ⟨1,.enum "x.y"⟩))) := by
    decide +kernel
  obtain ⟨hp,hq⟩ := Prod.mk.inj hreference
  exact ⟨hw,hagree p _ hp (by decide),hagree q _ hq (by decide)⟩

end Explored

end Workspace

end InterfaceKit
