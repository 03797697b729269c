import InterfaceKit.Proofs.Documents.Revised
import InterfaceKit.Proofs.Model.Frames

/-!
# Parsed systems

Texts and documents are read into a system, tags are added to it, and anything may be asked in
between; prefixes for generated classes may be set at any time. All the time the references of its
types are sound, and the types of a module whose text was read to its end are well formed: being
asked changes nothing that is written of a type.
-/
namespace InterfaceKit
open Data Model

namespace Workspace

/-- The workspaces in which the system `n` has been parsed, and anything may have been asked. In the
modules `ids` a text was read to its end. -/
inductive Parsed (n : Nat) : List Nat → Workspace → Prop
  | new {w w' : Workspace} (h : Act.newSystem.run w = (.ok n, w')) : Parsed n [] w'
  | revise {ids : List Nat} {w : Workspace} (h : Parsed n ids w) (r : Revision) :
      Parsed n ids (r.act.run w).2
  | complete {ids : List Nat} {w : Workspace} (h : Parsed n ids w) (r : Revision) (hr :
      r.Completes n w) :
      Parsed n ((w.systemAt n).archive.length :: ids) (r.act.run w).2
  | ask {ids : List Nat} {w : Workspace} (h : Parsed n ids w) {α : Type} (x : Inquiry α) :
      Parsed n ids (x.act.run w).2
  | name {ids : List Nat} {w : Workspace} (h : Parsed n ids w) (cppPrefix qmlPrefix : String) :
      Parsed n ids { w with cppPrefix, qmlPrefix }

end Workspace

/-! ## Types that are well formed -/

namespace Model

theorem TypeExpr.Formed.congr {t t' : TypeExpr} {void : Bool} (h : t.Formed void)
    (hlayers : t'.layers.map Layer.bare = t.layers.map Layer.bare) : t'.Formed void := by
  have hlayer : ∀ k, (t'.layer? k).map Layer.bare = (t.layer? k).map Layer.bare := by
    intro k
    rw [layer?,layer?,← List.getElem?_map,← List.getElem?_map,hlayers]
  have hnested : ∀ k, t'.hasNested k = t.hasNested k := by
    intro k
    rw [hasNested,hasNested,← Option.isSome_map (f := Layer.bare),hlayer,Option.isSome_map]
  intro depth l' hl'
  have hbare := hlayer depth
  rw [hl',Option.map_some] at hbare
  obtain ⟨l,hl,heq⟩ := Option.map_eq_some_iff.mp hbare.symm
  obtain ⟨hkinds,hcontainer,hvoid⟩ := h depth l hl
  rw [hnested,← hcontainer]
  exact ⟨(congrArg (·.kinds.count true) heq).symm.trans hkinds,(congrArg Layer.isContainer heq).symm,
    fun hv => hvoid ((congrArg Layer.isVoid heq).trans hv)⟩

namespace System
variable {s s' : System} {id : Nat}

/-- The module is there, and the types of its symbols are well formed. -/
structure Formed (s : System) (id : Nat) : Prop where
  there : id < s.archive.length
  types : ∀ p c, p.hasType = true → s.common? ⟨id,p⟩ = some c → c.type.Formed p.isOperation

theorem Formed.register (h : s.Formed id) (m : Module) : (s.register m).2.Formed id where
  there := by
    rw [System.register,List.length_append]
    exact Nat.lt_add_right _ h.there
  types p c hp hc := by
    have hmodule : (s.register m).2.module? id = s.module? id := List.getElem?_append_left h.there
    rw [common?,hmodule] at hc
    exact h.types p c hp hc

theorem Formed.registered {m : Module} (hm : m.Typed) (s : System) :
    (s.register m).2.Formed s.archive.length where
  there := by
    rw [System.register,List.length_append]
    exact Nat.lt_succ_self _
  types p c hp hc := by
    have hmodule : (s.register m).2.module? s.archive.length = some m :=
      List.getElem?_concat_length ..
    rw [common?,hmodule] at hc
    exact (hm.common? hc).1 hp

theorem Formed.resolves (h : s.Formed id) (hs : s.Sound) (hresolves : s.Resolves s') :
    s'.Formed id where
  there := by
    have hlength := congrArg List.length (Prod.mk.inj hresolves.outline_eq).2
    rw [List.length_map,List.length_map] at hlength
    rw [hlength]
    exact h.there
  types p c' hp hc' := by
    have hwording := hs.wording?_resolves hresolves ⟨id,p⟩
    rw [wording?,wording?,hc',Option.map_some] at hwording
    obtain ⟨c,hc,heq⟩ := Option.map_eq_some_iff.mp hwording.symm
    exact (h.types p c hp hc).congr (Prod.mk.inj heq).2.symm

/-- Modules, interfaces, structures and enumerations are given no type. -/
def Untyped (s : System) : Prop := ∀ h c, h.place.isPart = false → s.common? h = some c →
  c.type.layers.map Layer.bare = [Layer.bare {}]

theorem Untyped.register (h : s.Untyped) {m : Module} (hm : m.Untyped) :
    (s.register m).2.Untyped := by
  intro k c hk hc
  obtain ⟨m',hm',hc'⟩ := Option.bind_eq_some_iff.mp hc
  change (s.archive ++ [m])[k.module]? = some m' at hm'
  by_cases hold : k.module < s.archive.length
  · rw [List.getElem?_append_left hold] at hm'
    exact h k c hk (Option.bind_eq_some_iff.mpr ⟨m',hm',hc'⟩)
  · rw [List.getElem?_append_right (Nat.not_lt.mp hold)] at hm'
    obtain rfl := List.mem_singleton.mp (List.mem_of_getElem? hm')
    rw [hm.common? hc' hk]
    rfl

theorem Untyped.resolves (h : s.Untyped) (hs : s.Sound) (hresolves : s.Resolves s') :
    s'.Untyped := by
  intro k c' hk hc'
  have hwording := hs.wording?_resolves hresolves k
  rw [wording?,wording?,hc',Option.map_some] at hwording
  obtain ⟨c,hc,heq⟩ := Option.map_eq_some_iff.mp hwording.symm
  exact (Prod.mk.inj heq).2.symm.trans (h k c hk hc)

end System

end Model

/-! ## What is kept -/

namespace Workspace
variable {n : Nat} {ids : List Nat} {w : Workspace}

/-- What is kept of the system `n` and of its modules `ids`, whatever is asked. -/
structure Retains (n : Nat) (ids : List Nat) (w : Workspace) : Prop where
  there : n < w.systems.length
  sound : (w.systemAt n).Sound
  formed : ∀ id ∈ ids, (w.systemAt n).Formed id
  untyped : (w.systemAt n).Untyped

theorem Retains.revise (h : w.Retains n ids) (r : Revision) : (r.act.run w).2.Retains n ids := by
  obtain ⟨hthere,hsame | ⟨m,hm,hsystem⟩⟩ := r.systemAt_act h.there
  · exact ⟨hthere,hsame ▸ h.sound,hsame ▸ h.formed,hsame ▸ h.untyped⟩
  · refine ⟨hthere,?_,?_,?_⟩
    · rw [hsystem]
      exact h.sound.register hm.named hm.placed hm.fresh
    · rw [hsystem]
      exact fun id hid => (h.formed id hid).register m
    · rw [hsystem]
      exact h.untyped.register hm.untyped

theorem Retains.complete (h : w.Retains n ids) {r : Revision} (hr : r.Completes n w) :
    (r.act.run w).2.Retains n ((w.systemAt n).archive.length :: ids) := by
  have hkept := h.revise r
  obtain ⟨m,-,htyped,hsystems⟩ := hr.act_systems
  refine { hkept with formed := List.forall_mem_cons.mpr ⟨?_,hkept.formed⟩ }
  rw [systemAt_modify_self hsystems h.there]
  exact .registered htyped _

theorem Retains.grows (h : w.Retains n ids) {w' : Workspace} (hg : w.Grows w') :
    w'.Retains n ids where
  there := by
    rw [hg.count]
    exact h.there
  sound := h.sound.resolves (hg.systems n)
  formed id hid := (h.formed id hid).resolves h.sound (hg.systems n)
  untyped := h.untyped.resolves h.sound (hg.systems n)

theorem Parsed.retains (hw : w.Parsed n ids) : w.Retains n ids := by
  induction hw with
  | @new w w' h =>
    obtain ⟨hthere,tags,hsystem⟩ := systemAt_newSystem h
    refine ⟨hthere,?_,(fun _ hid => nomatch hid),?_⟩
    · rw [hsystem]
      exact .empty tags
    · rw [hsystem]
      exact fun _ _ _ hc => nomatch hc
  | revise _ r ih => exact ih.revise r
  | complete _ r hr ih => exact ih.complete hr
  | ask _ x ih => exact ih.grows (x.grows _)
  | name _ _ _ ih => exact { ih with }

end Workspace

end InterfaceKit
