import InterfaceKit.Proofs.Model.Lookup

/-!
# Symbols and what holds them

A symbol can be asked for the symbol that it was made for. In a system whose symbols are at the
places that they were made for, the answer is the one in whose part the symbol stands. Every symbol
and every type can be asked for the module that it was made with.
-/
namespace InterfaceKit
open Data Model

/-- The attribute by which what stands in a part tells what it is a part of. -/
def Model.Section.owner? : Section → Option String
  | .modules => some "system"
  | .interfaces | .structs | .enums => some "module"
  | .properties | .operations | .signals => some "interface"
  | .parameters => some "operation"
  | .fields => some "struct"
  | .members => some "enum"
  | .contents => none

namespace Model.Module
variable {α β : Type} {m : Module} {p q : Place} {t : Table α} {place : String → Place}

theorem exists_of_mem_names {k : String} (hk : k ∈ t.names) : ∃ a, t.get? k = some a := by
  cases h : t.get? k with
  | none => exact absurd hk (Table.get?_eq_none_iff.mp h)
  | some a => exact ⟨a,rfl⟩

theorem mem_placesIn (hp : p ∈ (placesIn t place).map (·.2)) :
    ∃ k a, p = place k ∧ t.get? k = some a := by
  obtain ⟨e,he,rfl⟩ := List.mem_map.mp hp
  obtain ⟨k,hk,rfl⟩ := List.mem_map.mp he
  obtain ⟨a,ha⟩ := exists_of_mem_names hk
  exact ⟨k,a,rfl,ha⟩

theorem mem_names {o : Option β} {f : β → Table α}
    (hp : p ∈ (o.map fun x => (f x).names.map place).getD []) :
    ∃ x k a, o = some x ∧ p = place k ∧ (f x).get? k = some a := by
  cases o with
  | none => cases hp
  | some x =>
    obtain ⟨k,hk,rfl⟩ := List.mem_map.mp hp
    obtain ⟨a,ha⟩ := exists_of_mem_names hk
    exact ⟨x,k,a,rfl,rfl,ha⟩

theorem mem_contents (o : Option β) (f : β → Table α) (place : String → Place)
    (hnone : o = none → m.contentTables q = [])
    (hsome : ∀ x, o = some x → m.contentTables q = [placesIn (f x) place]) (hp : p ∈ m.contents q) :
    ∃ x k a, o = some x ∧ p = place k ∧ (f x).get? k = some a := by
  obtain ⟨k,-,hk⟩ := List.mem_filterMap.mp hp
  cases o with
  | none => simp [content?,hnone rfl] at hk
  | some x =>
    simp only [content?,hsome x rfl,List.findSome?_cons,List.findSome?_nil,lookup_placesIn] at hk
    cases hget : (f x).get? k with
    | none => simp [hget] at hk
    | some a =>
      simp only [hget,Option.map_some,Option.some.injEq] at hk
      exact ⟨x,k,a,rfl,hk.symm,hget⟩

theorem holds_of_mem {part : Section} (hpart : part ≠ .contents)
    (hp : p ∈ (m.sectionOf q part).getD []) :
    q.Holds part p ∧ (m.common? p).isSome := by
  unfold sectionOf at hp
  cases part with
  | contents => exact absurd rfl hpart
  | modules => cases hp
  | interfaces | structs | enums =>
    dsimp only at hp
    split at hp
    · obtain ⟨k,a,rfl,ha⟩ := mem_placesIn hp
      subst q
      exact ⟨by constructor,by simp [common?,ha]⟩
    · cases hp
  | properties | operations | signals =>
    cases q with
    | interface i =>
      obtain ⟨x,k,a,hx,rfl,ha⟩ := mem_names hp
      exact ⟨by constructor,by simp [common?,hx,ha]⟩
    | _ => cases hp
  | parameters =>
    cases q with
    | operation i o =>
      obtain ⟨x,k,a,hx,rfl,ha⟩ := mem_contents ((m.interfaces.get? i).bind (·.operations.get? o))
        (·.parameters) (.operationParameter i o) (fun h => by rw [contentTables,h])
        (fun x h => by rw [contentTables,h]) hp
      obtain ⟨y,hy,hx⟩ := Option.bind_eq_some_iff.mp hx
      exact ⟨.operationParameter i o k,by simp [common?,hy,hx,ha]⟩
    | signal i s =>
      obtain ⟨x,k,a,hx,rfl,ha⟩ := mem_contents ((m.interfaces.get? i).bind (·.signals.get? s))
        (·.parameters) (.signalParameter i s) (fun h => by rw [contentTables,h])
        (fun x h => by rw [contentTables,h]) hp
      obtain ⟨y,hy,hx⟩ := Option.bind_eq_some_iff.mp hx
      exact ⟨.signalParameter i s k,by simp [common?,hy,hx,ha]⟩
    | _ => cases hp
  | fields =>
    cases q with
    | struct s =>
      obtain ⟨x,k,a,hx,rfl,ha⟩ := mem_contents (m.structs.get? s) (·.fields) (.field s)
        (fun h => by rw [contentTables,h]) (fun x h => by rw [contentTables,h]) hp
      exact ⟨.field s k,by simp [common?,hx,ha]⟩
    | _ => cases hp
  | members =>
    cases q with
    | enum e =>
      obtain ⟨x,k,a,hx,rfl,ha⟩ := mem_contents (m.enums.get? e) (·.members) (.member e)
        (fun h => by rw [contentTables,h]) (fun x h => by rw [contentTables,h]) hp
      exact ⟨.member e k,by simp [common?,hx,ha]⟩
    | _ => cases hp

end Model.Module

theorem Inquiry.act_bind {α β : Type} (x : Inquiry α) (f : α → Inquiry β) :
    (x >>= f).act = x.act >>= fun a => (f a).act := rfl

namespace Workspace
variable {w : Workspace} {n id : Nat} {i k : String}

theorem run_moduleOf (w : Workspace) (n id : Nat) :
    (Inquiry.moduleOf n id).act.run w = (.ok (((w.systemAt n).module? id).getD default), w) := rfl

theorem run_ownAttribute_none (w : Workspace) (n : Nat) (h : Handle) (m : Module) {name : String}
    (hname : name = "module" ∨ name = "type" ∨ name = "kind") :
    (Inquiry.ownAttribute n h m name).act.run w = (.ok none, w) := by
  obtain ⟨id,p⟩ := h
  cases p with
  | property i k =>
    unfold Inquiry.ownAttribute
    cases hx : (m.interfaces.get? i).bind (·.properties.get? k) with
    | none =>
      simp only [hx]
      rfl
    | some x =>
      simp only [hx]
      rcases hname with rfl | rfl | rfl <;> rfl
  | _ => rcases hname with rfl | rfl | rfl <;> rfl

theorem run_attribute (w : Workspace) (n : Nat) (h : Handle) {name : String}
    (hname : name = "module" ∨ name = "type" ∨ name = "kind") :
    (Inquiry.attributeOf (.entity n (.symbol h)) name).act.run w =
      (.ok (if name = "module" then .entity n (.symbol ⟨((w.systemAt n).originAt h).module,.module⟩)
        else if name = "type" then .type n ⟨h,0⟩ else .text (Inquiry.kindName h.place)), w) := by
  rw [Inquiry.attributeOf,Inquiry.symbolAttribute,Inquiry.act_bind,run_bind,run_moduleOf]
  dsimp only
  rw [Inquiry.act_bind,run_bind,run_ownAttribute_none w n h _ hname]
  rcases hname with rfl | rfl | rfl <;> rfl

theorem attribute_type (w : Workspace) (n : Nat) (h : Handle) :
    (Inquiry.attributeOf (.entity n (.symbol h)) "type").act.run w = (.ok (.type n ⟨h,0⟩), w) :=
  w.run_attribute n h (.inr (.inl rfl))

theorem attribute_kind (w : Workspace) (n : Nat) (h : Handle) :
    (Inquiry.attributeOf (.entity n (.symbol h)) "kind").act.run w =
      (.ok (.text (Inquiry.kindName h.place)), w) :=
  w.run_attribute n h (.inr (.inr rfl))

/-- What stands in a part of a symbol other than a module tells the symbol that it was made for. -/
theorem run_ownAttribute_owner {m : Module} {p q : Place} {part : Section} {a : String}
    (hholds : q.Holds part p) (ha : part.owner? = some a) (hmodule : a ≠ "module")
    (hp : (m.common? p).isSome = true) :
    (Inquiry.ownAttribute n ⟨id,p⟩ m a).act.run w =
      (.ok (some (.entity n (.symbol ((w.systemAt n).originAt ⟨id,p⟩).owner))), w) := by
  cases hholds with
  | interface | struct | enum => exact absurd (Option.some.inj ha).symm hmodule
  | property i k =>
    obtain rfl := Option.some.inj ha
    obtain ⟨c,hc⟩ := Option.isSome_iff_exists.mp hp
    simp only [Module.common?,Option.bind_eq_bind,Option.bind_eq_some_iff,
      Option.map_eq_some_iff] at hc
    obtain ⟨x,hx,y,hy,-⟩ := hc
    have hthere : (m.interfaces.get? i).bind (·.properties.get? k) = some y := by
      rw [hx,Option.bind_some,hy]
    unfold Inquiry.ownAttribute
    simp only [hthere]
    rfl
  | _ =>
    obtain rfl := Option.some.inj ha
    rfl

section
variable (hs : (w.systemAt n).Placed)
include hs

theorem attribute_module (h : Handle) :
    (Inquiry.attributeOf (.entity n (.symbol h)) "module").act.run w =
    (.ok (.entity n (.symbol ⟨h.module,.module⟩)), w) := by
  have hrun := w.run_attribute n h (.inl rfl)
  rwa [if_pos rfl,hs.module_originAt] at hrun

/-- A type has the module of the symbol that it belongs to. -/
theorem attribute_type_module (t : TypeHandle) :
    (Inquiry.attributeOf (.type n t) "module").act.run w =
    (.ok (.entity n (.symbol ⟨t.owner.module,.module⟩)), w) := by
  have hrun : (Inquiry.attributeOf (.type n t) "module").act.run w =
      (.ok (.entity n (.symbol ⟨((w.systemAt n).originAt t.owner).moduleAt t.depth,.module⟩)), w) :=
        rfl
  rw [hrun,hs.moduleAt_originAt]

/-- What stands in a part of a symbol, or of a system, tells which it is. -/
theorem attribute_owner {owner : Entity} {part : Section} {a : String} {h : Handle}
    (ha : part.owner? = some a) (hh : h ∈ w.symbolsIn n owner part) :
    (Inquiry.attributeOf (.entity n (.symbol h)) a).act.run w = (.ok (.entity n owner), w) := by
  cases owner with
  | system =>
    unfold symbolsIn at hh
    dsimp only at hh
    split at hh
    · rename_i hpart
      subst hpart
      obtain rfl := Option.some.inj ha
      obtain ⟨id,-,rfl⟩ := List.mem_map.mp hh
      rfl
    · cases hh
  | symbol c =>
    obtain ⟨id,q⟩ := c
    unfold symbolsIn at hh
    dsimp only at hh
    split at hh
    · rename_i m hm
      obtain ⟨p,hp,rfl⟩ := List.mem_map.mp hh
      have hpart : part ≠ .contents := by
        rintro rfl
        cases ha
      obtain ⟨hholds,hthere⟩ := Module.holds_of_mem hpart hp
      by_cases hmodule : a = "module"
      · subst hmodule
        rw [attribute_module hs]
        cases hholds with
        | interface | struct | enum => rfl
        | _ => exact absurd ha (by decide)
      · have howner : ((w.systemAt n).originAt ⟨id,p⟩).owner = ⟨id,q⟩ := by
          refine hs.owner_originAt ?_ hholds
          rwa [System.common?,hm,Option.bind_some]
        rw [Inquiry.attributeOf,Inquiry.symbolAttribute,Inquiry.act_bind,run_bind,run_moduleOf,hm,
          Option.getD_some]
        dsimp only
        rw [Inquiry.act_bind,run_bind,run_ownAttribute_owner hholds ha hmodule hthere,howner]
        rfl
    · cases hh

end

end Workspace

end InterfaceKit
