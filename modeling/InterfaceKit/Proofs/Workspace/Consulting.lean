import InterfaceKit.Proofs.Documents.Explored
import InterfaceKit.Proofs.Workspace.Owners

/-!
# Inquiries that consult a type

An inquiry about a type first reads what is written of it, then asks what it refers to, and goes on
with the answer. What is written does not change when a type is resolved, so the inquiry comes to
the same question again when it is repeated. An inquiry that finds its types settled changes
nothing.
-/
namespace InterfaceKit
open Data Model

/-! ## What is written of a symbol -/

/-- A layer without what is known of its reference. -/
def Model.Layer.bare (l : Layer) : Layer := l.note fun _ => {}

namespace Model.System
variable {s s' : System} {t : TypeHandle} {l : Layer}

/-- The name of a symbol and the layers of its type, without what is known of their references. -/
def wording? (s : System) (h : Handle) : Option (String × List Layer) :=
  (s.common? h).map fun c => (c.name, c.type.layers.map Layer.bare)

theorem wording?_note (s : System) (t : TypeHandle) (g : Resolution → Resolution) :
    (s.note t g).wording? t.owner = s.wording? t.owner := by
  have hlayers : ∀ type : TypeExpr,
      (type.modify t.depth (·.note g)).layers.map Layer.bare = type.layers.map Layer.bare := by
    intro type
    apply List.ext_getElem?
    intro k
    have hlayer : (type.modify t.depth (·.note g)).layers[k]? = _ :=
      type.layer?_modify t.depth k (·.note g)
    rw [List.getElem?_map,List.getElem?_map,hlayer]
    split
    · rw [Option.map_map]
      rfl
    · rfl
  rw [wording?,note,modifyLayer,common?_modifyCommon,Option.map_map,wording?]
  cases s.common? t.owner with
  | none => rfl
  | some c => exact congrArg (fun ls => some (c.name, ls)) (hlayers c.type)

theorem map_bare_layer? (s : System) (t : TypeHandle) :
    (s.layer? t).map Layer.bare = (s.wording? t.owner).bind (·.2[t.depth]?) := by
  rw [layer?,wording?]
  cases s.common? t.owner with
  | none => rfl
  | some c => exact List.getElem?_map.symm

theorem exists_wording (hl : s.layer? t = some l) :
    ∃ name ls, s.wording? t.owner = some (name, ls) ∧ ls[t.depth]? = some l.bare := by
  have hbare := s.map_bare_layer? t
  rw [hl,Option.map_some] at hbare
  obtain ⟨⟨name,ls⟩,hwording,hls⟩ := Option.bind_eq_some_iff.mp hbare.symm
  exact ⟨name,ls,hwording,hls⟩

/-- What a type is made of if it is a list, or a list of lists: the type that the lists stand
around. -/
def element (s : System) (t : TypeHandle) : TypeHandle :=
  { t with depth := t.depth +
      ((s.wording? t.owner).map fun x => ((x.2.drop t.depth).takeWhile (·.isList)).length).getD 0 }

theorem owner_of_element {u : TypeHandle} (h : s.element t = u) : t.owner = u.owner := by
  rw [← h,element]

theorem element_of_not_list (h : ∀ l, s.layer? t = some l → l.isList = false) : s.element t = t := by
  have hbare := s.map_bare_layer? t
  rw [element]
  cases hwording : s.wording? t.owner with
  | none => rfl
  | some x =>
    rw [hwording,Option.bind_some] at hbare
    have hnone : (x.2.drop t.depth).takeWhile (·.isList) = [] := by
      cases hdrop : x.2.drop t.depth with
      | nil => rfl
      | cons b ls =>
        have hb : x.2[t.depth]? = some b := by
          rw [← Nat.add_zero t.depth,← List.getElem?_drop,hdrop,List.getElem?_cons_zero]
        rw [hb] at hbare
        obtain ⟨l,hl,rfl⟩ := Option.map_eq_some_iff.mp hbare
        have hlist : l.bare.isList = false := h l hl
        rw [List.takeWhile_cons,hlist]
        rfl
    simp [hnone]

theorem element_of_list (hl : s.layer? t = some l) (hlist : l.isList = true) :
    s.element t = s.element { t with depth := t.depth + 1 } := by
  obtain ⟨name,ls,hwording,hls⟩ := exists_wording hl
  obtain ⟨hlt,hget⟩ := List.getElem?_eq_some_iff.mp hls
  have hdrop : ls.drop t.depth = l.bare :: ls.drop (t.depth + 1) := by
    rw [List.drop_eq_getElem_cons hlt,hget]
  have hbare : l.bare.isList = true := hlist
  simp only [element,hwording,Option.map_some,Option.getD_some,hdrop,List.takeWhile_cons,hbare,
    if_true,List.length_cons]
  congr 1
  omega

/-- A type is what it is made of, or it is a list around it. -/
theorem element_cases {u : TypeHandle} (h : s.element t = u) :
    t = u ∨ ∃ l, s.layer? t = some l ∧ l.isList = true ∧
    s.element { t with depth := t.depth + 1 } = u := by
  cases hl : s.layer? t with
  | none =>
    refine .inl ((element_of_not_list ?_).symm.trans h)
    intro l hl'
    cases hl.symm.trans hl'
  | some l =>
    cases hlist : l.isList with
    | true => exact .inr ⟨l,rfl,hlist,(element_of_list hl hlist).symm.trans h⟩
    | false =>
      refine .inl ((element_of_not_list ?_).symm.trans h)
      intro l' hl'
      obtain rfl := Option.some.inj (hl.symm.trans hl')
      exact hlist

theorem moduleName_note (s : System) (t : TypeHandle) (g : Resolution → Resolution) (id : Nat) :
    ((s.note t g).module? id).map Module.name = (s.module? id).map Module.name := by
  rw [module?_note]
  split
  · rw [Option.map_map]
    congr 1
    funext m
    exact Module.name_modifyCommon fun _ => rfl
  · rfl

end Model.System

/-! ## Workspaces that differ in what is known of a type -/

namespace Workspace
variable {w v : Workspace} {n : Nat} {u t : TypeHandle}

/-- The workspaces agree on what is written of a symbol of the system `n`, and on everything that is
not in a system. If symbols are at the places that they were made for, they still are. -/
structure Alike (n : Nat) (h : Handle) (w v : Workspace) : Prop where
  wording : (v.systemAt n).wording? h = (w.systemAt n).wording? h
  name : ((v.systemAt n).module? h.module).map Module.name =
    ((w.systemAt n).module? h.module).map Module.name
  rest : v = { w with systems := v.systems }
  placed : (w.systemAt n).Placed → (v.systemAt n).Placed

theorem Alike.refl (n : Nat) (h : Handle) (w : Workspace) : Alike n h w w := ⟨rfl,rfl,rfl,id⟩

theorem alike_referred (hs : (w.systemAt n).Sound) (u : TypeHandle) :
    w.Alike n u.owner (w.referred n u) where
  wording := by
    rw [systemAt_referred]
    exact (hs.referring u).invariant (·.wording? u.owner) fun s g => s.wording?_note u g
  name := by
    rw [systemAt_referred]
    exact (hs.referring u).invariant (fun s => (s.module? u.owner.module).map Module.name)
      fun s g => s.moduleName_note u g _
  rest := rfl
  placed := by
    rw [systemAt_referred]
    exact fun _ => (hs.reference u).placed

/-- What is written of a layer. -/
def bareLayer (w : Workspace) (n : Nat) (t : TypeHandle) : Layer :=
  (((w.systemAt n).layer? t).getD {}).bare

theorem bareLayer_eq (w : Workspace) (n : Nat) (t : TypeHandle) :
    w.bareLayer n t = (((w.systemAt n).wording? t.owner).bind (·.2[t.depth]?)).getD {} := by
  rw [← System.map_bare_layer?,bareLayer]
  cases (w.systemAt n).layer? t <;> rfl

theorem Alike.bareLayer (h : w.Alike n t.owner v) : v.bareLayer n t = w.bareLayer n t := by
  rw [bareLayer_eq,bareLayer_eq,h.wording]

theorem Alike.module (h : w.Alike n t.owner v) :
    (((v.systemAt n).module? t.owner.module).getD default).shortName =
      (((w.systemAt n).module? t.owner.module).getD default).shortName := by
  have hname : ∀ o : Option Module, (o.getD default).name = (o.map Module.name).getD "" := by
    intro o
    cases o <;> rfl
  simp only [Module.shortName,Module.nameParts,hname,h.name]

/-- Asked again, the type gives what is known of it, and the workspace stays as it is. -/
def Settled (w : Workspace) (n : Nat) (u : TypeHandle) : Prop :=
  (Inquiry.reference n u).act.run w = (.ok (((w.systemAt n).layer? u).bind (·.resolution.target)), w)

/-- There is nothing to find out about a type: it is not complex, or it is settled. -/
def Answered (w : Workspace) (n : Nat) (u : TypeHandle) : Prop :=
  ∀ l, (w.systemAt n).layer? u = some l → l.isComplex = true → w.Settled n u

theorem settled_of_reference
    (h : (w.systemAt n).reference u =
      (.ok (((w.systemAt n).layer? u).bind (·.resolution.target)), w.systemAt n)) :
    w.Settled n u := by
  have hsystems : w.systems.modify n (fun _ => w.systemAt n) = w.systems := by
    apply List.ext_getElem?
    intro k
    rw [List.getElem?_modify]
    by_cases hk : n = k
    · subst hk
      cases hs : w.systems[n]? with
      | none => rfl
      | some s => simp [systemAt_of_getElem? hs]
    · simp [hk]
  rw [Settled,run_reference,referred,h,hsystems]

theorem settled_referred (hs : (w.systemAt n).Sound) (u : TypeHandle) :
    (w.referred n u).Settled n u := by
  apply settled_of_reference
  rw [systemAt_referred]
  exact (hs.referring u).settled

/-- A settled type has been looked up, or it never will be. -/
theorem Settled.not_dangles (hs : (w.systemAt n).Sound) (h : w.Settled n u) :
    ¬ (w.systemAt n).Dangles u := by
  rw [Settled,run_reference] at h
  rcases hs.answer u with ⟨-,hnot⟩ | ⟨⟨name,hanswer⟩,-⟩
  · exact hnot
  · rw [hanswer] at h
    cases h

end Workspace

namespace Inquiry
variable {α β : Type} {x : Inquiry α} {f : α → Inquiry β} {w : Workspace} {n : Nat}
  {t u : TypeHandle}

theorem run_layer (w : Workspace) (n : Nat) (t : TypeHandle) :
    (layer n t).act.run w = (.ok (((w.systemAt n).layer? t).getD {}), w) := rfl

/-! ## Inquiries that change nothing -/

/-- The inquiry leaves the workspace as it is, and it does not fail for a name that cannot be looked
up. -/
def Still (w : Workspace) (x : Inquiry α) : Prop :=
  ∃ r, x.act.run w = (r, w) ∧ ∀ name, r ≠ .error (.unknownName name)

namespace Still

theorem of_run {a : α} (h : x.act.run w = (.ok a, w)) : Still w x := ⟨.ok a,h,nofun⟩

protected theorem pure (a : α) : Still w (pure a : Inquiry α) := of_run rfl

protected theorem throw {failure : Failure} (h : ∀ name, failure ≠ .unknownName name) :
    Still w (throw failure : Inquiry α) :=
  ⟨.error failure,rfl,fun name he => h name (Except.error.inj he)⟩

protected theorem bind (hx : Still w x) (hf : ∀ a, x.act.run w = (.ok a, w) → Still w (f a)) :
    Still w (x >>= f) := by
  obtain ⟨r,hr,hname⟩ := hx
  have hrun := run_bind x.act (fun a => (f a).act) w
  rw [hr] at hrun
  cases r with
  | error e => exact ⟨.error e,hrun,fun name he => hname name (by rw [Except.error.inj he])⟩
  | ok a =>
    obtain ⟨r,hr',hname'⟩ := hf a hr
    exact ⟨r,hrun.trans hr',hname'⟩

protected theorem after {a : α} (hx : x.act.run w = (.ok a, w)) (h : Still w (f a)) :
    Still w (x >>= f) := by
  refine (of_run hx).bind fun b hb => ?_
  obtain rfl := Except.ok.inj (Prod.mk.inj (hx.symm.trans hb)).1
  exact h

protected theorem ite {c : Prop} [Decidable c] {y : Inquiry α} (hx : c → Still w x)
    (hy : ¬ c → Still w y) :
    Still w (if c then x else y) := by
  by_cases h : c
  · rw [if_pos h]
    exact hx h
  · rw [if_neg h]
    exact hy h

end Still

/-! ## Inquiries that come to a question -/

/-- Whatever is known of types, the inquiry first asks what `u` refers to, and goes on with the
answer in the same way. -/
def Consults (w : Workspace) (n : Nat) (u : TypeHandle) (x : Inquiry α) : Prop :=
  ∃ k : Option Entity → Act α, ∀ v, w.Alike n u.owner v →
    x.act.run v = ((reference n u).act >>= k).run v

namespace Consults

theorem reference (k : Option Entity → Inquiry α) : Consults w n u (Inquiry.reference n u >>= k) :=
  ⟨fun e => (k e).act,fun _ _ => rfl⟩

protected theorem bind (h : Consults w n u x) : Consults w n u (x >>= f) := by
  obtain ⟨k,hk⟩ := h
  refine ⟨fun e => k e >>= fun a => (f a).act,fun v hv => ?_⟩
  rw [act_bind,run_bind,hk v hv,← bind_assoc,run_bind (_ >>= k)]

theorem after {a : α} (h : Consults w n u (f a))
    (hx : ∀ v, w.Alike n u.owner v → ∃ b, x.act.run v = (.ok b, v) ∧ f b = f a) :
    Consults w n u (x >>= f) := by
  obtain ⟨k,hk⟩ := h
  refine ⟨k,fun v hv => ?_⟩
  obtain ⟨b,hb,hf⟩ := hx v hv
  rw [act_bind,run_bind,hb]
  exact (congrArg (fun y => y.act.run v) hf).trans (hk v hv)

theorem after_layer {f : Layer → Inquiry β} (ht : t.owner = u.owner) (hf : ∀ l, f l = f l.bare)
    (h : Consults w n u (f (w.bareLayer n t))) : Consults w n u (layer n t >>= f) := by
  refine h.after fun v hv => ⟨_,rfl,?_⟩
  rw [hf]
  exact congrArg f ((ht ▸ hv : w.Alike n t.owner v).bareLayer)

theorem target (hc : (w.bareLayer n u).isComplex = true) : Consults w n u (target n u) := by
  refine after_layer rfl (fun _ => rfl) ?_
  simp only [hc]
  exact .reference _

section
variable (hc : (w.bareLayer n u).isComplex = true)
include hc

theorem isEnumeration : Consults w n u (isEnumeration n u) := (target hc).bind.bind

theorem isEnum : Consults w n u (isEnum n u) := (target hc).bind.bind

theorem isFlag : Consults w n u (isFlag n u) := (target hc).bind.bind

theorem isStruct : Consults w n u (isStruct n u) := (target hc).bind

theorem isInterface : Consults w n u (isInterface n u) := (target hc).bind

end

end Consults

end Inquiry

end InterfaceKit
