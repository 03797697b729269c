import InterfaceKit.Proofs.Documents.Independent
import InterfaceKit.Proofs.Documents.Loading

/-!
# Reading into two systems

Inputs are read into a system of one workspace and into a system of another, where the same files
lie. If the two systems are the same but for the places of the cells that hold their tags, they are
so afterwards, and reading has ended in the same way. In the first workspace no other cells have
changed.
-/
namespace InterfaceKit
open Data Model Files Grammar Lexical

/-! ## Cells that are new in both stores -/

namespace Data

/-- The cells that belong together, and those that are new in both stores. -/
def Joined (R : Nat → Nat → Prop) (s s' t : Store) (i j : Nat) : Prop :=
  R i j ∨ Offset s.cells.size s'.cells.size t.cells.size i j

variable {R : Nat → Nat → Prop} {s s' : Store}

theorem Store.Mirror.lt (h : s.Mirror R s') {i j : Nat} (hij : R i j) :
    i < s.cells.size ∧ j < s'.cells.size := by
  obtain ⟨c,c',hc,hc',-⟩ := h.cells hij
  exact ⟨(Array.getElem?_eq_some_iff.mp hc).1,(Array.getElem?_eq_some_iff.mp hc').1⟩

theorem Store.Mirror.isTrue (h : s.Mirror R s') {v v' : Value} (hv : v.Match R v') :
    s.isTrue v = s'.isTrue v' := by
  cases hv with
  | ref hij =>
    obtain ⟨c,c',hc,hc',hmirror⟩ := h.cells hij
    simp only [Store.isTrue,hc,hc']
    cases hmirror with
    | list h | tuple h | set h | map h => cases h <;> rfl
  | plain hplain =>
    cases v with
    | ref i => exact absurd rfl (hplain i)
    | _ => rfl

theorem Store.Mirror.join {t t' : Store} (h : s.Mirror R s')
    (hold : ∀ i c, s.get? i = some c → t.get? i = some c)
    (hold' : ∀ i c, s'.get? i = some c → t'.get? i = some c)
    (hnew : t.Aligned s.cells.size s'.cells.size t') : t.Mirror (Joined R s s' t) t' where
  left {i j j'} hij hij' := by
    rcases hij with hij | hij <;> rcases hij' with hij' | hij'
    · exact h.left hij hij'
    · have := (h.lt hij).1
      have := hij'.1
      omega
    · have := (h.lt hij').1
      have := hij.1
      omega
    · exact hnew.matching.left hij hij'
  right {i i' j} hij hij' := by
    rcases hij with hij | hij <;> rcases hij' with hij' | hij'
    · exact h.right hij hij'
    · have := (h.lt hij).2
      obtain ⟨_,_,_⟩ := hij'
      omega
    · have := (h.lt hij').2
      obtain ⟨_,_,_⟩ := hij
      omega
    · exact hnew.matching.right hij hij'
  cells {i j} hij := by
    rcases hij with hij | hij
    · obtain ⟨c,c',hc,hc',hmirror⟩ := h.cells hij
      exact ⟨c,c',hold i c hc,hold' j c' hc',hmirror.mono fun _ _ => .inl⟩
    · obtain ⟨c,c',hc,hc',hmirror⟩ := hnew.cells i j hij
      exact ⟨c,c',hc,hc',hmirror.mono fun _ _ => .inr⟩

end Data

/-! ## Two workspaces -/

namespace Workspace

/-- The same files lie before two workspaces, and faults in documents count alike. -/
structure SameFiles (w w' : Workspace) : Prop where
  files : w.files = w'.files
  folder : w.folder = w'.folder
  strict : w.strictDocuments = w'.strictDocuments

/-- Files, cache and the cells outside `P` are spared. -/
structure Spares (P : Nat → Prop) (w t : Workspace) : Prop where
  ground : w.SameFiles t
  cache : t.cache = w.cache
  size : w.store.cells.size ≤ t.store.cells.size
  cells : ∀ i c, ¬ P i → w.store.get? i = some c → t.store.get? i = some c

/-- The systems `n` and `n'` of two workspaces are the same but for the places of the cells that
hold their tags. -/
structure Mirrors (n n' : Nat) (R : Nat → Nat → Prop) (w w' : Workspace) : Prop where
  ground : w.SameFiles w'
  store : w.store.Mirror R w'.store
  system : ∃ x x', w.systems[n]? = some x ∧ w'.systems[n']? = some x' ∧ x.Mirrors R x'

/-- From `w` and `w'` two workspaces have come to `t` and `t'`. -/
structure Moves (n n' : Nat) (w w' t t' : Workspace) (R R' : Nat → Nat → Prop) : Prop where
  mirrors : t.Mirrors n n' R' t'
  old : ∀ i j, R i j → R' i j
  new : ∀ i j, R' i j → R i j ∨ w.store.cells.size ≤ i
  kept : w.Spares (fun i => ∃ j, R i j) t

section
variable {n n' : Nat} {P : Nat → Prop} {R R' R'' : Nat → Nat → Prop} {w w' t t' u u' : Workspace}

theorem SameFiles.refl (w : Workspace) : w.SameFiles w := ⟨rfl,rfl,rfl⟩

theorem SameFiles.symm (h : w.SameFiles t) : t.SameFiles w :=
  ⟨h.files.symm,h.folder.symm,h.strict.symm⟩

theorem SameFiles.trans (h : w.SameFiles t) (h' : t.SameFiles u) : w.SameFiles u :=
  ⟨h.files.trans h'.files,h.folder.trans h'.folder,h.strict.trans h'.strict⟩

theorem Mirrors.systemAt (h : w.Mirrors n n' R w') : (w.systemAt n).Mirrors R (w'.systemAt n') := by
  obtain ⟨x,x',hx,hx',hmirrors⟩ := h.system
  rwa [systemAt_of_getElem? hx,systemAt_of_getElem? hx']

namespace Moves

theorem refl (h : w.Mirrors n n' R w') : Moves n n' w w' w w' R R where
  mirrors := h
  old _ _ := id
  new _ _ := .inl
  kept := ⟨.refl w,rfl,Nat.le_refl _,fun _ _ _ => id⟩

theorem trans (h : Moves n n' w w' t t' R R') (h' : Moves n n' t t' u u' R' R'') :
    Moves n n' w w' u u' R R'' where
  mirrors := h'.mirrors
  old i j hij := h'.old i j (h.old i j hij)
  new i j hij := by
    rcases h'.new i j hij with hij | hi
    · exact h.new i j hij
    · exact .inr (Nat.le_trans h.kept.size hi)
  kept :=
    { ground := h.kept.ground.trans h'.kept.ground
      cache := h'.kept.cache.trans h.kept.cache
      size := Nat.le_trans h.kept.size h'.kept.size
      cells := by
        intro i c hi hc
        have hlt : i < w.store.cells.size := (Array.getElem?_eq_some_iff.mp hc).1
        refine h'.kept.cells i c ?_ (h.kept.cells i c hi hc)
        rintro ⟨j,hij⟩
        rcases h.new i j hij with hij | hle
        · exact hi ⟨j,hij⟩
        · omega }

theorem join (h : w.Mirrors n n' R w') (hground : w.SameFiles t) (hcache : t.cache = w.cache)
    (hground' : w'.SameFiles t') (hold : ∀ i c, w.store.get? i = some c → t.store.get? i = some c)
    (hold' : ∀ i c, w'.store.get? i = some c → t'.store.get? i = some c)
    (hnew : t.store.Aligned w.store.cells.size w'.store.cells.size t'.store)
    (hsystem : ∃ x x', t.systems[n]? = some x ∧ t'.systems[n']? = some x' ∧
      x.Mirrors (Joined R w.store w'.store t.store) x') :
    Moves n n' w w' t t' R (Joined R w.store w'.store t.store) where
  mirrors := ⟨hground.symm.trans (h.ground.trans hground'),h.store.join hold hold' hnew,hsystem⟩
  old _ _ := .inl
  new _ _ hij := hij.imp id fun hij => hij.1
  kept := ⟨hground,hcache,hnew.base,fun i c _ => hold i c⟩

end Moves
end

end Workspace

/-! ## Two operations -/

namespace Act
open Workspace

/-- Run in `w` and `w'`, two operations end in the same way, with results that are related. -/
def Abreast {α β : Type} (n n' : Nat) (A : (Nat → Nat → Prop) → α → β → Prop) (R : Nat → Nat → Prop)
    (w w' : Workspace) (x : Act α) (y : Act β) : Prop :=
  ∃ R', Moves n n' w w' (x.run w).2 (y.run w').2 R R' ∧ Agrees (A R') (x.run w).1 (y.run w').1

namespace Abreast
variable {α β γ δ : Type} {n n' : Nat} {A : (Nat → Nat → Prop) → α → β → Prop}
  {B : (Nat → Nat → Prop) → γ → δ → Prop} {R : Nat → Nat → Prop} {w w' : Workspace} {x : Act α}
  {y : Act β}

theorem of_run (h : w.Mirrors n n' R w') {r : Except Failure α} {r' : Except Failure β}
    (hx : x.run w = (r, w)) (hy : y.run w' = (r', w')) (hr : Agrees (A R) r r') :
    Abreast n n' A R w w' x y := by
  refine ⟨R,?_,?_⟩
  · rw [hx,hy]
    exact .refl h
  · rw [hx,hy]
    exact hr

theorem pure (h : w.Mirrors n n' R w') {a : α} {b : β} (hab : A R a b) :
    Abreast n n' A R w w' (Pure.pure a) (Pure.pure b) := of_run h rfl rfl hab

theorem throw (h : w.Mirrors n n' R w') (e : Failure) :
    Abreast n n' A R w w' (MonadExcept.throw e) (MonadExcept.throw e) := of_run h rfl rfl rfl

theorem bind {f : α → Act γ} {g : β → Act δ} (h : Abreast n n' A R w w' x y)
    (hf : ∀ a b R' t t', t.Mirrors n n' R' t' → (∀ i j, R i j → R' i j) → A R' a b →
      Abreast n n' B R' t t' (f a) (g b)) : Abreast n n' B R w w' (x >>= f) (y >>= g) := by
  obtain ⟨R',hmoves,hagrees⟩ := h
  unfold Abreast
  rw [run_bind,run_bind]
  revert hmoves hagrees
  rcases x.run w with ⟨r,t⟩
  rcases y.run w' with ⟨r',t'⟩
  intro hmoves hagrees
  cases r <;> cases r' <;> try exact hagrees.elim
  · exact ⟨R',hmoves,hagrees⟩
  · obtain ⟨R'',hmoves',hagrees'⟩ := hf _ _ R' t t' hmoves.mirrors hmoves.old hagrees
    exact ⟨R'',hmoves.trans hmoves',hagrees'⟩

theorem get {f : Workspace → Act γ} {g : Workspace → Act δ}
    (h : Abreast n n' B R w w' (f w) (g w')) :
    Abreast n n' B R w w' (MonadState.get >>= f) (MonadState.get >>= g) := h

theorem printAll (h : w.Mirrors n n' R w') (log log' : Log) :
    Abreast n n' (fun _ _ _ => True) R w w' (Act.printAll log) (Act.printAll log') :=
  ⟨R,⟨⟨⟨h.ground.files,h.ground.folder,h.ground.strict⟩,h.store,h.system⟩,fun _ _ => id,
    fun _ _ => .inl,⟨⟨rfl,rfl,rfl⟩,rfl,Nat.le_refl _,fun _ _ _ => id⟩⟩,trivial⟩

theorem print (h : w.Mirrors n n' R w') (stream : Stream) (text : String) :
    Abreast n n' (fun _ _ _ => True) R w w' (Act.print stream text) (Act.print stream text) :=
  printAll h (Log.line stream text) (Log.line stream text)

theorem system (h : w.Mirrors n n' R w') :
    Abreast n n' (fun R => System.Mirrors R) R w w' (Act.system n) (Act.system n') :=
  of_run h rfl rfl h.systemAt

theorem store (h : w.Mirrors n n' R w') :
    Abreast n n' (fun R => Store.Mirror R) R w w' Act.store Act.store := of_run h rfl rfl h.store

theorem attempt (h : Abreast n n' A R w w' x y) :
    Abreast n n' (fun R => Agrees (A R)) R w w' (Act.attempt x) (Act.attempt y) := h

theorem ask (h : w.Mirrors n n' R w') {f : Store → Except Failure α} {g : Store → Except Failure β}
    (hf : Agrees (A R) (f w.store) (g w'.store)) : Abreast n n' A R w w' (Act.ask f) (Act.ask g) :=
  of_run h (run_ask f w) (run_ask g w') hf

theorem change (h : w.Mirrors n n' R w') {f g : Store → Changed Unit}
    (hf : Store.Twins R w.store w'.store (f w.store) (g w'.store)) :
    Abreast n n' (fun _ _ _ => True) R w w' (Act.change f) (Act.change g) := by
  obtain ⟨hresult,htogether⟩ := hf
  refine ⟨R,?_,?_⟩
  · rw [run_change,run_change]
    refine ⟨⟨⟨h.ground.files,h.ground.folder,h.ground.strict⟩,htogether.mirror,h.system⟩,
      fun _ _ => id,fun _ _ => .inl,⟨⟨rfl,rfl,rfl⟩,rfl,htogether.size.ge,fun i c hi hc => ?_⟩⟩
    exact (htogether.first i fun j hij => hi ⟨j,hij⟩).trans hc
  · rw [run_change,run_change,← hresult]
    cases (f w.store).1 with
    | ok _ => trivial
    | error e => rfl

theorem newMap (h : w.Mirrors n n' R w') :
    Abreast n n' (fun R => Value.Match R) R w w' (Act.newMap []) (Act.newMap []) := by
  have hrun : ∀ u : Workspace, (Act.newMap []).run u =
    (.ok (.ref u.store.cells.size), { u with store := (u.store.alloc (.map [])).2 }) := fun _ => rfl
  unfold Abreast
  rw [hrun,hrun]
  obtain ⟨x,x',hx,hx',hmirrors⟩ := h.system
  refine ⟨Joined R w.store w'.store (w.store.alloc (.map [])).2,?_,?_⟩
  · exact .join h ⟨rfl,rfl,rfl⟩ rfl ⟨rfl,rfl,rfl⟩ (fun i c hc => Store.get?_alloc hc _)
      (fun i c hc => Store.get?_alloc hc _) ((Store.Aligned.start ..).alloc (.map .nil .nil))
      ⟨x,x',hx,hx',hmirrors.mono fun _ _ => .inl⟩
  · refine .ref (.inr ⟨Nat.le_refl _,?_,Nat.add_comm ..⟩)
    rw [Store.size_alloc]
    exact Nat.lt_succ_self _

theorem forIn {P : α → β → Prop} {xs : List α} {ys : List β} {f : α → PUnit → Act (ForInStep PUnit)}
    {g : β → PUnit → Act (ForInStep PUnit)} (h : w.Mirrors n n' R w') (hxs : List.Forall₂ P xs ys)
    (hf : ∀ a b R' t t', P a b → t.Mirrors n n' R' t' → (∀ i j, R i j → R' i j) →
      Abreast n n' (fun _ r r' => r = .yield .unit ∧ r' = .yield .unit) R' t t' (f a .unit)
        (g b .unit)) :
    Abreast n n' (fun _ _ _ => True) R w w' (ForIn.forIn xs PUnit.unit f)
      (ForIn.forIn ys PUnit.unit g) := by
  induction hxs generalizing R w w' with
  | nil => exact pure h trivial
  | @cons a b xs ys hab _ ih =>
    rw [List.forIn_cons,List.forIn_cons]
    refine (hf a b R w w' hab h fun _ _ => id).bind ?_
    rintro _ _ R' t t' ht hR ⟨rfl,rfl⟩
    exact ih ht fun a b R'' u u' hab hu hR' => hf a b R'' u u' hab hu fun i j hij =>
      hR' i j (hR i j hij)

end Abreast

/-! ## Documents -/

section
variable {n n' : Nat} {R : Nat → Nat → Prop} {w w' : Workspace} (h : w.Mirrors n n' R w')
include h

theorem locate_abreast (p : Path) : Abreast n n' (fun _ => Eq) R w w' (locate p) (locate p) := by
  refine Abreast.get (.pure h ?_)
  rw [h.ground.files,h.ground.folder]

theorem readText_abreast (p : Path) :
    Abreast n n' (fun _ => Eq) R w w' (readText p) (readText p) := by
  unfold readText
  refine Abreast.bind (A := fun _ => Eq) (Abreast.get ?_) ?_
  · rw [← h.ground.files,← h.ground.folder]
    split
    · exact .throw h _
    · split
      · exact .pure h rfl
      · exact .throw h _
  · rintro bytes _ R₁ t t' ht - rfl
    split
    · exact .pure ht rfl
    · exact .throw ht _

theorem fileExists_abreast (p : Path) :
    Abreast n n' (fun _ => Eq) R w w' (fileExists p) (fileExists p) := by
  refine (locate_abreast h p).bind ?_
  rintro l _ R₁ t t' ht - rfl
  refine Abreast.get (.pure ht ?_)
  rw [ht.ground.files]

theorem loadYaml_abreast (p : Path) (required : Bool) :
    Abreast n n' (fun R => Value.Match R) R w w' (loadYaml p required) (loadYaml p required) := by
  unfold loadYaml
  refine (fileExists_abreast h p).bind ?_
  rintro there _ R₁ t t' ht - rfl
  split
  · dsimp only
    split
    · refine (Abreast.print ht _ _).bind fun _ _ R₂ u u' hu _ _ => Abreast.get ?_
      rw [← hu.ground.strict]
      split
      · exact .throw hu _
      · exact .newMap hu
    · exact .newMap ht
  · refine (readText_abreast ht p).bind ?_
    rintro text _ R₂ u u' hu - rfl
    refine Abreast.get ?_
    dsimp only
    cases hread : (Yaml.Readers.documents (joinBreaks text) : Except Yaml.Problem Yaml.Document) with
    | error problem =>
      rw [Yaml.load_error_iff.mpr hread,Yaml.load_error_iff.mpr hread]
      cases problem with
      | failed e => exact .throw hu _
      | _ =>
        refine (Abreast.print hu _ _).bind fun _ _ R₃ v v' hv _ _ => ?_
        rw [← hu.ground.strict]
        split
        · exact .throw hv _
        · exact .newMap hv
    | ok d =>
      obtain ⟨hmatch,haligned⟩ := (Yaml.read_proper _ d hread).aligned (.start u.store u'.store)
      obtain ⟨x,x',hx,hx',hmirrors⟩ := hu.system
      rw [Yaml.load_of_ok hread,Yaml.load_of_ok hread]
      refine ⟨_,Moves.join hu ⟨rfl,rfl,rfl⟩ rfl ⟨rfl,rfl,rfl⟩ (fun _ _ hc => Store.get?_append hc _)
        (fun _ _ hc => Store.get?_append hc _) haligned ⟨x,x',hx,hx',hmirrors.mono fun _ _ => .inl⟩,
          ?_⟩
      exact hmatch.mono fun _ _ => .inr

variable {key data data' : Value}

theorem annotated_abreast (hkey : ∀ i, key ≠ .ref i) :
    Abreast n n' (fun _ => Eq) R w w' (annotated n key) (annotated n' key) := by
  unfold annotated
  cases key with
  | text name =>
    refine (Abreast.system h).bind fun x x' R₁ t t' ht _ hx => ?_
    refine .of_run ht (run_lift _ t) (run_lift _ t') ?_
    rw [← hx.lookup name]
    cases x.lookup name <;> exact rfl
  | ref i => exact absurd rfl (hkey i)
  | _ => exact .throw h _

theorem annotateKey_abreast (hdata : data.Match R data') (hkey : ∀ i, key ≠ .ref i) :
    Abreast n n' (fun _ _ _ => True) R w w' (annotateKey n data key) (annotateKey n' data' key) := by
  unfold annotateKey
  refine (Abreast.ask (A := fun R => Value.Match R) h (h.store.getItem hdata (.plain hkey))).bind
    fun v v' R₁ t t' ht _ hv => ?_
  refine (annotated_abreast ht hkey).bind ?_
  rintro e _ R₂ u u' hu hR₂ rfl
  refine (Abreast.system hu).bind fun x x' R₃ o o' ho hR₃ hx => ?_
  have hvalue := hv.mono fun i j hij => hR₃ i j (hR₂ i j hij)
  exact .change ho
    (Store.mergeUpTo_mirroring R₃ Store.mergeLimit _ _ _ _ _ _ ho.store (hx.tagsOf e) hvalue)

theorem annotateAll_abreast (hdata : data.Match R data') :
    Abreast n n' (fun _ _ _ => True) R w w' (annotateAll n data) (annotateAll n' data') := by
  unfold annotateAll
  refine (Abreast.store h).bind fun s s' R₁ t t' ht hR₁ hs => ?_
  have hdata := hdata.mono hR₁
  rcases hs.mapping_cases hdata with ⟨hnone,hnone'⟩ | ⟨i,j,es,es',rfl,rfl,-,hes,hes',hsame,-⟩
  · rw [hnone,hnone']
    refine (Abreast.store ht).bind fun s s' R₂ u u' hu hR₂ hs => ?_
    rw [← hs.className (hdata.mono hR₂)]
    exact .throw hu _
  · rw [Store.mapping?_of_get? hes,Store.mapping?_of_get? hes']
    dsimp only
    rw [← hsame.length_eq]
    refine (Abreast.forIn ht hsame ?_).bind fun _ _ R₂ u u' hu _ _ => .pure hu trivial
    rintro e e' R₂ u u' ⟨hkey,hplain,-⟩ hu hR₂
    rw [← hkey]
    refine (annotateKey_abreast hu (hdata.mono hR₂) hplain).bind fun _ _ R₃ o o' ho hR₃ _ => ?_
    have hsize := ho.store.requireSize ((hdata.mono hR₂).mono hR₃) es.length
    refine (Abreast.ask (A := fun _ _ _ => True) ho ?_).bind fun _ _ R₄ q q' hq _ _ =>
      .pure hq ⟨rfl,rfl⟩
    rw [← hsize]
    cases o.store.requireSize (.ref i) es.length with
    | ok _ => trivial
    | error e => rfl

theorem mergeAnnotations_abreast (document : String) :
    Abreast n n' (fun _ _ _ => True) R w w' (mergeAnnotations n document)
      (mergeAnnotations n' document) := by
  unfold mergeAnnotations
  refine (fileExists_abreast h _).bind ?_
  rintro there _ R₁ t t' ht - rfl
  split
  · exact .pure ht trivial
  · refine (loadYaml_abreast ht _ _).bind fun data data' R₂ u u' hu _ hdata => ?_
    refine (Abreast.store hu).bind fun s s' R₃ o o' ho hR₃ hs => ?_
    have hdata := hdata.mono hR₃
    rw [← hs.isTrue hdata]
    split
    · exact (Abreast.print ho _ _).bind fun _ _ R₄ q q' hq _ _ => .pure hq trivial
    · refine (Abreast.print ho _ _).bind fun _ _ R₄ q q' hq hR₄ _ => ?_
      refine (annotateAll_abreast hq (hdata.mono hR₄)).attempt.bind fun r r' R₅ v v' hv _ hr => ?_
      cases r <;> cases r' <;> try exact hr.elim
      · obtain rfl := hr
        refine (Abreast.print hv _ _).bind fun _ _ R₆ z z' hz _ _ => Abreast.get ?_
        rw [← hz.ground.strict]
        split
        · exact .throw hz _
        · exact .pure hz trivial
      · exact .pure hv trivial

theorem readTree_abreast (doc : Phrase.Document) :
    Abreast n n' (fun _ _ _ => True) R w w' (readTree n doc.tree) (readTree n' doc.tree) := by
  obtain ⟨x,x',hx,hx',hmirrors⟩ := h.system
  have hnumber : w'.nextModule n' = w.nextModule n := by
    simp [Workspace.nextModule,List.getD_eq_getElem?_getD,hx,hx',hmirrors.archive.length_eq]
  obtain ⟨hresult,hlike⟩ := ofDocument_offset id (w.nextModule n) doc.tree w.store w'.store
  obtain ⟨hold,hhead⟩ := ofDocument_begins doc (w.nextModule n) w.store
  obtain ⟨hold',-⟩ := ofDocument_begins doc (w.nextModule n) w'.store
  rcases rel_cases hlike.module with ⟨hnone,-⟩ | ⟨m,m',hm,hm',hmodule⟩
  · rw [hnone] at hhead
    cases hhead
  unfold Abreast
  simp only [id] at hresult hm'
  simp only [readTree,ExceptT.run,hnumber,hm,hm',← hresult]
  refine ⟨_,Moves.join h ⟨rfl,rfl,rfl⟩ rfl ⟨rfl,rfl,rfl⟩ hold hold' hlike.store
    ⟨(x.register m).2,(x'.register m').2,?_,?_,?_⟩,?_⟩
  · simp [hx]
  · simp [hx']
  · have hmatch : ∀ v v', (Likeness.matching _).tags v v' →
        (Likeness.matching (Joined R w.store w'.store
          (Draft.ofDocument (w.nextModule n) doc.tree w.store).2.store)).tags v v' :=
      fun _ _ hv => Value.Match.mono (fun _ _ => .inr) hv
    exact (hmirrors.mono fun _ _ => .inl).register 
      (hmodule.imp hmatch id id fun ho => (ho.trans (Model.Origin.renumber_id _)).symm)
  · cases (Draft.ofDocument (w.nextModule n) doc.tree w.store).1 with
    | ok _ => trivial
    | error e => rfl

theorem readSource_abreast (profile : Profile) (document : String) (text : List Char) :
    Abreast n n' (fun _ _ _ => True) R w w' (readSource n profile document text)
      (readSource n' profile document text) := by
  unfold readSource readTokens
  refine (Abreast.printAll h _ _).bind fun _ _ R₁ t t' ht _ _ => ?_
  cases hparse : parse .document (Source.ofText text) with
  | failed e c => exact .throw ht _
  | parsed tree c =>
    dsimp only
    split
    · exact .throw ht _
    · obtain ⟨doc,rfl⟩ := exists_document hparse
      exact readTree_abreast ht doc

theorem readFile_abreast (profile : Profile) (document : String) :
    Abreast n n' (fun _ _ _ => True) R w w' (readFile n profile document)
      (readFile n' profile document) := by
  unfold readFile
  refine (readText_abreast h _).bind ?_
  rintro text _ R₁ t t' ht - rfl
  exact (readSource_abreast ht _ _ _).bind fun _ _ R₂ u u' hu _ _ => mergeAnnotations_abreast hu _

theorem readDocument_abreast (profile : Profile) (document : String) :
    Abreast n n' (fun _ => Eq) R w w' (readDocument n profile document)
      (readDocument n' profile document) := by
  unfold readDocument
  have hend : ∀ {R u u'}, u.Mirrors n n' R u' → Abreast n n' (fun _ => Eq) R u u'
      (do if (← MonadState.get).strictDocuments then MonadExcept.throw (.exit (-1))
          return false)
      (do if (← MonadState.get).strictDocuments then MonadExcept.throw (.exit (-1))
          return false) := by
    intro R u u' hu
    refine Abreast.get ?_
    rw [← hu.ground.strict]
    split
    · exact .throw hu _
    · exact .pure hu rfl
  refine (readFile_abreast h profile document).attempt.bind fun r r' R₁ t t' ht _ hr => ?_
  cases r <;> cases r' <;> try exact hr.elim
  · rename_i e _
    obtain rfl := hr
    cases e with
    | exit code => exact .throw ht _
    | fileNotFound _ => exact (Abreast.print ht _ _).bind fun _ _ R₂ u u' hu _ _ => hend hu
    | _ =>
      dsimp only
      split
      · exact (Abreast.print ht _ _).bind fun _ _ R₂ u u' hu _ _ => hend hu
      · exact hend ht
  · exact .pure ht rfl

theorem readInput_abreast (pattern input : String) :
    Abreast n n' (fun _ _ _ => True) R w w' (readInput n pattern input)
      (readInput n' pattern input) := by
  unfold readInput
  refine Abreast.get ?_
  rw [← h.ground.folder]
  refine Abreast.bind (A := fun _ => Eq) ((locate_abreast h _).bind ?_) ?_
  · rintro l _ R₁ t t' ht - rfl
    refine Abreast.get (.pure ht ?_)
    rw [ht.ground.files]
  · rintro found _ R₁ t t' ht - rfl
    split
    · exact (readDocument_abreast ht _ _).bind fun _ _ R₂ u u' hu _ _ => .pure hu trivial
    · refine (locate_abreast ht _).bind ?_
      rintro l _ R₂ u u' hu - rfl
      cases l with
      | none => exact .pure hu trivial
      | some l =>
        refine Abreast.get ?_
        rw [← hu.ground.files]
        refine (Abreast.forIn (P := Eq) hu (List.forall₂_same.mpr fun _ _ => rfl) ?_).bind
          fun _ _ R₃ o o' ho _ _ => .pure ho trivial
        rintro found _ R₃ o o' rfl ho -
        exact (readDocument_abreast ho _ _).bind fun _ _ R₄ q q' hq _ _ => .pure hq ⟨rfl,rfl⟩

end

end Act

end InterfaceKit
