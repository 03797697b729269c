import InterfaceKit.Proofs.Generator.Merging
import InterfaceKit.Proofs.Generator.OpenRules

/-!
# What a generator changes

Whatever a generator is asked to do, it adds bindings to three mappings at most: its own one, one
that it is given, and the one that all texts are written out with. The last one takes over nothing
but the generator's own bindings, so each name that is new there is bound by the generator.
-/
namespace InterfaceKit
open Data Model Files

namespace Data.Store
variable {C D : Nat → Prop} {i j : Nat} {s s' s'' : Store}

def namesAt (s : Store) (i : Nat) : List String := (s.bindings (.ref i)).names

theorem bindings_congr (h : s'.get? i = s.get? i) : s'.bindings (.ref i) = s.bindings (.ref i) := by
  rw [bindings,bindings,mapping?,mapping?,h]

theorem HasMapping.of_alloc {t : Table Value} (ht : t.names.Nodup) (s : Store) :
    (s.alloc (.map (t.map fun e => (.text e.1, e.2)))).2.HasMapping s.cells.size := by
  refine ⟨_,Array.getElem?_push_size,?_,fun e he => ?_⟩
  · have htable : textEntries (t.map fun e => (.text e.1, e.2)) = t := by
      rw [textEntries,List.filterMap_map]
      exact List.filterMap_some
    rwa [htable]
  · obtain ⟨d,-,rfl⟩ := List.mem_map.mp he
    rfl

/-- Mappings in the cells of `C` may have more names than before. Everything else that was there is
as it was. -/
structure Fills (C : Nat → Prop) (s s' : Store) : Prop where
  cells : ∀ i c, s.get? i = some c → ¬ C i → s'.get? i = some c
  maps : ∀ i, s.HasMapping i → s'.HasMapping i ∧ s.namesAt i ⊆ s'.namesAt i

namespace Fills

protected theorem refl : Fills C s s := ⟨fun _ _ h _ => h,fun _ h => ⟨h,List.Subset.refl _⟩⟩

protected theorem trans (h : Fills C s s') (h' : Fills C s' s'') : Fills C s s'' where
  cells i c hi hC := h'.cells i c (h.cells i c hi hC) hC
  maps i hi := by
    obtain ⟨hi',hnames⟩ := h.maps i hi
    obtain ⟨hi'',hnames'⟩ := h'.maps i hi'
    exact ⟨hi'',List.Subset.trans hnames hnames'⟩

theorem mono (h : Fills C s s') (hCD : ∀ i, C i → D i) : Fills D s s' :=
  { h with cells := fun i c hi hD => h.cells i c hi fun hC => hD (hCD i hC) }

theorem bindings_eq (h : Fills C s s') (hi : s.HasMapping i) (hC : ¬ C i) :
    s'.bindings (.ref i) = s.bindings (.ref i) := by
  obtain ⟨es,hes,-⟩ := hi
  exact bindings_congr ((h.cells i _ hes hC).trans hes.symm)

theorem grow (h : ∀ i c, s.get? i = some c → s'.get? i = some c) : Fills C s s' where
  cells i c hi _ := h i c hi
  maps i hi := by
    obtain ⟨es,hes,hnodup,hkeys⟩ := hi
    have hsame : s'.bindings (.ref i) = s.bindings (.ref i) :=
      bindings_congr ((h i _ hes).trans hes.symm)
    refine ⟨⟨es,h i _ hes,hnodup,fun e he => ?_⟩,?_⟩
    · exact hashable_of_cells (fun j xs hxs => h j _ hxs) (hkeys e he)
    · rw [namesAt,namesAt,hsame]
      exact List.Subset.refl _

theorem fill {es es' : List (Value × Value)} (hothers : ∀ a, a ≠ j → s'.get? a = s.get? a)
    (hes : s.get? j = some (.map es)) (hes' : s'.get? j = some (.map es'))
    (hnodup : (textEntries es').names.Nodup) (hkeys : ∀ e ∈ es', s.hashable e.1 = true)
    (hnames : (textEntries es).names ⊆ (textEntries es').names) : Fills (· = j) s s' where
  cells i c hi hj := (hothers i hj).trans hi
  maps i hi := by
    have hhashable : ∀ k, s.hashable k = true → s'.hashable k = true := fun k =>
      hashable_of_others hothers hes
    by_cases hij : i = j
    · subst hij
      refine ⟨⟨es',hes',hnodup,fun e he => hhashable _ (hkeys e he)⟩,?_⟩
      rw [namesAt,namesAt,bindings_of_get? hes,bindings_of_get? hes']
      exact hnames
    · obtain ⟨ds,hds,hds_nodup,hds_keys⟩ := hi
      refine ⟨⟨ds,(hothers i hij).trans hds,hds_nodup,fun e he => hhashable _ (hds_keys e he)⟩,?_⟩
      rw [namesAt,namesAt,bindings_congr (hothers i hij)]
      exact List.Subset.refl _

theorem setItem (hj : s.HasMapping j) {k v : Value} (hs : s.setItem (.ref j) k v = .ok s') :
    Fills (· = j) s s' := by
  obtain ⟨es,hes,hnodup,hkeys⟩ := hj
  have hk : s.hashable k = true := by
    simp only [Store.setItem,hes,requireHashable] at hs
    split at hs
    · assumption
    · cases hs
  obtain ⟨_,hi,⟨es',hes',rfl⟩ | ⟨_,_,hlist,_⟩⟩ := setItem_cases hs
  · cases hi
    obtain rfl := entries_unique hes hes'
    refine fill (fun a ha => get?_put_of_ne (Ne.symm ha) _) hes (get?_put_self hes _)
      (nodup_textEntries_setEntry _ hnodup k v) (fun e he => ?_) ?_
    · rcases keys_setEntry he with hold | hnew
      · obtain ⟨d,hd,hkey⟩ := List.mem_map.mp hold
        rw [← hkey]
        exact hkeys d hd
      · rwa [hnew]
    · have htaken := textEntries_setEntry s es k v []
      intro n hn
      rw [show textEntries (s.setEntry es k v) =
        (textEntries es).setAll (textEntries [(k, v)]) from htaken]
      exact Table.mem_names_setAll.mpr (.inl hn)
  · cases hi
    rw [hes] at hlist
    cases hlist

end Fills

end Data.Store

/-- What adds entries to no mapping but one. -/
def Conduct.filling (j : Nat) : Conduct Workspace where
  fit w := w.store.HasMapping j
  leads w w' := w'.shared = w.shared ∧ w.store.Fills (· = j) w'.store
  refl _ := ⟨rfl,.refl⟩
  trans _ h h' := ⟨h'.1.trans h.1,h.2.trans h'.2⟩
  keeps hw h := (h.2.maps j hw).1

namespace Act

/-- Whether it succeeds or fails, it adds entries to no mapping but one. -/
def Fills {α : Type} (j : Nat) (x : Act α) : Prop := Obeys (.filling j) x

namespace Fills
variable {α : Type} {j : Nat}

theorem ask (q : Inquiry α) : Fills j (liftM q) := by
  intro w _
  have hgrows := q.grows w
  have hshared : (q.act.run w).2.shared = w.shared := by rw [hgrows.rest]
  exact ⟨hshared,.grow hgrows.cells⟩

theorem alloc (c : Cell) : Fills j (Act.alloc c) :=
  fun _ _ => ⟨rfl,.grow fun _ _ hi => Store.get?_alloc hi c⟩

theorem setItem (k v : Value) : Fills j (Act.setItem (.ref j) k v) := by
  intro w hw
  rw [Act.setItem_run]
  split
  · rename_i s hs
    exact ⟨rfl,.setItem hw hs⟩
  · exact ⟨rfl,.refl⟩

theorem update (extra : Value) : Fills j (Act.update (.ref j) extra) :=
  update_obeys ask setItem extra

end Fills

theorem update_takes {w : Workspace} {i j : Nat} (hi : w.store.HasMapping i)
    (hj : w.store.HasMapping j) :
    ∃ s, (Act.update (.ref i) (.ref j)).run w = (.ok (), { w with store := s }) ∧
      Store.Fills (· = i) w.store s ∧
      s.bindings (.ref i) = (w.store.bindings (.ref i)).setAll (w.store.bindings (.ref j)) := by
  obtain ⟨es,hes,hes_nodup,hes_keys⟩ := hi
  obtain ⟨ds,hds,hds_nodup,hds_keys⟩ := hj
  obtain ⟨s,hrun,htakes⟩ := Act.update_run hes hds hds_keys
  obtain ⟨es',hes',htable,-,hkeys⟩ := htakes.taken
  refine ⟨s,hrun,Store.Fills.fill htakes.others hes hes' ?_ (fun e he => ?_) ?_,?_⟩
  · rw [htable]
    exact Table.nodup_names_setAll hes_nodup _
  · have hkey : ∀ {cs : List (Value × Value)}, (∀ c ∈ cs, w.store.hashable c.1 = true) →
      e.1 ∈ cs.map (·.1) →
        w.store.hashable e.1 = true := by
      intro cs hcs hmem
      obtain ⟨c,hc,hkey⟩ := List.mem_map.mp hmem
      rw [← hkey]
      exact hcs c hc
    rcases hkeys e he with hold | hnew
    · exact hkey hes_keys hold
    · exact hkey hds_keys hnew
  · rw [htable]
    exact fun n hn => Table.mem_names_setAll.mpr (.inl hn)
  · rw [Store.bindings_of_get? hes',Store.bindings_of_get? hes,Store.bindings_of_get? hds,htable]

end Act

/-- The cells that a generator works with: of its own bindings, of the bindings that texts are
written out with, and of the bindings that it is given. -/
structure Desk where
  own : Nat
  texts : Nat
  given : Nat
  own_ne : own ≠ texts
  given_ne : given ≠ texts

/-- The cells that may change. -/
def Desk.Owns (a : Desk) (i : Nat) : Prop := i = a.own ∨ i = a.texts ∨ i = a.given

structure Run.Seated (a : Desk) (r : Run) : Prop where
  bindings : r.generator.bindings = .ref a.own
  shared : r.workspace.shared.texts = .ref a.texts
  own : r.workspace.store.HasMapping a.own
  texts : r.workspace.store.HasMapping a.texts
  given : r.workspace.store.HasMapping a.given

/-- Nothing has changed but what the generator may change. A name that texts have not been written
out with before is one of the generator's own. -/
structure Run.Confined (a : Desk) (r r' : Run) : Prop where
  bindings : r'.generator.bindings = r.generator.bindings
  shared : r'.workspace.shared = r.workspace.shared
  fills : r.workspace.store.Fills a.Owns r'.workspace.store
  told : ∀ n ∈ r'.workspace.store.namesAt a.texts,
    n ∈ r.workspace.store.namesAt a.texts ∨ n ∈ r'.workspace.store.namesAt a.own

namespace Run
variable {a : Desk} {r r' r'' : Run}

namespace Confined

protected theorem refl : r.Confined a r := ⟨rfl,rfl,.refl,fun _ hn => .inl hn⟩

theorem seated (h : r.Confined a r') (hr : r.Seated a) : r'.Seated a where
  bindings := h.bindings.trans hr.bindings
  shared := by
    rw [h.shared]
    exact hr.shared
  own := (h.fills.maps _ hr.own).1
  texts := (h.fills.maps _ hr.texts).1
  given := (h.fills.maps _ hr.given).1

protected theorem trans (h : r.Confined a r') (hr : r.Seated a) (h' : r'.Confined a r'') :
    r.Confined a r'' where
  bindings := h'.bindings.trans h.bindings
  shared := h'.shared.trans h.shared
  fills := h.fills.trans h'.fills
  told n hn := by
    rcases h'.told n hn with hold | hnew
    · rcases h.told n hold with hold | hnew
      · exact .inl hold
      · exact .inr ((h'.fills.maps _ (h.seated hr).own).2 hnew)
    · exact .inr hnew

end Confined

namespace Seated

theorem confined (hr : r.Seated a) {w : Workspace} (hshared : w.shared = r.workspace.shared)
    (hfills : r.workspace.store.Fills (fun i => i = a.own ∨ i = a.given) w.store) :
    r.Confined a { r with workspace := w } where
  bindings := rfl
  shared := hshared
  fills := hfills.mono fun _ h => h.elim .inl (.inr ∘ .inr)
  told n hn := by
    have hsame : w.store.namesAt a.texts = r.workspace.store.namesAt a.texts := by
      have htexts : ¬ (a.texts = a.own ∨ a.texts = a.given) :=
        not_or.mpr ⟨a.own_ne.symm,a.given_ne.symm⟩
      rw [Store.namesAt,Store.namesAt,hfills.bindings_eq hr.texts htexts]
    exact .inl (hsame ▸ hn)

theorem grow (hr : r.Seated a) {w : Workspace} (hshared : w.shared = r.workspace.shared)
    (hcells : ∀ i c, r.workspace.store.get? i = some c → w.store.get? i = some c) :
    r.Confined a { r with workspace := w } := hr.confined hshared (.grow hcells)

end Seated

end Run

/-- What changes nothing but what the generator may change. -/
def Conduct.confined (a : Desk) : Conduct Run where
  fit := Run.Seated a
  leads := Run.Confined a
  refl _ := .refl
  trans hr h h' := h.trans hr h'
  keeps hr h := h.seated hr

namespace Generate

/-- Whether it succeeds or fails, it changes nothing but what the generator may change. -/
def Confined {α : Type} (a : Desk) (x : Generate α) : Prop := Obeys (.confined a) x

section
variable {a : Desk}

theorem modifyGenerator_confined {f : Generator → Generator}
    (hf : ∀ g, (f g).bindings = g.bindings) :
    Confined a (modifyGenerator f) := fun r _ => ⟨hf r.generator,rfl,.refl,fun _ hn => .inl hn⟩

theorem lenient_confined : (Conduct.confined a).Lenient where
  ask q := by
    intro r hr
    have hgrows := q.grows r.workspace
    have hshared : (q.act.run r.workspace).2.shared = r.workspace.shared := by rw [hgrows.rest]
    exact hr.grow hshared hgrows.cells
  print _ _ := fun _ hr => hr.grow rfl fun _ _ hi => hi
  strict _ := modifyGenerator_confined fun _ => rfl

/-! ## Adding bindings -/

theorem confined_of_fills {α : Type} {j : Nat} (hj : j = a.own ∨ j = a.given) {x : Act α}
    (hx : Act.Fills j x) :
    Confined a (liftM x) := by
  intro r hr
  have hmapping : r.workspace.store.HasMapping j := by
    rcases hj with rfl | rfl
    · exact hr.own
    · exact hr.given
  obtain ⟨hshared,hfills⟩ := hx r.workspace hmapping
  exact hr.confined hshared (hfills.mono fun i hi => hi ▸ hj)

theorem updateTexts_confined : Confined a (liftM (Act.update (.ref a.texts) (.ref a.own))) := by
  intro r hr
  obtain ⟨s,hrun,hfills,hbindings⟩ := Act.update_takes hr.texts hr.own
  rw [run_liftM,hrun]
  refine ⟨rfl,rfl,hfills.mono fun i hi => .inr (.inl hi),fun n hn => ?_⟩
  have hown : s.namesAt a.own = r.workspace.store.namesAt a.own := by
    rw [Store.namesAt,Store.namesAt,hfills.bindings_eq hr.own a.own_ne]
  dsimp only at hn ⊢
  rw [hown]
  rw [Store.namesAt,hbindings] at hn
  exact Table.mem_names_setAll.mp hn

/-! ## Writing out and writing documents -/

theorem join_confined {j : Nat} (hj : a.Owns j) : Confined a (join (.ref j)) := by
  refine generator_then fun r hr => ?_
  rw [hr.bindings]
  have hupdate : Confined a (liftM (Act.update (.ref j) (.ref a.own))) := by
    rcases hj with hown | rfl | hgiven
    · exact confined_of_fills (.inl hown) (.update _)
    · exact updateTexts_confined
    · exact confined_of_fills (.inr hgiven) (.update _)
  exact hupdate r hr

theorem applyWith_confined {j : Nat} (hj : a.Owns j) (template : Value) :
    Confined a (applyWith (.ref j) template) :=
  applyWith_obeys lenient_confined (join_confined hj) template

theorem apply_confined (template : Value) : Confined a (apply template) := by
  refine get_then fun r hr => ?_
  rw [hr.shared]
  exact applyWith_confined (.inr (.inl rfl)) template r hr

theorem prepare_confined (p : Path) : Confined a (liftM (Act.prepare p)) := by
  unfold Act.prepare
  rw [liftM_bind]
  refine get_then fun r hr => ?_
  split
  · exact hr.grow rfl fun _ _ hi => hi
  · exact .refl

theorem deliver_confined (d : Delivery) : Confined a (liftM (Act.deliver d)) := by
  unfold Act.deliver
  rw [liftM_bind]
  refine get_then fun r hr => ?_
  split
  · exact .refl
  · exact hr.grow rfl fun _ _ hi => hi

theorem write_confined {q : Request} (hq : q.bindings = none ∨ q.bindings = some (.ref a.given)) :
    Confined a (write q) := by
  refine write_obeys lenient_confined fun w r hr => ?_
  have hmapping :
    ∃ j, a.Owns j ∧ (if w.store.isTrue (q.bindings.getD .null) = true then q.bindings.getD .null
      else r.generator.bindings) = .ref j := by
    rcases hq with hnone | hsome
    · refine ⟨a.own,.inl rfl,?_⟩
      simp [hnone,Store.isTrue,hr.bindings]
    · rw [hsome,hr.bindings,Option.getD_some]
      split
      · exact ⟨a.given,.inr (.inr rfl),rfl⟩
      · exact ⟨a.own,.inl rfl,rfl⟩
  obtain ⟨j,hj,hmapping⟩ := hmapping
  rw [hmapping]
  exact (compose_obeys lenient_confined prepare_confined (join_confined hj) q).bind deliver_confined

theorem setPath_confined (path : Value) : Confined a (setPath path) := by
  unfold setPath
  refine get_obeys.bind fun w => ?_
  split
  · exact (apply_confined path).bind fun _ => modifyGenerator_confined fun _ => rfl
  · exact .pure _

theorem setSource_confined (source : Value) : Confined a (setSource source) := by
  unfold setSource
  refine get_obeys.bind fun w => ?_
  split
  · exact modifyGenerator_confined fun _ => rfl
  · exact .pure _

/-! ## Following rules -/

theorem bindOne_confined (name : String) (v : Value) : Confined a (bindOne name v) := by
  unfold bindOne
  refine generator_then fun r hr => ?_
  rw [hr.bindings]
  exact confined_of_fills (.inl rfl) (.setItem _ _) r hr

theorem enter_confined (rule : Value) : Confined a (enter rule) := by
  unfold enter bindContext
  refine Obeys.bind ?_ fun _ => ?_
  · refine (given?_obeys rule "context").bind fun extra => ?_
    split
    · refine generator_then fun r hr => ?_
      rw [hr.bindings]
      exact confined_of_fills (.inl rfl) (.update _) r hr
    · exact .pure _
  · refine (given?_obeys rule "path").bind fun _ => (setPath_confined _).bind fun _ => ?_
    exact (given?_obeys rule "source").bind fun _ => setSource_confined _

theorem writeListed_confined (v : Visit) (rule : Value) (name : String) (preserve : Bool) :
    Confined a (writeListed (Follower.plain.write v) rule name preserve) := by
  unfold writeListed
  refine (listed_obeys lenient_confined rule name).bind fun entries =>
    (Obeys.forIn fun entry => ?_).bind fun _ => .pure _
  exact (documentOf_obeys entry).bind fun e => (write_confined (.inl rfl)).bind fun _ => .pure _

theorem followRule_confined (rule : Value) (v : Visit) : Confined a (followRule .plain rule v) := by
  unfold followRule
  refine (isFollowed_reads rule).obeys.bind fun followed => ?_
  split
  · refine (bindOne_confined _ _).bind fun _ => (enter_confined rule).bind fun _ => ?_
    exact (writeListed_confined v rule _ _).bind fun _ => writeListed_confined v rule _ _
  · exact .pure _

theorem followTarget_confined (rules : Value) (n : Nat) :
    Confined a (followTarget .plain rules n) := by
  unfold followTarget openTarget
  refine Obeys.bind ?_ fun opened => ?_
  · refine Obeys.bind ?_ fun _ => (applies_reads rules).obeys
    exact modifyGenerator_confined fun _ => rfl
  · split
    · refine (enter_confined rules).bind fun _ => get_obeys.bind fun w => ?_
      refine Obeys.bind (.forIn fun v => ?_) fun _ => .pure _
      refine (given?_obeys rules v.kind).bind fun rule => ?_
      exact (followRule_confined _ v).bind fun _ => .pure _
    · exact .pure _

theorem loadYaml_confined (path : Path) (required : Bool) :
    Confined a (liftM (Act.loadYaml path required)) := by
  intro r hr
  have hadds := Act.loadYaml_adds path required r.workspace
  exact hr.grow hadds.shared hadds.cells

theorem processRules_confined (path : Path) (n : Nat) : Confined a (processRules path n) := by
  unfold processRules openRules followDocument
  refine Obeys.bind ?_ fun document => ?_
  · refine generator_obeys.bind fun g => ?_
    dsimp only
    split
    · exact .throw _
    · exact (bindOne_confined _ _).bind fun _ => loadYaml_confined path true
  · refine (targetsOf_reads document).obeys.bind fun targets => ?_
    refine Obeys.bind (.forIn fun target => ?_) fun _ => .pure _
    exact (announce_obeys lenient_confined _).bind fun _ =>
      (followTarget_confined _ n).bind fun _ => .pure _

end

end Generate

end InterfaceKit
