import InterfaceKit.Proofs.Generator.Steady

/-!
# Taking over the generator's own bindings

Before a name is written out, the mapping of its document takes over the generator's own bindings. A
mapping that has done so already is not changed by doing it again. So it does not matter to the next
document with the same mapping whether the one before it was asked for.
-/
namespace InterfaceKit
open Data Model Files

namespace Data.Store
variable {own i : Nat} {s s' s'' : Store} {es ds : List (Value × Value)}

/-- What can be a key can still be one when cells that are no mappings stay. -/
theorem hashable_of_cells (h : ∀ j xs, s.get? j = some (.tuple xs) → s'.get? j = some (.tuple xs))
    {k : Value} (hk : s.hashable k = true) : s'.hashable k = true := by
  cases k with
  | ref j =>
    rw [hashable] at hk ⊢
    split at hk
    · rename_i xs hxs
      rw [h j xs hxs]
    · cases hk
  | _ => rfl

/-- A cell that holds a mapping does not make other values keys. -/
theorem hashable_of_others (h : ∀ j, j ≠ i → s'.get? j = s.get? j) (hi : s.get? i = some (.map es))
    {k : Value} (hk : s.hashable k = true) : s'.hashable k = true := by
  refine hashable_of_cells (fun j xs hxs => ?_) hk
  have hne : j ≠ i := by
    intro hij
    rw [hij,hi] at hxs
    cases hxs
  rw [h j hne,hxs]

theorem entries_unique (h : s.get? i = some (.map es)) (h' : s.get? i = some (.map ds)) :
    es = ds := by
  rw [h] at h'
  exact Cell.map.inj (Option.some.inj h')

theorem keys_setEntry {e : Value × Value} {k v : Value} (he : e ∈ s.setEntry es k v) :
    e.1 ∈ es.map (·.1) ∨ e.1 = k := by
  induction es with
  | nil => exact .inr (by rw [List.mem_singleton.mp he])
  | cons d es ih =>
    rw [setEntry] at he
    split at he
    · rcases List.mem_cons.mp he with rfl | he
      · exact .inl (by simp)
      · exact .inl (List.mem_map_of_mem (List.mem_cons_of_mem d he))
    · rcases List.mem_cons.mp he with rfl | he
      · exact .inl (by simp)
      · rcases ih he with hold | hnew
        · exact .inl (List.mem_cons_of_mem _ hold)
        · exact .inr hnew

theorem setEntry_ne_nil (s : Store) (es : List (Value × Value)) (k v : Value) :
    s.setEntry es k v ≠ [] := by
  cases es with
  | nil => simp [setEntry]
  | cons d es =>
    rw [setEntry]
    split
    · simp
    · simp

theorem textEntries_setEntry (s : Store) (es : List (Value × Value)) (k v : Value)
    (ds : List (Value × Value)) :
    (textEntries (s.setEntry es k v)).setAll (textEntries ds) =
      (textEntries es).setAll (textEntries ((k, v) :: ds)) := by
  rcases k.text_or with ⟨n,rfl⟩ | hk
  · rw [textEntries_setEntry_text]
    rfl
  · rw [textEntries_setEntry_of_ne s hk,textEntries_cons_of_ne hk]

/-- A mapping has taken over entries, and no other cell has changed. -/
structure Takes (i : Nat) (es ds : List (Value × Value)) (s s' : Store) : Prop where
  others : ∀ j, j ≠ i → s'.get? j = s.get? j
  taken : ∃ es', s'.get? i = some (.map es') ∧
    textEntries es' = (textEntries es).setAll (textEntries ds) ∧
    es'.isEmpty = (es.isEmpty && ds.isEmpty) ∧ ∀ e ∈ es', e.1 ∈ es.map (·.1) ∨ e.1 ∈ ds.map (·.1)

/-- A mapping that has each of its names once. -/
def HasMapping (s : Store) (i : Nat) : Prop :=
  ∃ es, s.get? i = some (.map es) ∧ (textEntries es).names.Nodup ∧ ∀ e ∈ es, s.hashable e.1 = true

/-- Mappings may have taken over the entries of `own`. Everything else is as it was. -/
structure Merges (own : Nat) (s s' : Store) : Prop where
  cells : ∀ j c, s.get? j = some c → (∀ es, c ≠ .map es) → s'.get? j = some c
  maps : ∀ j es, s.get? j = some (.map es) → ∃ es', s'.get? j = some (.map es') ∧
    es'.isEmpty = es.isEmpty ∧
    (textEntries es' = textEntries es ∨
      textEntries es' = (textEntries es).setAll (s.bindings (.ref own)))
  keys : ∀ es, s'.get? own = some (.map es) → ∀ e ∈ es, s'.hashable e.1 = true

namespace Merges

protected theorem refl (h : s.HasMapping own) : Merges own s s where
  cells _ _ hj _ := hj
  maps _ es hj := ⟨es,hj,rfl,.inl rfl⟩
  keys es hes := by
    obtain ⟨es',hes',-,hkeys⟩ := h
    rwa [entries_unique hes hes']

theorem entries_own (h : Merges own s s') (hown : s.HasMapping own) :
    ∃ es', s'.get? own = some (.map es') ∧ textEntries es' = s.bindings (.ref own) := by
  obtain ⟨es,hes,hnodup,-⟩ := hown
  obtain ⟨es',hes',-,htable⟩ := h.maps own es hes
  rw [bindings_of_get? hes] at htable ⊢
  refine ⟨es',hes',?_⟩
  rcases htable with hsame | htaken
  · exact hsame
  · rw [htaken]
    exact Table.setAll_eq_self fun e he => Table.get?_of_mem hnodup he

theorem grow (h : Merges own s s') (hown : s.HasMapping own)
    (hcells : ∀ j c, s'.get? j = some c → s''.get? j = some c) : Merges own s s'' where
  cells j c hj hc := hcells j c (h.cells j c hj hc)
  maps j es hj := by
    obtain ⟨es',hes',hrest⟩ := h.maps j es hj
    exact ⟨es',hcells j _ hes',hrest⟩
  keys es hes := by
    obtain ⟨es',hes',-⟩ := h.entries_own hown
    rw [entries_unique hes (hcells own _ hes')]
    intro e he
    exact hashable_of_cells (fun j xs hxs => hcells j _ hxs) (h.keys es' hes' e he)

theorem isTrue_eq (h : Merges own s s') {v : Value}
    (hv : ∀ j, v = .ref j → (s.get? j).isSome = true) :
    s'.isTrue v = s.isTrue v := by
  cases v with
  | ref j =>
    obtain ⟨c,hc⟩ := Option.isSome_iff_exists.mp (hv j rfl)
    cases c with
    | map es =>
      obtain ⟨es',hes',hempty,-⟩ := h.maps j es hc
      simp [isTrue,hc,hes',hempty]
    | list | tuple | set => simp [isTrue,hc,h.cells j _ hc (by simp)]
  | _ => rfl

/-- A mapping takes over the own bindings, for the first time or again. -/
theorem take (h : Merges own s s') (hown : s.HasMapping own) {es es' : List (Value × Value)}
    (hes : s.get? i = some (.map es)) (hfilled : es ≠ [] ∨ i = own)
    (hes' : s'.get? i = some (.map es')) (hds : s'.get? own = some (.map ds))
    (htakes : Takes i es' ds s' s'') :
    Merges own s s'' ∧ s''.bindings (.ref i) =
      (s.bindings (.ref i)).setAll (s.bindings (.ref own)) := by
  obtain ⟨taken,htaken,htable,hempty,hkeys⟩ := htakes.taken
  have hown' : textEntries ds = s.bindings (.ref own) := by
    obtain ⟨ds',hds',hsame⟩ := h.entries_own hown
    rw [entries_unique hds hds',hsame]
  obtain ⟨_,hes'',hempty',hbefore⟩ := h.maps i es hes
  obtain rfl := entries_unique hes' hes''
  have hbindings : textEntries taken = (textEntries es).setAll (s.bindings (.ref own)) := by
    rw [htable,hown']
    rcases hbefore with hsame | hmerged
    · rw [hsame]
    · have hnodup : (s.bindings (.ref own)).names.Nodup := by
        obtain ⟨os,hos,hnodup,-⟩ := hown
        rwa [bindings_of_get? hos]
      rw [hmerged,Table.setAll_again hnodup]
  have hstill : taken.isEmpty = es.isEmpty := by
    rw [hempty,hempty']
    rcases hfilled with hne | rfl
    · simp [hne]
    · rw [← hempty',entries_unique hes' hds,Bool.and_self]
  refine ⟨⟨?_,?_,?_⟩,?_⟩
  · intro j c hj hc
    have hne : j ≠ i := by
      intro hij
      rw [hij,hes] at hj
      exact hc es (Option.some.inj hj).symm
    rw [htakes.others j hne]
    exact h.cells j c hj hc
  · intro j js hj
    by_cases hij : j = i
    · subst hij
      rw [hes] at hj
      cases hj
      exact ⟨taken,htaken,hstill,.inr hbindings⟩
    · rw [htakes.others j hij]
      exact h.maps j js hj
  · intro os hos e he
    have hold : ∀ d ∈ ds, s''.hashable d.1 = true := fun d hd =>
      hashable_of_others htakes.others hes' (h.keys ds hds d hd)
    by_cases hij : own = i
    · subst hij
      rw [htaken] at hos
      cases hos
      rw [entries_unique hes' hds] at hkeys
      have hmem : e.1 ∈ ds.map (·.1) := (hkeys e he).elim id id
      obtain ⟨d,hd,hkey⟩ := List.mem_map.mp hmem
      rw [← hkey]
      exact hold d hd
    · rw [htakes.others own hij,hds] at hos
      cases hos
      exact hold e he
  · rw [bindings_of_get? htaken,bindings_of_get? hes,hbindings]

end Merges

end Data.Store

namespace Act
open Store
variable {es ds : List (Value × Value)} {w : Workspace}

theorem setItems_run {i : Nat} (hes : w.store.get? i = some (.map es))
    (hds : ∀ d ∈ ds, w.store.hashable d.1 = true) :
    ∃ s, (forIn ds PUnit.unit fun e _ => do
        Act.setItem (.ref i) e.1 e.2
        pure (ForInStep.yield PUnit.unit) :
        Act PUnit).run w = (.ok PUnit.unit, { w with store := s }) ∧
      Takes i es ds w.store s := by
  induction ds generalizing w es with
  | nil =>
    exact ⟨w.store,rfl,fun _ _ => rfl,es,hes,rfl,by simp,fun e he => .inl (List.mem_map_of_mem he)⟩
  | cons d ds ih =>
    obtain ⟨hd,hds⟩ := List.forall_mem_cons.mp hds
    let s₁ := w.store.put i (.map (w.store.setEntry es d.1 d.2))
    have hset : (Act.setItem (.ref i) d.1 d.2).run w = (.ok (), { w with store := s₁ }) := by
      have hstore : w.store.setItem (.ref i) d.1 d.2 = .ok s₁ := by
        simp [Store.setItem,hes,requireHashable,hd,s₁]
        rfl
      rw [Act.setItem_run,hstore]
    have hes₁ : s₁.get? i = some (.map (w.store.setEntry es d.1 d.2)) := get?_put_self hes _
    have hother : ∀ j, j ≠ i → s₁.get? j = w.store.get? j := fun j hj =>
      get?_put_of_ne (Ne.symm hj) _
    have hds₁ : ∀ d ∈ ds, s₁.hashable d.1 = true := fun e he =>
      hashable_of_others hother hes (hds e he)
    obtain ⟨s,hrun,hothers,taken,htaken,htable,hempty,hkeys⟩ :=
      ih (w := { w with store := s₁ }) hes₁ hds₁
    refine ⟨s,?_,fun j hj => (hothers j hj).trans (hother j hj),taken,htaken,?_,?_,?_⟩
    · rw [List.forIn_cons,bind_assoc,run_bind,hset]
      exact hrun
    · rw [htable]
      exact textEntries_setEntry _ _ _ _ _
    · rw [hempty]
      simp [setEntry_ne_nil]
    · intro e he
      rcases hkeys e he with hold | hnew
      · obtain ⟨x,hx,hkey⟩ := List.mem_map.mp hold
        rw [← hkey]
        rcases keys_setEntry hx with h | h
        · exact .inl h
        · exact .inr (by simp [h])
      · exact .inr (List.mem_cons_of_mem _ hnew)

theorem update_run {i j : Nat} (hes : w.store.get? i = some (.map es))
    (hds : w.store.get? j = some (.map ds)) (hkeys : ∀ d ∈ ds, w.store.hashable d.1 = true) :
    ∃ s, (Act.update (.ref i) (.ref j)).run w = (.ok (), { w with store := s }) ∧
    Takes i es ds w.store s := by
  obtain ⟨s,hrun,htakes⟩ := setItems_run hes hkeys
  have hmapping : w.store.mapping? (.ref j) = some (j, ds) := by simp [mapping?,hds]
  refine ⟨s,?_,htakes⟩
  unfold Act.update
  rw [run_bind_ok (show Act.store.run w = (.ok w.store, w) from rfl),hmapping]
  dsimp only
  rw [run_bind,hrun]
  rfl

end Act

end InterfaceKit
