import InterfaceKit.Proofs.Yaml.Relocation

/-!
# What a merge can change

A merge changes no cells but those that can be reached, through mappings, from the mapping that is
merged into, and those of the document that is merged. This holds also when it fails on the way, and
whatever is shared between the two.
-/
namespace InterfaceKit.Data

namespace Store

/-! ## Where values come from -/

section
variable {s : Store} {v k x : Value} {es : List (Value × Value)} {e : Value × Value}

theorem mem_values_of_mem (he : e ∈ es) : e.1 ∈ (Cell.map es).values ∧ e.2 ∈ (Cell.map es).values :=
  ⟨List.mem_flatMap.mpr ⟨e,he,List.mem_cons_self ..⟩,
    List.mem_flatMap.mpr ⟨e,he,List.mem_cons_of_mem _ (List.mem_cons_self ..)⟩⟩

theorem mem_of_findEntry (h : s.findEntry es k = some x) : ∃ e ∈ es, e.2 = x := by
  obtain ⟨e,he,rfl⟩ := Option.map_eq_some_iff.mp h
  exact ⟨e,List.mem_of_find?_eq_some he,rfl⟩

theorem mem_of_element {α : Type} {row wrong : String} {xs : List α} {z : α}
    (h : element row s xs k wrong = .ok z) : z ∈ xs := by
  unfold element at h
  split at h
  · split at h
    · split at h
      · rename_i hz
        cases h
        exact List.mem_of_getElem? hz
      · cases h
    · cases h
  · cases h

theorem mem_setEntry (h : e ∈ s.setEntry es k x) : e.2 = x ∨ e ∈ es := by
  induction es with
  | nil => exact .inl (List.mem_singleton.mp h ▸ rfl)
  | cons f es ih =>
    rw [setEntry] at h
    split at h
    · rcases List.mem_cons.mp h with rfl | h
      · exact .inl rfl
      · exact .inr (List.mem_cons_of_mem f h)
    · rcases List.mem_cons.mp h with rfl | h
      · exact .inr (List.mem_cons_self ..)
      · exact (ih h).imp_right (List.mem_cons_of_mem f)

/-- An item is no cell, or one of the values of the cell in which it is found. -/
theorem getItem_cases (h : s.getItem v k = .ok x) :
    (∀ i, x ≠ .ref i) ∨ ∃ i c, v = .ref i ∧ s.get? i = some c ∧ x ∈ c.values := by
  unfold getItem at h
  split at h
  · split at h
    · rename_i text _ _ _
      cases hc : element "string" s text.toList k "" with
      | error e => simp [hc,Except.map] at h
      | ok c =>
        simp only [hc,Except.map,Except.ok.injEq] at h
        exact .inl (by simp [← h])
    · cases h
  · rename_i bs
    cases hc : element "byte" s bs k " indices must be integers or slices, not " with
    | error e => simp [hc,Except.map] at h
    | ok c =>
      simp only [hc,Except.map,Except.ok.injEq] at h
      exact .inl (by simp [← h])
  · rename_i i
    split at h
    · rename_i xs hc
      exact .inr ⟨i,_,rfl,hc,mem_of_element h⟩
    · rename_i xs hc
      exact .inr ⟨i,_,rfl,hc,mem_of_element h⟩
    · rename_i es hc
      refine .inr ⟨i,_,rfl,hc,?_⟩
      unfold requireHashable at h
      split at h
      · cases hfound : s.findEntry es k with
        | none => simp [hfound,bind,Except.bind] at h
        | some y =>
          simp only [hfound,bind,Except.bind,Except.ok.injEq] at h
          obtain ⟨e,he,hy⟩ := mem_of_findEntry hfound
          exact h ▸ hy ▸ (mem_values_of_mem he).2
      · cases h
    · cases h
  · cases h

theorem lookUp_cases (h : s.lookUp v k = .ok x) :
    ∃ i es, v = .ref i ∧ s.get? i = some (.map es) ∧ (x = .null ∨ ∃ e ∈ es, e.2 = x) := by
  unfold lookUp at h
  split at h
  · rename_i i es hv
    obtain ⟨rfl,hes⟩ := mapping?_eq_some.mp hv
    refine ⟨i,es,rfl,hes,?_⟩
    unfold requireHashable at h
    split at h
    · cases hfound : s.findEntry es k with
      | none =>
        simp only [hfound,bind,Except.bind,Except.ok.injEq] at h
        exact .inl h.symm
      | some y =>
        simp only [hfound,bind,Except.bind,Except.ok.injEq] at h
        obtain ⟨e,he,hy⟩ := mem_of_findEntry hfound
        exact .inr ⟨e,he,hy.trans h⟩
    · cases h
  · cases h

/-- An element is no cell, or one of the values of the cell whose elements are taken. -/
theorem elements_cases {xs : List Value} (h : s.elements v = .ok xs) (hx : x ∈ xs) :
    (∀ i, x ≠ .ref i) ∨ ∃ i c, v = .ref i ∧ s.get? i = some c ∧ x ∈ c.values := by
  unfold elements at h
  split at h
  · cases h
    obtain ⟨c,-,rfl⟩ := List.mem_map.mp hx
    exact .inl nofun
  · cases h
    obtain ⟨c,-,rfl⟩ := List.mem_map.mp hx
    exact .inl nofun
  · rename_i i
    split at h
    · rename_i hc
      cases h
      exact .inr ⟨i,_,rfl,hc,hx⟩
    · rename_i hc
      cases h
      exact .inr ⟨i,_,rfl,hc,hx⟩
    · rename_i hc
      cases h
      exact .inr ⟨i,_,rfl,hc,hx⟩
    · rename_i hc
      cases h
      obtain ⟨e,he,rfl⟩ := List.mem_map.mp hx
      exact .inr ⟨i,_,rfl,hc,(mem_values_of_mem he).1⟩
    · cases h
      cases hx
  · cases h

end

/-! ## Cells that may be changed -/

/-- The cell can be reached from a value through mappings. -/
inductive Reaches (s : Store) (v : Value) : Nat → Prop
  | self {i : Nat} : v = .ref i → Reaches s v i
  | step {i j : Nat} {es : List (Value × Value)} {k : Value} :
      Reaches s v i → s.get? i = some (.map es) → (k, .ref j) ∈ es → Reaches s v j

/-- The cells in `U` may be changed. The cells from `start` on are among them and lead to each other
only, and a mapping that may be changed holds only mappings that may be changed. -/
structure Reserved (U : Nat → Prop) (start : Nat) (s : Store) : Prop where
  closed : s.Closed start
  fresh : ∀ i, start ≤ i → U i
  inner : ∀ i es, U i → s.get? i = some (.map es) → ∀ e ∈ es, ∀ j, e.2 = .ref j → U j

/-- From `s` to `t` only cells in `U` have changed. -/
structure Within (U : Nat → Prop) (start : Nat) (s t : Store) : Prop where
  reserved : t.Reserved U start
  outside : ∀ i, ¬ U i → t.get? i = s.get? i
  size : t.cells.size = s.cells.size

section
variable {U : Nat → Prop} {start : Nat} {s t u : Store} {a b k x y : Value}

theorem Within.refl (h : s.Reserved U start) : Within U start s s := ⟨h,fun _ _ => rfl,rfl⟩

theorem Within.trans (h : Within U start s t) (h' : Within U start t u) : Within U start s u :=
  ⟨h'.reserved,fun i hi => (h'.outside i hi).trans (h.outside i hi),h'.size.trans h.size⟩

/-- What is found in a new cell is new. -/
theorem Reserved.between (h : s.Reserved U start) (hb : b.Between start s.cells.size)
    (hx : (∀ i, x ≠ .ref i) ∨ ∃ i c, b = .ref i ∧ s.get? i = some c ∧ x ∈ c.values) :
    x.Between start s.cells.size := by
  rcases hx with hplain | ⟨i,c,hi,hc,hmem⟩
  · exact fun i hi => absurd hi (hplain i)
  · exact h.closed i c (hb i hi).1 hc x hmem

/-- Under a key of a mapping that may be changed something new is set. -/
theorem Reserved.setItem (h : s.Reserved U start) (ha : ∀ i, a = .ref i → U i)
    (hmap : s.isMapping a = true) (hk : k.Between start s.cells.size)
    (hx : x.Between start s.cells.size) (hset : s.setItem a k x = .ok t) :
    Within U start s t := by
  obtain ⟨i,rfl,⟨es,hes,rfl⟩ | ⟨xs,_,hxs,-⟩⟩ := setItem_cases hset
  · have hinner : ∀ e ∈ s.setEntry es k x, ∀ j, e.2 = .ref j → U j := by
      intro e he j hj
      rcases mem_setEntry he with hset | hmem
      · exact h.fresh j (hx j (hset ▸ hj)).1
      · exact h.inner i es (ha i rfl) hes e hmem j hj
    refine ⟨⟨?_,h.fresh,fun j fs hj hfs => ?_⟩,fun j hj => ?_,size_put ..⟩
    · by_cases hi : start ≤ i
      · refine h.closed.put i (Both.values (Both.setEntry (fun e he => ?_) s hk hx))
        exact ⟨h.closed i _ hi hes _ (mem_values_of_mem he).1,
          h.closed i _ hi hes _ (mem_values_of_mem he).2⟩
      · intro j c hj hc v hv
        rw [get?_put_of_ne (by omega)] at hc
        rw [size_put]
        exact h.closed j c hj hc v hv
    · rcases get?_put_cases hfs with hfs | hfs
      · cases hfs
        exact hinner
      · exact h.inner j fs hj hfs
    · refine get?_put_of_ne ?_ _
      rintro rfl
      exact hj (ha i rfl)
  · obtain ⟨es,hes⟩ := get?_of_isMapping hmap
    cases hxs.symm.trans hes

theorem copyItem_within (h : s.Reserved U start) (ha : ∀ i, a = .ref i → U i)
    (hmap : s.isMapping a = true) (hb : b.Between start s.cells.size)
    (hk : k.Between start s.cells.size) : Within U start s (s.copyItem a b k).2 := by
  unfold copyItem
  split
  · exact .refl h
  · rename_i x hx
    split
    · exact .refl h
    · rename_i t ht
      exact h.setItem ha hmap hk (h.between hb (getItem_cases hx)) ht

/-- A way to merge that changes only cells that may be changed. -/
def Confined (U : Nat → Prop) (start : Nat) (f : Store → Value → Value → Changed Unit) : Prop :=
  ∀ s a b, s.Reserved U start → (∀ i, a = .ref i → U i) → b.Between start s.cells.size →
    Within U start s (f s a b).2

variable {f : Store → Value → Value → Changed Unit}

theorem mergeKey_within (hf : Confined U start f) (h : s.Reserved U start)
    (ha : ∀ i, a = .ref i → U i) (hb : b.Between start s.cells.size)
    (hk : k.Between start s.cells.size) :
    Within U start s (mergeKey f s a b k).2 := by
  unfold mergeKey
  split
  · exact .refl h
  · rename_i mine hmine
    obtain ⟨i,es,rfl,hes,hfrom⟩ := lookUp_cases hmine
    have hcopy : Within U start s (s.copyItem (.ref i) b k).2 :=
      copyItem_within h ha (isMapping_of_get? hes) hb hk
    split
    · split
      · exact .refl h
      · rename_i theirs htheirs
        split
        · refine hf s mine theirs h (fun j hj => ?_) (h.between hb ?_)
          · rcases hfrom with rfl | ⟨e,he,rfl⟩
            · cases hj
            · exact h.inner i es (ha i rfl) hes e he j hj
          · obtain ⟨j,fs,rfl,hfs,rfl | ⟨e,he,rfl⟩⟩ := lookUp_cases htheirs
            · exact .inl nofun
            · exact .inr ⟨j,_,rfl,hfs,(mem_values_of_mem he).2⟩
        · exact hcopy
    · exact hcopy

theorem mergeKeys_within (hf : Confined U start f) (h : s.Reserved U start)
    (ha : ∀ i, a = .ref i → U i) (hb : b.Between start s.cells.size) {keys : List Value}
    (hkeys : ∀ k ∈ keys, k.Between start s.cells.size) (size : Nat) :
    Within U start s (mergeKeys f a b size s keys).2 := by
  induction keys generalizing s with
  | nil => exact .refl h
  | cons k keys ih =>
    obtain ⟨hk,hkeys⟩ := List.forall_mem_cons.mp hkeys
    have hstep := mergeKey_within hf h ha hb hk
    rw [mergeKeys]
    cases hrun : mergeKey f s a b k with
    | mk r t =>
      rw [hrun] at hstep
      cases r with
      | error e => exact hstep
      | ok _ =>
        dsimp only
        split
        · exact hstep
        · exact hstep.trans (ih hstep.reserved (hstep.size ▸ hb) (hstep.size ▸ hkeys))

/-- Whether it succeeds or fails, a merge changes only cells that may be changed. -/
theorem mergeUpTo_confined (U : Nat → Prop) (start limit : Nat) :
    Confined U start (mergeUpTo limit) := by
  induction limit with
  | zero => exact fun s a b h _ _ => .refl h
  | succ limit ih =>
    intro s a b h ha hb
    rw [mergeUpTo]
    split
    · exact .refl h
    · rename_i keys hkeys
      exact mergeKeys_within ih h ha hb (fun k hk => h.between hb (elements_cases hkeys hk)) _

end

end Store

end InterfaceKit.Data
