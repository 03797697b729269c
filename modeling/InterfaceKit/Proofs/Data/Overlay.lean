import InterfaceKit.Proofs.Data.Keys

/-!
# Merging as an overlay

Two mappings are merged along their common paths, those that lead to a mapping in both. Where a
common path leads, the mapping of the first gets the keys of the second behind its own, and takes
over what the second has, except that two mappings under one key stay apart: their contents are
merged, along the longer path.

This is so if no mapping that is merged into is met twice, by another path or from the second side,
and if the second is not nested too deep. Merging the same once more then changes nothing.
-/
namespace InterfaceKit.Data

namespace Store

/-- The value under a key of which the two sides have these values. -/
def overlay (s : Store) : Option Value → Option Value → Option Value
  | some x, some y => some (if s.isMapping x && s.isMapping y then x else y)
  | none, some y => some y
  | x, none => x

/-- The entries `gs` are those of `es` with those of `fs` laid over them. -/
structure Overlays (s : Store) (es fs gs : List (Value × Value)) : Prop where
  keys : gs.map (·.1) = es.map (·.1) ++ (fs.map (·.1)).filter fun k => (entryAt es k).isNone
  values : ∀ k, entryAt gs k = s.overlay (entryAt es k) (entryAt fs k)

/-- A path that leads from both sides to mappings, which lie in the cells `i` and `j`. -/
structure Common (s : Store) (a b : Value) (p : List Value) (i j : Nat) : Prop where
  first : s.follow a p = some (.ref i)
  second : s.follow b p = some (.ref j)
  isFirst : s.isMapping (.ref i) = true
  isSecond : s.isMapping (.ref j) = true

/-- Two mappings that can be merged path by path: of the first, what is merged into is reached along
one path only and not from the second, and the second is nested less than `limit` deep. -/
structure Separate (s : Store) (limit : Nat) (a b : Value) : Prop where
  keyed : s.WellKeyed
  first : s.isMapping a = true
  second : s.isMapping b = true
  unshared : ∀ p i j, s.Common a b p i j → ∀ q, s.follow a q = some (.ref i) →
    q.map Value.canonical = p.map Value.canonical
  foreign : ∀ p i j, s.Common a b p i j → ∀ q, s.follow b q ≠ some (.ref i)
  depth : ∀ p j, s.follow b p = some (.ref j) → s.isMapping (.ref j) = true → p.length < limit

/-- The store `t` after `b` has been merged into `a`: the mappings of `a` on common paths have those
of `b` laid over them, and all other cells are as they were. -/
structure Merged (s : Store) (a b : Value) (t : Store) : Prop where
  merged : ∀ {p i j es fs}, s.Common a b p i j → s.get? i = some (.map es) →
    s.get? j = some (.map fs) →
    ∃ gs, t.get? i = some (.map gs) ∧ s.Overlays es fs gs
  kept : ∀ {c}, (∀ p j, ¬ s.Common a b p c j) → t.get? c = s.get? c

/-! ## One level -/

section
variable {s : Store} {es fs gs done : List (Value × Value)} {k x y : Value}

theorem Overlays.nil (s : Store) (es : List (Value × Value)) : s.Overlays es [] es where
  keys := by simp
  values k := by
    rw [entryAt_nil]
    cases entryAt es k <;> rfl

theorem Overlays.keyed (h : s.Overlays es fs gs) (hes : Keyed es) (hfs : Keyed fs) : Keyed gs := by
  have hnew : Keyed (fs.filter fun f => (entryAt es f.1).isNone) :=
    ⟨fun f hf => hfs.plain f (List.mem_of_mem_filter hf),hfs.distinct.filter _⟩
  have hall : Keyed (es ++ fs.filter fun f => (entryAt es f.1).isNone) :=
    hes.append hnew fun f hf => Option.isNone_iff_eq_none.mp (List.mem_filter.mp hf).2
  refine hall.of_keys ?_
  rw [h.keys,List.map_append,List.filter_map]
  rfl

/-- Entries are determined by what they are made of. -/
theorem Overlays.unique {gs' : List (Value × Value)} (h : s.Overlays es fs gs)
    (h' : s.Overlays es fs gs') (hes : Keyed es) (hfs : Keyed fs) : gs = gs' :=
  (h.keyed hes hfs).ext (h'.keyed hes hfs) (h.keys.trans h'.keys.symm) fun k =>
    (h.values k).trans (h'.values k).symm

theorem Overlays.entryAt_of_none (h : s.Overlays es done gs) (hk : entryAt done k = none) :
    entryAt gs k = entryAt es k := by
  rw [h.values,hk]
  cases entryAt es k <;> rfl

theorem entryAt_push (hk : entryAt done k = none) (y l : Value) :
    entryAt (done ++ [(k, y)]) l = if k.canonical = l.canonical then some y else entryAt done l := by
  rw [entryAt_append,entryAt_cons,entryAt_nil]
  by_cases hl : k.canonical = l.canonical
  · rw [← entryAt_congr done hl,hk]
    simp [hl]
  · simp [hl]

/-- The next key has mappings on both sides: the first keeps its own. -/
theorem Overlays.push_mapping (h : s.Overlays es done gs) (hk : entryAt done k = none)
    (hx : entryAt es k = some x) (hxy : (s.isMapping x && s.isMapping y) = true) :
    s.Overlays es (done ++ [(k, y)]) gs where
  keys := by simp [h.keys,hx]
  values l := by
    rw [h.values,entryAt_push hk]
    split
    · rename_i hl
      rw [← entryAt_congr es hl,← entryAt_congr done hl,hx,hk]
      simp [overlay,hxy]
    · rfl

theorem Overlays.push_set (h : s.Overlays es done gs) (hgs : Keyed gs) (hk : entryAt done k = none)
    (hxy : ∀ x, entryAt es k = some x → (s.isMapping x && s.isMapping y) = false) (t : Store) :
    s.Overlays es (done ++ [(k, y)]) (t.setEntry gs k y) where
  keys := by
    rw [t.map_fst_setEntry hgs,h.entryAt_of_none hk,h.keys]
    cases hx : entryAt es k with
    | none => simp [hx]
    | some x => simp [hx]
  values l := by
    rw [t.entryAt_setEntry hgs,entryAt_push hk]
    split
    · rename_i hl
      rw [← entryAt_congr es hl]
      cases hx : entryAt es k with
      | none => rfl
      | some x => simp [overlay,hxy x hx]
    · exact h.values l

end

/-! ## Cells that change -/

/-- Cells are as they were, or mappings that had something laid over them. -/
def Laid (s t : Store) : Prop :=
  ∀ c, t.get? c = s.get? c ∨ ∃ es fs gs, s.get? c = some (.map es) ∧ Keyed fs ∧
    t.get? c = some (.map gs) ∧ s.Overlays es fs gs

section
variable {s t : Store} {a b : Value} {p : List Value} {i j limit : Nat}

theorem Laid.isMapping (h : s.Laid t) (v : Value) : t.isMapping v = s.isMapping v := by
  cases v with
  | ref c =>
    rcases h c with hsame | ⟨es,fs,gs,hes,-,hgs,-⟩
    · unfold Store.isMapping
      rw [mapping?_congr hsame]
    · rw [isMapping_of_get? hes,isMapping_of_get? hgs]
  | _ => rfl

theorem Laid.wellKeyed (h : s.Laid t) (hs : s.WellKeyed) : t.WellKeyed := by
  intro c gs hgs
  rcases h c with hsame | ⟨es,fs,gs',hes,hfs,hgs',hover⟩
  · exact hs c gs (hsame ▸ hgs)
  · cases hgs.symm.trans hgs'
    exact hover.keyed (hs c es hes) hfs

variable {es fs : List (Value × Value)} {k x y : Value}

theorem Laid.overlays (h : s.Laid t) {gs : List (Value × Value)} (hover : t.Overlays es fs gs) :
    s.Overlays es fs gs where
  keys := hover.keys
  values k := by
    rw [hover.values]
    cases entryAt es k <;> cases entryAt fs k <;> simp [overlay,h.isMapping]

theorem Common.entries (h : s.Common a b p i j) :
    ∃ es fs, s.get? i = some (.map es) ∧ s.get? j = some (.map fs) := by
  obtain ⟨es,hes⟩ := get?_of_isMapping h.isFirst
  obtain ⟨fs,hfs⟩ := get?_of_isMapping h.isSecond
  exact ⟨es,fs,hes,hfs⟩

theorem Merged.laid (h : s.Merged a b t) (hs : s.WellKeyed) : s.Laid t := by
  intro c
  by_cases hc : ∃ p j, s.Common a b p c j
  · obtain ⟨p,j,hc⟩ := hc
    obtain ⟨es,fs,hes,hfs⟩ := hc.entries
    obtain ⟨gs,hgs,hover⟩ := h.merged hc hes hfs
    exact .inr ⟨es,fs,gs,hes,hs j fs hfs,hgs,hover⟩
  · exact .inl (h.kept fun p j hcommon => hc ⟨p,j,hcommon⟩)

theorem common_cons (hes : s.get? i = some (.map es))
    (hfs : s.get? j = some (.map fs)) (hx : entryAt es k = some x) (hy : entryAt fs k = some y)
    {c d : Nat} :
    s.Common (.ref i) (.ref j) (k :: p) c d ↔ s.Common x y p c d := by
  have hfirst : s.follow (.ref i) (k :: p) = s.follow x p := by rw [follow_cons hes,hx]; rfl
  have hsecond : s.follow (.ref j) (k :: p) = s.follow y p := by rw [follow_cons hfs,hy]; rfl
  constructor
  · intro h
    exact ⟨hfirst ▸ h.first,hsecond ▸ h.second,h.isFirst,h.isSecond⟩
  · intro h
    exact ⟨hfirst.trans h.first,hsecond.trans h.second,h.isFirst,h.isSecond⟩

theorem Common.congr_path {q : List Value} (h : s.Common a b p i j)
    (hpq : p.map Value.canonical = q.map Value.canonical) : s.Common a b q i j :=
  ⟨s.follow_congr a hpq ▸ h.first,s.follow_congr b hpq ▸ h.second,h.isFirst,h.isSecond⟩

/-- What is merged below a key can be merged by itself. -/
theorem Separate.below (h : s.Separate (limit + 1) (.ref i) (.ref j))
    (hes : s.get? i = some (.map es)) (hfs : s.get? j = some (.map fs)) (hx : entryAt es k = some x)
    (hy : entryAt fs k = some y) (hxm : s.isMapping x = true) (hym : s.isMapping y = true) :
    s.Separate limit x y := by
  have hfirst : ∀ q, s.follow (.ref i) (k :: q) = s.follow x q :=
    fun q => by rw [follow_cons hes,hx]; rfl
  have hsecond : ∀ q, s.follow (.ref j) (k :: q) = s.follow y q :=
    fun q => by rw [follow_cons hfs,hy]; rfl
  refine ⟨h.keyed,hxm,hym,fun p c d hc q hq => ?_,fun p c d hc q => ?_,fun p d hp hd => ?_⟩
  · have hpath :=
      h.unshared (k :: p) c d ((common_cons hes hfs hx hy).mpr hc) (k :: q) ((hfirst q).trans hq)
    exact (List.cons.inj hpath).2
  · exact hsecond q ▸ h.foreign (k :: p) c d ((common_cons hes hfs hx hy).mpr hc) (k :: q)
  · have hlength := h.depth (k :: p) d ((hsecond p).trans hp) hd
    simpa using hlength

/-- Whether mappings can be merged path by path depends on the cells that paths lead to. -/
theorem Separate.transfer (h : s.Separate limit a b) (hst : s.Laid t)
    (ha : ∀ q, t.follow a q = s.follow a q) (hb : ∀ q, t.follow b q = s.follow b q) :
    t.Separate limit a b ∧ ∀ p i j, t.Common a b p i j ↔ s.Common a b p i j := by
  have hcommon : ∀ p i j, t.Common a b p i j ↔ s.Common a b p i j := by
    intro p i j
    constructor
    · intro hc
      exact ⟨ha p ▸ hc.first,hb p ▸ hc.second,hst.isMapping _ ▸ hc.isFirst,
        hst.isMapping _ ▸ hc.isSecond⟩
    · intro hc
      exact ⟨(ha p).trans hc.first,(hb p).trans hc.second,(hst.isMapping _).trans hc.isFirst,
        (hst.isMapping _).trans hc.isSecond⟩
  refine ⟨⟨hst.wellKeyed h.keyed,(hst.isMapping a).trans h.first,(hst.isMapping b).trans h.second,
    fun p i j hc q hq => ?_,fun p i j hc q => ?_,fun p j hp hj => ?_⟩,hcommon⟩
  · exact h.unshared p i j ((hcommon p i j).mp hc) q ((ha q).symm.trans hq)
  · exact hb q ▸ h.foreign p i j ((hcommon p i j).mp hc) q
  · exact h.depth p j ((hb p).symm.trans hp) ((hst.isMapping _).symm.trans hj)

end

/-! ## The keys of one mapping, one after the other -/

/-- The store `t` after the entries `done` of the cell `j` have been merged into the cell `i`. -/
structure Partly (s : Store) (i j : Nat) (es done : List (Value × Value)) (t : Store) : Prop where
  root : ∃ gs, t.get? i = some (.map gs) ∧ s.Overlays es done gs
  below : ∀ {k p c d es' fs'}, (entryAt done k).isSome → s.Common (.ref i) (.ref j) (k :: p) c d →
    s.get? c = some (.map es') → s.get? d = some (.map fs') → ∃ gs, t.get? c = some (.map gs) ∧
      s.Overlays es' fs' gs
  kept :
    ∀ {c}, c ≠ i → (∀ k p d, (entryAt done k).isSome → ¬ s.Common (.ref i) (.ref j) (k :: p) c d) →
    t.get? c = s.get? c

/-- A way to merge two mappings that lays the second over the first. -/
def Overlaying (limit : Nat) (f : Store → Value → Value → Changed Unit) : Prop :=
  ∀ s a b, s.Separate limit a b → ∃ t, f s a b = (.ok (), t) ∧ s.Merged a b t

section
variable {s t : Store} {i j limit : Nat} {es fs done rest : List (Value × Value)} {k y : Value}

theorem Partly.nil (hes : s.get? i = some (.map es)) : s.Partly i j es [] s where
  root := ⟨es,hes,.nil s es⟩
  below h := absurd h (by simp [entryAt_nil])
  kept _ _ := rfl

theorem Separate.common (hs : s.Separate limit (.ref i) (.ref j)) :
    s.Common (.ref i) (.ref j) [] i j :=
  ⟨rfl,rfl,hs.first,hs.second⟩

theorem Partly.laid (h : s.Partly i j es done t) (hs : s.WellKeyed) (hes : s.get? i = some (.map es))
    (hdone : Keyed done) : s.Laid t := by
  intro c
  by_cases hci : c = i
  · subst hci
    obtain ⟨gs,hgs,hover⟩ := h.root
    exact .inr ⟨es,done,gs,hes,hdone,hgs,hover⟩
  by_cases hc : ∃ k p d, (entryAt done k).isSome ∧ s.Common (.ref i) (.ref j) (k :: p) c d
  · obtain ⟨k,p,d,hk,hc⟩ := hc
    obtain ⟨es',fs',hes',hfs'⟩ := hc.entries
    obtain ⟨gs,hgs,hover⟩ := h.below hk hc hes' hfs'
    exact .inr ⟨es',fs',gs,hes',hs d fs' hfs',hgs,hover⟩
  · exact .inl (h.kept hci fun k p d hk hcommon => hc ⟨k,p,d,hk,hcommon⟩)

variable {q : List Value} {c : Nat} {x : Value} {f : Store → Value → Value → Changed Unit}

theorem Partly.kept_second (h : s.Partly i j es done t) (hs : s.Separate limit (.ref i) (.ref j))
    (hq : s.follow (.ref j) q = some (.ref c)) : t.get? c = s.get? c := by
  refine h.kept ?_ fun k p d _ hc => hs.foreign (k :: p) c d hc q hq
  rintro rfl
  exact hs.foreign [] c j hs.common q hq

/-- What the first side has below a key that has not come yet is not touched. -/
theorem Partly.kept_first (h : s.Partly i j es done t) (hs : s.Separate limit (.ref i) (.ref j))
    (hk : entryAt done k = none) (hq : s.follow (.ref i) (k :: q) = some (.ref c)) :
    t.get? c = s.get? c := by
  refine h.kept ?_ fun l p d hl hc => ?_
  · rintro rfl
    exact absurd (hs.unshared [] c j hs.common (k :: q) hq) (by simp)
  · have hpath := hs.unshared (l :: p) c d hc (k :: q) hq
    rw [← entryAt_congr done (List.cons.inj hpath).1,hk] at hl
    cases hl

theorem copyItem_eq (hes : s.get? i = some (.map es)) (hfs : s.get? j = some (.map fs))
    (hkeyed : Keyed fs) (hk : ∀ c, k ≠ .ref c) (hy : entryAt fs k = some y) :
    s.copyItem (.ref i) (.ref j) k = (.ok (), s.put i (.map (s.setEntry es k y))) := by
  simp only [copyItem,getItem_eq hfs hkeyed hk hy,setItem_eq hes hk]

/-- The next key has mappings on both sides, and these have been merged. -/
theorem Partly.push_mapping (ht : s.Partly i j es done t)
    (hs : s.Separate (limit + 1) (.ref i) (.ref j)) (hes : s.get? i = some (.map es))
    (hfs : s.get? j = some (.map fs)) (hdone : Keyed done) (hk : entryAt done k = none)
    (hx : entryAt es k = some x) (hy : entryAt fs k = some y) (hxm : s.isMapping x = true)
    (hym : s.isMapping y = true) {t' : Store} (hmerged : t.Merged x y t') (hcommon : ∀ p c d,
      t.Common x y p c d ↔ s.Common x y p c d) : s.Partly i j es (done ++ [(k, y)]) t' := by
  have hlaid := ht.laid hs.keyed hes hdone
  have hstep : ∀ {p c d}, t.Common x y p c d ↔ s.Common (.ref i) (.ref j) (k :: p) c d :=
    fun {p c d} =>
    (hcommon p c d).trans (common_cons hes hfs hx hy).symm
  have hnotRoot : ∀ p d, ¬ t.Common x y p i d := fun p d hc =>
    absurd (hs.unshared [] i j hs.common (k :: p) (hstep.mp hc).first) (by simp)
  refine ⟨?_,fun {l p c d es' fs'} hl hc hes' hfs' => ?_,fun {c} hci hc => ?_⟩
  · obtain ⟨gs,hgs,hover⟩ := ht.root
    exact ⟨gs,(hmerged.kept hnotRoot).trans hgs,hover.push_mapping hk hx (by simp [hxm,hym])⟩
  · rw [entryAt_push hk] at hl
    by_cases hkl : k.canonical = l.canonical
    · have hpath : s.Common (.ref i) (.ref j) (k :: p) c d :=
        hc.congr_path (by rw [List.map_cons,List.map_cons,hkl])
      have hold : t.get? c = some (.map es') := (ht.kept_first hs hk hpath.first).trans hes'
      have hold' : t.get? d = some (.map fs') := (ht.kept_second hs hpath.second).trans hfs'
      obtain ⟨gs,hgs,hover⟩ := hmerged.merged (hstep.mpr hpath) hold hold'
      exact ⟨gs,hgs,hlaid.overlays hover⟩
    · rw [if_neg hkl] at hl
      obtain ⟨gs,hgs,hover⟩ := ht.below hl hc hes' hfs'
      refine ⟨gs,(hmerged.kept fun q e hq => ?_).trans hgs,hover⟩
      exact hkl (List.cons.inj (hs.unshared (l :: p) c d hc (k :: q) (hstep.mp hq).first)).1
  · have hkept : t'.get? c = t.get? c := hmerged.kept fun q e hq =>
      hc k q e (by simp [entryAt_push hk]) (hstep.mp hq)
    refine hkept.trans (ht.kept hci fun l p d hl => hc l p d ?_)
    rw [entryAt_append,Option.isSome_or,hl]
    rfl

theorem Partly.push_set (ht : s.Partly i j es done t) (hs : s.Separate (limit + 1) (.ref i) (.ref j))
    (hes : s.get? i = some (.map es)) (hfs : s.get? j = some (.map fs)) (hdone : Keyed done)
    (hk : entryAt done k = none) (hy : entryAt fs k = some y)
    (hxy : ∀ x, entryAt es k = some x → (s.isMapping x && s.isMapping y) = false)
    {gs : List (Value × Value)} (hgs : t.get? i = some (.map gs)) :
    s.Partly i j es (done ++ [(k, y)]) (t.put i (.map (t.setEntry gs k y))) := by
  have hover : s.Overlays es done gs := by
    obtain ⟨gs',hgs',hover⟩ := ht.root
    cases hgs.symm.trans hgs'
    exact hover
  have hgsKeyed : Keyed gs := hover.keyed (hs.keyed i es hes) hdone
  have hnone : ∀ {l p c d}, k.canonical = l.canonical →
      ¬ s.Common (.ref i) (.ref j) (l :: p) c d := by
    intro l p c d hkl hc
    obtain ⟨_,_,x,hi,hes',hx,hxc⟩ := exists_of_follow_cons hc.first
    cases hi
    cases hes.symm.trans hes'
    obtain ⟨_,_,y',hj,hfs',hy',hyd⟩ := exists_of_follow_cons hc.second
    cases hj
    cases hfs.symm.trans hfs'
    rw [← entryAt_congr _ hkl] at hx hy'
    cases hy.symm.trans hy'
    have hboth := hxy x hx
    have hxm : s.isMapping x = true := isMapping_of_follow hxc hc.isFirst
    have hym : s.isMapping y = true := isMapping_of_follow hyd hc.isSecond
    simp [hxm,hym] at hboth
  refine ⟨⟨_,get?_put_self hgs _,hover.push_set hgsKeyed hk hxy t⟩,
    fun {l p c d es' fs'} hl hc hes' hfs' => ?_,fun {c} hci hc => ?_⟩
  · rw [entryAt_push hk] at hl
    rw [if_neg fun hkl => hnone hkl hc] at hl
    obtain ⟨gs',hgs',hover'⟩ := ht.below hl hc hes' hfs'
    have hci : i ≠ c := by
      rintro rfl
      exact absurd (hs.unshared [] i j hs.common (l :: p) hc.first) (by simp)
    exact ⟨gs',(get?_put_of_ne hci _).trans hgs',hover'⟩
  · refine (get?_put_of_ne (Ne.symm hci) _).trans (ht.kept hci fun l p d hl => hc l p d ?_)
    rw [entryAt_append,Option.isSome_or,hl]
    rfl

theorem mergeKey_eq (f : Store → Value → Value → Changed Unit) {a b : Value}
    (hx : s.lookUp a k = .ok x) (hy : s.lookUp b k = .ok y) :
    mergeKey f s a b k = if s.isMapping x && s.isMapping y then f s x y else s.copyItem a b k := by
  simp only [mergeKey,hx,hy]
  cases s.isMapping x <;> cases s.isMapping y <;> rfl

theorem mergeKey_partly (hf : Overlaying limit f)
    (hs : s.Separate (limit + 1) (.ref i) (.ref j)) (hes : s.get? i = some (.map es))
    (hfs : s.get? j = some (.map (done ++ (k, y) :: rest))) (ht : s.Partly i j es done t) :
    ∃ t', mergeKey f t (.ref i) (.ref j) k = (.ok (), t') ∧
    s.Partly i j es (done ++ [(k, y)]) t' := by
  have hall := hs.keyed j _ hfs
  have hdone : Keyed done := hall.left
  have hk : entryAt done k = none := hall.entryAt_left
  have hplain : ∀ c, k ≠ .ref c := hall.plain (k, y) (by simp)
  have hy : entryAt (done ++ (k, y) :: rest) k = some y := hall.entryAt_of_mem (by simp)
  have hlaid := ht.laid hs.keyed hes hdone
  obtain ⟨gs,hgs,hover⟩ := ht.root
  have hfs' : t.get? j = some (.map (done ++ (k, y) :: rest)) :=
    (ht.kept_second hs (q := []) rfl).trans hfs
  have hmine : t.lookUp (.ref i) k = .ok ((entryAt es k).getD .null) := by
    rw [lookUp_eq hgs (hlaid.wellKeyed hs.keyed i gs hgs) hplain,hover.entryAt_of_none hk]
  have htheirs : t.lookUp (.ref j) k = .ok y := by
    rw [lookUp_eq hfs' hall hplain,hy]
    rfl
  rw [mergeKey_eq f hmine htheirs,hlaid.isMapping,hlaid.isMapping]
  by_cases hxy : (s.isMapping ((entryAt es k).getD .null) && s.isMapping y) = true
  · obtain ⟨hxm,hym⟩ : s.isMapping ((entryAt es k).getD .null) = true ∧ s.isMapping y = true := by
      simpa using hxy
    obtain ⟨x,hx⟩ : ∃ x, entryAt es k = some x := by
      cases hx : entryAt es k with
      | none =>
        rw [hx] at hxm
        cases hxm
      | some x => exact ⟨x,rfl⟩
    rw [hx] at hxm
    obtain ⟨hbelow,hcommon⟩ := (hs.below hes hfs hx hy hxm hym).transfer hlaid
      (follow_frame fun q c hq => ht.kept_first hs hk (by rw [follow_cons hes,hx]; exact hq))
      (follow_frame fun q c hq => ht.kept_second hs (q := k :: q)
        (by rw [follow_cons hfs,hy]; exact hq))
    obtain ⟨t',hrun,hmerged⟩ := hf t x y hbelow
    rw [if_pos hxy,hx]
    exact ⟨t',hrun,ht.push_mapping hs hes hfs hdone hk hx hy hxm hym hmerged hcommon⟩
  · rw [if_neg hxy]
    refine ⟨_,copyItem_eq hgs hfs' hall hplain hy,
      ht.push_set hs hes hfs hdone hk hy (fun x hx => ?_) hgs⟩
    simpa [hx] using hxy

theorem mergeKeys_partly (hf : Overlaying limit f)
    (hs : s.Separate (limit + 1) (.ref i) (.ref j)) (hes : s.get? i = some (.map es))
    (hfs : s.get? j = some (.map fs)) (ht : s.Partly i j es done t) (hrow : fs = done ++ rest) :
    ∃ t', mergeKeys f (.ref i) (.ref j) fs.length t (rest.map (·.1)) = (.ok (), t') ∧
    s.Partly i j es fs t' := by
  induction rest generalizing done t with
  | nil =>
    rw [List.append_nil] at hrow
    exact ⟨t,rfl,hrow ▸ ht⟩
  | cons e rest ih =>
    obtain ⟨t₁,hstep,ht₁⟩ := mergeKey_partly hf hs hes (hrow ▸ hfs) ht
    have hsize : t₁.requireSize (.ref j) fs.length = .ok () := by
      have hj : t₁.get? j = some (.map fs) := (ht₁.kept_second hs (q := []) rfl).trans hfs
      simp only [requireSize,mapping?_of_get? hj,if_true]
    obtain ⟨t',hrun,ht'⟩ := ih ht₁ (by rw [hrow,List.append_assoc]; rfl)
    refine ⟨t',?_,ht'⟩
    simp only [List.map_cons,mergeKeys,hstep,hsize]
    exact hrun

theorem Partly.merged (h : s.Partly i j es fs t) (hs : s.Separate limit (.ref i) (.ref j))
    (hes : s.get? i = some (.map es)) (hfs : s.get? j = some (.map fs)) :
    s.Merged (.ref i) (.ref j) t where
  merged {p c d es' fs'} hc hes' hfs' := by
    cases p with
    | nil =>
      cases hc.first
      cases hc.second
      cases hes.symm.trans hes'
      cases hfs.symm.trans hfs'
      exact h.root
    | cons k p =>
      obtain ⟨_,_,y,hj,hfs'',hy,-⟩ := exists_of_follow_cons hc.second
      cases hj
      cases hfs.symm.trans hfs''
      exact h.below (by rw [hy]; rfl) hc hes' hfs'
  kept {c} hc := by
    refine h.kept ?_ fun k p d _ => hc (k :: p) d
    rintro rfl
    exact hc [] j hs.common

end

/-- Merging lays the second mapping over the first. -/
theorem mergeUpTo_overlaying (limit : Nat) : Overlaying limit (mergeUpTo limit) := by
  induction limit with
  | zero =>
    intro s a b hs
    obtain ⟨j,_,rfl,-⟩ := isMapping_iff.mp hs.second
    exact absurd (hs.depth [] j rfl hs.second) (by simp)
  | succ limit ih =>
    intro s a b hs
    obtain ⟨i,es,rfl,hes⟩ := isMapping_iff.mp hs.first
    obtain ⟨j,fs,rfl,hfs⟩ := isMapping_iff.mp hs.second
    obtain ⟨t,hrun,ht⟩ := mergeKeys_partly ih hs hes hfs (.nil hes) (List.nil_append fs).symm
    refine ⟨t,?_,ht.merged hs hes hfs⟩
    simp only [mergeUpTo,elements,hfs,List.length_map]
    exact hrun

end Store

end InterfaceKit.Data
