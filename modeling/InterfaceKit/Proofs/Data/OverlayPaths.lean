import InterfaceKit.Proofs.Data.Overlay

/-!
# What paths lead to after a merge

After `b` has been merged into `a`, a path that leads in `b` to something other than a mapping leads
to the same in `a`, and a path of `a` on which `b` has nothing leads to what it did. So `a` has what
`b` has, and merging `b` once more changes nothing.
-/
namespace InterfaceKit.Data

namespace Store
variable {s t : Store} {a b : Value} {limit i j : Nat} {p q : List Value}
  {es fs gs : List (Value × Value)} {k x y : Value}

/-- The path passes a mapping of `b` that has not got the next key. -/
def Leaves (s : Store) (b : Value) (p : List Value) : Prop :=
  ∃ q k r y, p = q ++ k :: r ∧ s.follow b q = some y ∧ s.isMapping y = true ∧
    s.follow b (q ++ [k]) = none

/-- `a` has what `b` has: mappings where `b` has mappings, and the same everywhere else. -/
def Covers (s : Store) (a b : Value) : Prop :=
  ∀ p y, s.follow b p = some y →
    ∃ x, s.follow a p = some x ∧ if s.isMapping y then s.isMapping x = true else x = y

/-! ## Merging what is there already -/

theorem Covers.below (h : s.Covers (.ref i) (.ref j)) (hes : s.get? i = some (.map es))
    (hfs : s.get? j = some (.map fs)) (hx : entryAt es k = some x) (hy : entryAt fs k = some y) :
    s.Covers x y := by
  intro p z hz
  have hstep := h (k :: p) z (by rw [follow_cons hfs,hy]; exact hz)
  rwa [follow_cons hes,hx] at hstep

theorem put_eq_self {c : Cell} (h : s.get? i = some c) : s.put i c = s := by
  have hcells : s.cells.setIfInBounds i c = s.cells := by
    refine Array.ext_getElem? fun j => ?_
    by_cases hij : i = j
    · subst hij
      exact (get?_put_self h c).trans h.symm
    · exact get?_put_of_ne hij c
  rw [put,hcells]

theorem mergeKey_covered {f : Store → Value → Value → Changed Unit} (hs : s.WellKeyed)
    (hes : s.get? i = some (.map es)) (hfs : s.get? j = some (.map fs))
    (h : s.Covers (.ref i) (.ref j)) (hmem : (k, y) ∈ fs)
    (hf : ∀ x, s.Covers x y → s.isMapping y = true → f s x y = (.ok (), s)) :
    mergeKey f s (.ref i) (.ref j) k = (.ok (), s) := by
  have hplain := (hs j fs hfs).plain (k, y) hmem
  have hy : entryAt fs k = some y := (hs j fs hfs).entryAt_of_mem hmem
  obtain ⟨x,hx,hxy⟩ := h [k] y (by rw [follow_cons hfs,hy]; rfl)
  have hx : entryAt es k = some x := by
    rw [follow_cons hes] at hx
    obtain ⟨x',hx',hxx⟩ := Option.bind_eq_some_iff.mp hx
    cases hxx
    exact hx'
  rw [mergeKey_eq f (lookUp_eq hes (hs i es hes) hplain) (lookUp_eq hfs (hs j fs hfs) hplain),hx,hy]
  by_cases hym : s.isMapping y = true
  · rw [if_pos hym] at hxy
    rw [Option.getD_some,Option.getD_some,hxy,hym]
    exact hf x (h.below hes hfs hx hy) hym
  · rw [if_neg hym] at hxy
    rw [Option.getD_some,Option.getD_some,Bool.eq_false_iff.mpr hym,Bool.and_false,
      copyItem_eq hes hfs (hs j fs hfs) hplain hy,s.setEntry_eq_self (hs i es hes) (hxy ▸ hx),
        put_eq_self hes]
    rfl

/-- Merging what is there already changes nothing. -/
theorem mergeUpTo_covered (hs : s.WellKeyed) (h : s.Covers a b) (hb : s.isMapping b = true)
    (hdepth : ∀ p j, s.follow b p = some (.ref j) → s.isMapping (.ref j) = true → p.length < limit) :
    mergeUpTo limit s a b = (.ok (), s) := by
  induction limit generalizing a b with
  | zero =>
    obtain ⟨j,_,rfl,-⟩ := isMapping_iff.mp hb
    exact absurd (hdepth [] j rfl hb) (by simp)
  | succ limit ih =>
    obtain ⟨j,fs,rfl,hfs⟩ := isMapping_iff.mp hb
    obtain ⟨i,es,rfl,hes⟩ : ∃ i es, a = .ref i ∧ s.get? i = some (.map es) := by
      obtain ⟨x,hx,hxy⟩ := h [] (.ref j) rfl
      cases hx
      exact isMapping_iff.mp (by simpa [hb] using hxy)
    have hsize : s.requireSize (.ref j) fs.length = .ok () := by
      simp only [requireSize,mapping?_of_get? hfs,if_true]
    have hkeys : ∀ es' ⊆ fs, mergeKeys (mergeUpTo limit) (.ref i) (.ref j) fs.length s
        (es'.map (·.1)) = (.ok (), s) := by
      intro es' hsub
      induction es' with
      | nil => rfl
      | cons e es' ihkeys =>
        obtain ⟨hmem,hrest⟩ := List.cons_subset.mp hsub
        have hy : entryAt fs e.1 = some e.2 := (hs j fs hfs).entryAt_of_mem hmem
        have hstep := mergeKey_covered (f := mergeUpTo limit) hs hes hfs h hmem fun x hcovers hm =>
          ih hcovers hm fun p c hp hc => by
            have hlength := hdepth (e.1 :: p) c (by rw [follow_cons hfs,hy]; exact hp) hc
            simpa using hlength
        simp only [List.map_cons,mergeKeys,hstep,hsize]
        exact ihkeys hrest
    simp only [mergeUpTo,elements,hfs,List.length_map]
    exact hkeys fs (List.Subset.refl fs)

/-! ## Paths -/

theorem Common.follow_second (h : s.Common a b q i j) (p : List Value) :
    s.follow b (q ++ p) = s.follow (.ref j) p := by
  rw [follow_append,h.second]
  rfl

theorem Common.follow_first (h : s.Common a b q i j) (p : List Value) :
    s.follow a (q ++ p) = s.follow (.ref i) p := by
  rw [follow_append,h.first]
  rfl

variable {c d : Nat}

theorem Common.append (h : s.Common a b q i j) :
    s.Common (.ref i) (.ref j) p c d ↔ s.Common a b (q ++ p) c d := by
  constructor
  · intro hp
    exact ⟨(h.follow_first p).trans hp.first,(h.follow_second p).trans hp.second,hp.isFirst,
      hp.isSecond⟩
  · intro hp
    exact ⟨(h.follow_first p).symm.trans hp.first,(h.follow_second p).symm.trans hp.second,
      hp.isFirst,hp.isSecond⟩

theorem Merged.follow_second (h : s.Merged a b t) (hs : s.Separate limit a b)
    (hy : s.follow b q = some y) (p : List Value) : t.follow y p = s.follow y p := by
  refine follow_frame (fun r c hr => h.kept fun p' d hc => hs.foreign p' c d hc (q ++ r) ?_) p
  rw [follow_append,hy]
  exact hr

/-- Under a key of the second side there is its value, unless both sides have mappings there. -/
theorem Overlays.entryAt_cases (h : s.Overlays es fs gs) (hy : entryAt fs k = some y) :
    (∃ x, entryAt es k = some x ∧ s.isMapping x = true ∧ s.isMapping y = true ∧
      entryAt gs k = some x) ∨
      entryAt gs k = some y := by
  have hvalue := h.values k
  rw [hy] at hvalue
  cases hx : entryAt es k with
  | none => exact .inr (by rw [hvalue,hx]; rfl)
  | some x =>
    rw [hx,overlay] at hvalue
    by_cases hxy : (s.isMapping x && s.isMapping y) = true
    · rw [if_pos hxy] at hvalue
      obtain ⟨hxm,hym⟩ : s.isMapping x = true ∧ s.isMapping y = true := by simpa using hxy
      exact .inl ⟨x,rfl,hxm,hym,hvalue⟩
    · rw [if_neg hxy] at hvalue
      exact .inr hvalue

/-- Where the second side has something, the first has it after the merge. -/
theorem Merged.covers_from (h : s.Merged a b t) (hs : s.Separate limit a b) (hc : s.Common a b q i j)
    (hy : s.follow (.ref j) p = some y) :
    ∃ x, t.follow (.ref i) p = some x ∧ if s.isMapping y then s.isMapping x = true else x = y := by
  induction p generalizing q i j with
  | nil =>
    cases hy
    exact ⟨.ref i,rfl,by rw [if_pos hc.isSecond,hc.isFirst]⟩
  | cons k p ih =>
    obtain ⟨_,fs,z,hj,hfs,hz,hzy⟩ := exists_of_follow_cons hy
    cases hj
    obtain ⟨es,hes⟩ := get?_of_isMapping hc.isFirst
    obtain ⟨gs,hgs,hover⟩ := h.merged hc hes hfs
    rw [follow_cons hgs]
    rcases hover.entryAt_cases hz with ⟨x,hx,hxm,hzm,hvalue⟩ | hvalue
    · obtain ⟨c,_,rfl,-⟩ := isMapping_iff.mp hxm
      obtain ⟨d,_,rfl,-⟩ := isMapping_iff.mp hzm
      rw [hvalue]
      have hnext : s.Common (.ref i) (.ref j) [k] c d :=
        (common_cons hes hfs hx hz).mpr ⟨rfl,rfl,hxm,hzm⟩
      exact ih (hc.append.mp hnext) hzy
    · have hzq : s.follow b (q ++ [k]) = some z := by
        rw [hc.follow_second,follow_cons hfs,hz]
        rfl
      rw [hvalue]
      refine ⟨y,(h.follow_second hs hzq p).trans hzy,?_⟩
      split
      · assumption
      · rfl

theorem Merged.covers (h : s.Merged a b t) (hs : s.Separate limit a b) : t.Covers a b := by
  obtain ⟨i,_,rfl,-⟩ := isMapping_iff.mp hs.first
  obtain ⟨j,_,rfl,-⟩ := isMapping_iff.mp hs.second
  intro p y hy
  rw [h.follow_second hs (q := []) rfl] at hy
  obtain ⟨x,hx,hxy⟩ := h.covers_from hs hs.common hy
  refine ⟨x,hx,?_⟩
  rw [(h.laid hs.keyed).isMapping,(h.laid hs.keyed).isMapping]
  exact hxy

/-- A common path leads to the same cell as before. -/
theorem Merged.follow_common (h : s.Merged a b t) (hc : s.Common a b q i j)
    (hp : s.Common (.ref i) (.ref j) p c d) : t.follow (.ref i) p = some (.ref c) := by
  induction p generalizing q i j with
  | nil => exact hp.first
  | cons k p ih =>
    obtain ⟨_,es,x,hi,hes,hx,hxc⟩ := exists_of_follow_cons hp.first
    cases hi
    obtain ⟨_,fs,y,hj,hfs,hy,hyd⟩ := exists_of_follow_cons hp.second
    cases hj
    have hxm := isMapping_of_follow hxc hp.isFirst
    have hym := isMapping_of_follow hyd hp.isSecond
    obtain ⟨gs,hgs,hover⟩ := h.merged hc hes hfs
    have hvalue : entryAt gs k = some x := by
      rw [hover.values,hx,hy,overlay,hxm,hym]
      rfl
    obtain ⟨c',_,rfl,-⟩ := isMapping_iff.mp hxm
    obtain ⟨d',_,rfl,-⟩ := isMapping_iff.mp hym
    rw [follow_cons hgs,hvalue]
    have hnext : s.Common (.ref i) (.ref j) [k] c' d' :=
      (common_cons hes hfs hx hy).mpr ⟨rfl,rfl,hxm,hym⟩
    exact ih (hc.append.mp hnext) ((common_cons hes hfs hx hy).mp hp)

/-- Where the second side has nothing, the first keeps what it has. -/
theorem Merged.follow_of_leaves (h : s.Merged a b t) (hs : s.Separate limit a b)
    (hx : s.follow a p = some x) (hp : s.Leaves b p) : t.follow a p = some x := by
  obtain ⟨i₀,_,rfl,-⟩ := isMapping_iff.mp hs.first
  obtain ⟨j₀,_,rfl,-⟩ := isMapping_iff.mp hs.second
  obtain ⟨q,k,r,y,rfl,hy,hym,hnone⟩ := hp
  obtain ⟨j,fs,rfl,hfs⟩ := isMapping_iff.mp hym
  rw [follow_append] at hx
  obtain ⟨z,hz,hzx⟩ := Option.bind_eq_some_iff.mp hx
  obtain ⟨i,es,z',rfl,hes,hz',hx'⟩ := exists_of_follow_cons hzx
  have hc : s.Common (.ref i₀) (.ref j₀) q i j := ⟨hz,hy,isMapping_of_get? hes,hym⟩
  have hmissing : entryAt fs k = none := by
    rw [hc.follow_second,follow_cons hfs] at hnone
    cases hfk : entryAt fs k with
    | none => rfl
    | some w =>
      rw [hfk] at hnone
      cases hnone
  obtain ⟨gs,hgs,hover⟩ := h.merged hc hes hfs
  have hvalue : entryAt gs k = some z' := (hover.entryAt_of_none hmissing).trans hz'
  have hkept : t.follow z' r = s.follow z' r := by
    refine follow_frame (fun p' c hp' => h.kept fun q' d hcommon => ?_) r
    have hreach : s.follow (.ref i₀) (q ++ k :: p') = some (.ref c) := by
      rw [hc.follow_first,follow_cons hes,hz']
      exact hp'
    have hpath := hs.unshared q' c d hcommon _ hreach
    have hsecond := (s.follow_congr (.ref j₀) hpath).trans hcommon.second
    rw [hc.follow_second,follow_cons hfs,hmissing] at hsecond
    cases hsecond
  rw [follow_append,h.follow_common hs.common hc,Option.bind_some,follow_cons hgs,hvalue]
  exact hkept.trans hx'

/-! ## Merging below a common path -/

theorem Separate.along (hs : s.Separate limit a b) (hc : s.Common a b q i j) :
    s.Separate limit (.ref i) (.ref j) := by
  refine ⟨hs.keyed,hc.isFirst,hc.isSecond,fun p c d hp r hr => ?_,fun p c d hp r => ?_,
    fun p d hp hd => ?_⟩
  · have hpath := hs.unshared (q ++ p) c d (hc.append.mp hp) (q ++ r) ((hc.follow_first r).trans hr)
    simpa using hpath
  · exact hc.follow_second r ▸ hs.foreign (q ++ p) c d (hc.append.mp hp) (q ++ r)
  · have hlength := hs.depth (q ++ p) d ((hc.follow_second p).trans hp) hd
    rw [List.length_append] at hlength
    omega

/-- Below a common path there is what merging there alone gives. -/
theorem Merged.along (h : s.Merged a b t) (hs : s.Separate limit a b) (hc : s.Common a b q i j)
    {u : Store} (hu : s.Merged (.ref i) (.ref j) u) (hp : s.Common (.ref i) (.ref j) p c d) :
    u.get? c = t.get? c := by
  obtain ⟨es,fs,hes,hfs⟩ := hp.entries
  obtain ⟨gs,hgs,hover⟩ := h.merged (hc.append.mp hp) hes hfs
  obtain ⟨gs',hgs',hover'⟩ := hu.merged hp hes hfs
  rw [hgs,hgs',hover'.unique hover (hs.keyed c es hes) (hs.keyed d fs hfs)]

theorem follow_cases (hes : s.get? i = some (.map es)) (hp : s.follow (.ref i) p = some (.ref j)) :
    p = [] ∧ j = i ∨ ∃ k q e, p = k :: q ∧ e ∈ es ∧ e.1.canonical = k.canonical ∧
    s.follow e.2 q = some (.ref j) := by
  cases p with
  | nil =>
    cases hp
    exact .inl ⟨rfl,rfl⟩
  | cons k q =>
    obtain ⟨_,_,x,hi,hes',hx,hxj⟩ := exists_of_follow_cons hp
    cases hi
    cases hes.symm.trans hes'
    obtain ⟨l,hmem,hl⟩ := exists_of_entryAt hx
    exact .inr ⟨k,q,(l, x),rfl,hmem,hl,hxj⟩

/-- A value that is no cell leads to no cell. -/
theorem follow_plain (hx : ∀ i, x ≠ .ref i) : s.follow x p ≠ some (.ref j) := by
  cases p with
  | nil => exact fun h => hx j (Option.some.inj h)
  | cons k q =>
    intro h
    obtain ⟨i,_,_,hi,-⟩ := exists_of_follow_cons h
    exact hx i hi

/-- However many levels may be merged, merging lays the second mapping over the first, path by path,
if it has no more of them. What is merged under a key of both is what merging the two mappings there
gives; merging once more changes nothing; a path of the second that leads to no mapping leads to the
same in the first, and a path of the first on which the second has nothing leads to what it did. -/
theorem merge_lays_over (limit : Nat) (h : s.Separate limit a b) :
    ∃ t, s.mergeUpTo limit a b = (.ok (), t) ∧ s.Merged a b t ∧
      (∀ q i j, s.Common a b q i j → ∃ u, s.mergeUpTo limit (.ref i) (.ref j) = (.ok (), u) ∧
        ∀ p c d, s.Common (.ref i) (.ref j) p c d → u.get? c = t.get? c) ∧
      t.mergeUpTo limit a b = (.ok (), t) ∧
      (∀ p y, s.follow b p = some y → s.isMapping y = false → t.follow a p = some y) ∧
      ∀ p x, s.follow a p = some x → s.Leaves b p → t.follow a p = some x := by
  obtain ⟨t,hrun,ht⟩ := mergeUpTo_overlaying limit s a b h
  have hlaid := ht.laid h.keyed
  have hsecond := ht.follow_second h (q := []) rfl
  refine ⟨t,hrun,ht,fun q i j hc => ?_,?_,fun p y hy hym => ?_,fun p x => ht.follow_of_leaves h⟩
  · obtain ⟨u,hu,hmerged⟩ := mergeUpTo_overlaying limit s _ _ (h.along hc)
    exact ⟨u,hu,fun p c d hp => ht.along h hc hmerged hp⟩
  · refine mergeUpTo_covered (hlaid.wellKeyed h.keyed) (ht.covers h)
      ((hlaid.isMapping b).trans h.second) ?_
    intro p j hp hj
    exact h.depth p j ((hsecond p).symm.trans hp) ((hlaid.isMapping _).symm.trans hj)
  · obtain ⟨x,hx,hxy⟩ := ht.covers h p y ((hsecond p).trans hy)
    rw [hlaid.isMapping,hym] at hxy
    rw [hx,show x = y by simpa using hxy]

/-- Two mappings that have a mapping under one key each, and a number under another. -/
def nested : Store where
  cells :=
    #[.map [(.text "x", .ref 1),(.text "n", .int 1)],.map [(.text "k", .int 1),(.text "l", .int 2)],
      .map [(.text "x", .ref 3),(.text "m", .int 3)],.map [(.text "k", .int 5)]]

theorem nested_wellKeyed : nested.WellKeyed := by
  intro i es hes
  have hcells : ∀ c ∈ nested.cells, ∀ es, c = .map es → Keyed es := by
    simp only [nested,List.mem_toArray,List.forall_mem_cons]
    refine ⟨?_,?_,?_,?_,List.forall_mem_nil _⟩ <;> rintro _ ⟨⟩ <;> exact ⟨by simp,by decide⟩
  exact hcells _ (Array.mem_of_getElem? hes) es rfl

/-- From a mapping that holds no mapping but one, which holds none, two cells can be reached. -/
theorem follow_flat_below (hes : s.get? i = some (.map es)) (hfs : s.get? c = some (.map fs))
    (hes' : ∀ e ∈ es, e = (k, .ref c) ∨ ∀ j, e.2 ≠ .ref j) (hfs' : ∀ e ∈ fs, ∀ j, e.2 ≠ .ref j)
    (hp : s.follow (.ref i) p = some (.ref j)) :
    p = [] ∧ j = i ∨ p.map Value.canonical = [k.canonical] ∧ j = c := by
  rcases follow_cases hes hp with h | ⟨l,q,e,rfl,he,hl,hq⟩
  · exact .inl h
  · rcases hes' e he with rfl | hplain
    · rcases follow_cases hfs hq with ⟨rfl,rfl⟩ | ⟨_,_,e',-,he',-,hq'⟩
      · exact .inr ⟨by simp [hl],rfl⟩
      · exact absurd hq' (follow_plain (hfs' e' he'))
    · exact absurd hq (follow_plain hplain)

theorem nested_first (hp : nested.follow (.ref 0) p = some (.ref j)) :
    p = [] ∧ j = 0 ∨ p.map Value.canonical = [.text "x"] ∧ j = 1 :=
  follow_flat_below (k := .text "x") (c := 1) rfl rfl (by simp) (by simp) hp

theorem nested_second (hp : nested.follow (.ref 2) p = some (.ref j)) :
    p = [] ∧ j = 2 ∨ p.map Value.canonical = [.text "x"] ∧ j = 3 :=
  follow_flat_below (k := .text "x") (c := 3) rfl rfl (by simp) (by simp) hp

theorem nested_separate : nested.Separate mergeLimit (.ref 0) (.ref 2) where
  keyed := nested_wellKeyed
  first := by decide
  second := by decide
  unshared p i j hc q hq := by
    rcases nested_first hc.first with ⟨rfl,rfl⟩ | ⟨hp,rfl⟩
    · rcases nested_first hq with ⟨rfl,-⟩ | ⟨-,h⟩
      · rfl
      · cases h
    · rcases nested_first hq with ⟨-,h⟩ | ⟨hq,-⟩
      · cases h
      · rw [hp,hq]
  foreign p i j hc q hq := by
    have hfirst := nested_first hc.first
    have hsecond := nested_second hq
    omega
  depth p j hp _ := by
    rcases nested_second hp with ⟨rfl,-⟩ | ⟨hp,-⟩
    · decide
    · have hlength := congrArg List.length hp
      rw [List.length_map,List.length_singleton] at hlength
      rw [hlength]
      decide

theorem nested_lays_over :
    ∃ t, nested.merge (.ref 0) (.ref 2) = (.ok (), t) ∧
      t.follow (.ref 0) [.text "x",.text "k"] = some (.int 5) ∧
      t.follow (.ref 0) [.text "x",.text "l"] = some (.int 2) ∧
      t.merge (.ref 0) (.ref 2) = (.ok (), t) := by
  obtain ⟨t,hrun,-,-,hagain,hsecond,hfirst⟩ := merge_lays_over mergeLimit nested_separate
  refine ⟨t,hrun,hsecond _ _ (by decide) (by decide),hfirst _ _ (by decide) ?_,hagain⟩
  exact ⟨[.text "x"],.text "l",[],.ref 3,rfl,by decide,by decide,by decide⟩

/-- The first mapping has one mapping under two keys, the second has a mapping under the first of
them. -/
def sharedBelow (n : Int) : Store where
  cells := #[.map [(.text "x", .ref 1),(.text "y", .ref 1)],.map [(.text "k", .int n)],
    .map [(.text "x", .ref 3)],.map [(.text "k", .int 2)]]

/-- Two mappings that hold themselves. -/
def selfHeld : Store where
  cells := #[.map [(.text "x", .ref 0)],.map [(.text "x", .ref 1)]]

theorem selfHeld_tooDeep (limit : Nat) :
    mergeUpTo limit selfHeld (.ref 0) (.ref 1) = (.error .tooDeep, selfHeld) := by
  induction limit with
  | zero => rfl
  | succ limit ih =>
    have hkey : mergeKey (mergeUpTo limit) selfHeld (.ref 0) (.ref 1) (.text "x") =
      mergeUpTo limit selfHeld (.ref 0) (.ref 1) := rfl
    have hkeys : mergeUpTo (limit + 1) selfHeld (.ref 0) (.ref 1) =
      mergeKeys (mergeUpTo limit) (.ref 0) (.ref 1) 1 selfHeld [.text "x"] := rfl
    rw [hkeys,mergeKeys,hkey,ih]

/-- A mapping that stands under two keys of the first is merged into under both, though the second
has nothing under the one; and mappings that hold themselves cannot be merged at all. -/
theorem merge_shared_or_cyclic :
    (∃ s t : Store, s.merge (.ref 0) (.ref 2) = (.ok (), t) ∧
      s.Leaves (.ref 2) [.text "y",.text "k"] ∧
      s.follow (.ref 0) [.text "y",.text "k"] = some (.int 1) ∧
      t.follow (.ref 0) [.text "y",.text "k"] = some (.int 2)) ∧
    ∃ s t : Store, s.isMapping (.ref 0) = true ∧ s.isMapping (.ref 1) = true ∧
      s.merge (.ref 0) (.ref 1) = (.error .tooDeep, t) := by
  constructor
  · refine ⟨sharedBelow 1,sharedBelow 2,rfl,?_,by decide,by decide⟩
    exact ⟨[],.text "y",[.text "k"],.ref 2,rfl,rfl,by decide,by decide⟩
  · exact ⟨selfHeld,selfHeld,by decide,by decide,selfHeld_tooDeep mergeLimit⟩

end Store

end InterfaceKit.Data
