import InterfaceKit.Proofs.Yaml.Relocation

/-!
# Values in two stores

Where two stores have the same cells but for their places, the operations on values do the same in
both: they fail for the same reason, or give values that match and leave stores that still have the
same cells. No other cells are touched. This holds of merging too, with its bound on the depth,
because the bound does not depend on the store.
-/
namespace InterfaceKit.Data

/-- Stores that have the same cells, as far as these belong together. -/
structure Store.Mirror (R : Nat → Nat → Prop) (s s' : Store) : Prop where
  left : ∀ {i j j'}, R i j → R i j' → j = j'
  right : ∀ {i i' j}, R i j → R i' j → i = i'
  cells : ∀ {i j}, R i j → ∃ c c', s.get? i = some c ∧ s'.get? j = some c' ∧ c.Mirror R c'

/-- The same failure, or results that are related. -/
def Agrees {α β : Type} (A : α → β → Prop) : Except Failure α → Except Failure β → Prop
  | .ok a, .ok b => A a b
  | .error e, .error e' => e = e'
  | _, _ => False

section
variable {R : Nat → Nat → Prop} {v v' : Value}

theorem Value.Match.eq_of_ne_ref (h : v.Match R v') (hv : ∀ i, v ≠ .ref i) : v = v' := by
  cases h with
  | ref _ => exact absurd rfl (hv _)
  | plain _ => rfl

theorem Value.Match.integer? (h : v.Match R v') : v.integer? = v'.integer? := by
  cases h <;> rfl

theorem Value.canonical_eq_ref {i : Nat} : v.canonical = .ref i ↔ v = .ref i := by
  cases v with
  | float d => cases hd : d.integer? <;> simp [canonical,hd]
  | _ => simp [canonical]

variable {α β : Type} {A : α → β → Prop} {xs : List α} {ys : List β}

theorem Agrees.cases {r : Except Failure α} {r' : Except Failure β} (h : Agrees A r r') :
    (∃ e, r = .error e ∧ r' = .error e) ∨ ∃ a b, r = .ok a ∧ r' = .ok b ∧ A a b := by
  cases r <;> cases r'
  · exact .inl ⟨_,congrArg Except.error h,rfl⟩
  · exact h.elim
  · exact h.elim
  · exact .inr ⟨_,_,rfl,rfl,h⟩

theorem Agrees.map {α' β' : Type} {B : α' → β' → Prop} {r : Except Failure α}
    {r' : Except Failure β} {f : α → α'} {g : β → β'} (h : Agrees A r r')
    (hf : ∀ a b, A a b → B (f a) (g b)) :
    Agrees B (r.map f) (r'.map g) := by
  rcases h.cases with ⟨e,rfl,rfl⟩ | ⟨a,b,rfl,rfl,hab⟩
  · rfl
  · exact hf a b hab

theorem getElem?_forall₂ (h : List.Forall₂ A xs ys) (n : Nat) : Option.Rel A xs[n]? ys[n]? := by
  induction h generalizing n with
  | nil => exact .none
  | cons ha _ ih =>
    cases n with
    | zero => exact .some ha
    | succ n => exact ih n

theorem set_forall₂ (h : List.Forall₂ A xs ys) (n : Nat)
    {a : α} {b : β} (hab : A a b) : List.Forall₂ A (xs.set n a) (ys.set n b) := by
  induction h generalizing n with
  | nil => exact .nil
  | cons ha hrest ih =>
    cases n with
    | zero => exact .cons hab hrest
    | succ n => exact .cons ha (ih n)

end

namespace Store.Mirror
variable {R : Nat → Nat → Prop} {s s' : Store} {k k' v v' x x' : Value}
  {es es' : List (Value × Value)}

/-! ## Reading -/

theorem className (h : s.Mirror R s') (hv : v.Match R v') : s.className v = s'.className v' := by
  cases hv with
  | ref hij =>
    obtain ⟨c,c',hc,hc',hmirror⟩ := h.cells hij
    simp only [Store.className,hc,hc']
    cases hmirror <;> rfl
  | plain hplain =>
    cases v with
    | ref i => exact absurd rfl (hplain i)
    | _ => rfl

theorem requireHashable (h : s.Mirror R s') (hv : v.Match R v') :
    s.requireHashable v = s'.requireHashable v' := by
  have hhash : s.hashable v = s'.hashable v' := by
    cases hv with
    | ref hij =>
      obtain ⟨c,c',hc,hc',hmirror⟩ := h.cells hij
      simp only [Store.hashable,hc,hc']
      cases hmirror <;> rfl
    | plain hplain =>
      cases v with
      | ref i => exact absurd rfl (hplain i)
      | _ => rfl
  rw [Store.requireHashable,Store.requireHashable,hhash,h.className hv]

theorem mapping_cases (h : s.Mirror R s') (hv : v.Match R v') :
    s.mapping? v = none ∧ s'.mapping? v' = none ∨
      ∃ i j es es', v = .ref i ∧ v' = .ref j ∧ R i j ∧ s.get? i = some (.map es) ∧
        s'.get? j = some (.map es') ∧ SameKeys R es es' ∧ Keyed es := by
  cases hv with
  | @ref i j hij =>
    obtain ⟨c,c',hc,hc',hmirror⟩ := h.cells hij
    cases hmirror with
    | map hes hkeyed => exact .inr ⟨i,j,_,_,rfl,rfl,hij,hc,hc',hes,hkeyed⟩
    | _ => exact .inl ⟨by simp only [mapping?,hc],by simp only [mapping?,hc']⟩
  | plain hplain =>
    cases v with
    | ref i => exact absurd rfl (hplain i)
    | _ => exact .inl ⟨rfl,rfl⟩

theorem isMapping (h : s.Mirror R s') (hv : v.Match R v') : s.isMapping v = s'.isMapping v' := by
  rcases h.mapping_cases hv with ⟨hnone,hnone'⟩ | ⟨i,j,es,es',rfl,rfl,-,hes,hes',-⟩
  · rw [Store.isMapping,Store.isMapping,hnone,hnone']
  · rw [isMapping_of_get? hes,isMapping_of_get? hes']

theorem requireSize (h : s.Mirror R s') (hv : v.Match R v') (size : Nat) :
    s.requireSize v size = s'.requireSize v' size := by
  rcases h.mapping_cases hv with ⟨hnone,hnone'⟩ | ⟨i,j,es,es',rfl,rfl,-,hes,hes',hsame,-⟩
  · rw [Store.requireSize,Store.requireSize,hnone,hnone']
  · simp only [Store.requireSize,mapping?_of_get? hes,mapping?_of_get? hes',hsame.length_eq]

theorem findEntry (hes : SameKeys R es es') (hk : k.Match R k') :
    Option.Rel (Value.Match R) (s.findEntry es k) (s'.findEntry es' k') := by
  induction hes with
  | nil => exact .none
  | @cons e e' es es' he _ ih =>
    have hequal : s.equal e.1 k = s'.equal e'.1 k' := by
      rw [← he.1,s.equal_of_ne_ref he.2.1,s'.equal_of_ne_ref he.2.1]
      cases hk with
      | plain _ => rfl
      | @ref i j _ =>
        have hne : ∀ c, e.1.canonical ≠ Value.canonical (.ref c) := fun c hc =>
          he.2.1 c (Value.canonical_eq_ref.mp hc)
        simp [hne i,hne j]
    unfold Store.findEntry at ih ⊢
    rw [List.find?_cons,List.find?_cons,← hequal]
    split
    · exact .some he.2.2
    · exact ih

theorem element {α β : Type} {A : α → β → Prop} (h : s.Mirror R s') {xs : List α} {ys : List β}
    (hxs : List.Forall₂ A xs ys) (hk : k.Match R k') (row wrong : String) :
    Agrees A (Store.element row s xs k wrong) (Store.element row s' ys k' wrong) := by
  unfold Store.element
  rw [← hk.integer?,← h.className hk,← hxs.length_eq]
  split
  · split
    · rename_i n _
      have hn := getElem?_forall₂ hxs n
      revert hn
      cases xs[n]? <;> cases ys[n]? <;> intro hn <;> cases hn
      · rfl
      · assumption
    · rfl
  · rfl

theorem missing_eq (hk : k.Match R k') : missing k = missing k' := by
  cases hk <;> rfl

theorem getItem (h : s.Mirror R s') (hv : v.Match R v') (hk : k.Match R k') :
    Agrees (Value.Match R) (s.getItem v k) (s'.getItem v' k') := by
  cases hv with
  | @ref i j hij =>
    obtain ⟨c,c',hc,hc',hmirror⟩ := h.cells hij
    have hclass := h.className (.ref hij)
    simp only [Store.getItem,hc,hc']
    cases hmirror with
    | list hxs | tuple hxs => exact h.element hxs hk _ _
    | set _ =>
      exact congrArg (fun c => Failure.wrongType ("'" ++ c ++ "' object is not subscriptable"))
        hclass
    | map hes _ =>
      dsimp only
      rw [← h.requireHashable hk]
      cases s.requireHashable k with
      | error e => exact rfl
      | ok _ =>
        have hfound : Option.Rel (Value.Match R) (s.findEntry _ k) (s'.findEntry _ k') :=
          findEntry hes hk
        dsimp only [bind,Except.bind]
        revert hfound
        cases s.findEntry _ k <;> cases s'.findEntry _ k' <;> intro hfound <;> cases hfound
        · exact missing_eq hk
        · assumption
  | plain hplain =>
    cases v with
    | ref i => exact absurd rfl (hplain i)
    | text t =>
      simp only [Store.getItem]
      rw [← hk.integer?,← h.className hk]
      split
      · exact (h.element (List.forall₂_same.mpr fun _ _ => rfl) hk _ _).map fun a b hab =>
          hab ▸ .plain (by simp)
      · exact rfl
    | bytes bs =>
      simp only [Store.getItem]
      exact (h.element (List.forall₂_same.mpr fun _ _ => rfl) hk _ _).map fun a b hab =>
        hab ▸ .plain (by simp)
    | _ => exact rfl

theorem lookUp (h : s.Mirror R s') (hv : v.Match R v') (hk : k.Match R k') :
    Agrees (Value.Match R) (s.lookUp v k) (s'.lookUp v' k') := by
  unfold Store.lookUp
  rcases h.mapping_cases hv with ⟨hnone,hnone'⟩ | ⟨i,j,es,es',rfl,rfl,-,hes,hes',hsame,-⟩
  · rw [hnone,hnone']
    exact congrArg (Failure.missingAttribute · "get") (h.className hv)
  · rw [mapping?_of_get? hes,mapping?_of_get? hes']
    dsimp only
    rw [← h.requireHashable hk]
    cases s.requireHashable k with
    | error e => exact rfl
    | ok _ =>
      have hfound : Option.Rel (Value.Match R) (s.findEntry es k) (s'.findEntry es' k') :=
        findEntry hsame hk
      change Value.Match R ((s.findEntry es k).getD .null) ((s'.findEntry es' k').getD .null)
      revert hfound
      cases s.findEntry es k <;> cases s'.findEntry es' k' <;> intro hfound <;> cases hfound
      · exact .plain nofun
      · assumption

theorem elements (h : s.Mirror R s') (hv : v.Match R v') :
    Agrees (List.Forall₂ (Value.Match R)) (s.elements v) (s'.elements v') := by
  cases hv with
  | @ref i j hij =>
    obtain ⟨c,c',hc,hc',hmirror⟩ := h.cells hij
    simp only [Store.elements,hc,hc']
    cases hmirror with
    | list hxs | tuple hxs | set hxs => exact hxs
    | map hes _ => exact hes.keys
  | plain hplain =>
    cases v with
    | ref i => exact absurd rfl (hplain i)
    | text _ | bytes _ =>
      refine List.forall₂_same.mpr fun x hx => ?_
      obtain ⟨c,-,rfl⟩ := List.mem_map.mp hx
      exact .plain nofun
    | _ => exact rfl

theorem findEntry_ref (hkeyed : Keyed es) (i : Nat) : s.findEntry es (.ref i) = none := by
  rw [s.findEntry_eq_entryAt hkeyed.plain,entryAt_eq_none]
  exact fun e he hcanonical => hkeyed.plain e he i (Value.canonical_eq_ref.mp hcanonical)

theorem getItem_ref (h : s.Mirror R s') (hv : v.Match R v') (i : Nat) :
    ∃ e, s.getItem v (.ref i) = .error e := by
  cases hv with
  | @ref a b hab =>
    obtain ⟨c,c',hc,-,hmirror⟩ := h.cells hab
    simp only [Store.getItem,hc]
    cases hmirror with
    | list _ | tuple _ | set _ => exact ⟨_,rfl⟩
    | map _ hkeyed =>
      dsimp only
      rw [findEntry_ref hkeyed]
      cases s.requireHashable (.ref i) <;> exact ⟨_,rfl⟩
  | plain hplain =>
    cases v with
    | ref j => exact absurd rfl (hplain j)
    | _ => exact ⟨_,rfl⟩

/-! ## Changing -/

theorem grow {t t' : Store} (h : s.Mirror R s') (hold : ∀ i c, s.get? i = some c → t.get? i = some c)
    (hold' : ∀ i c, s'.get? i = some c → t'.get? i = some c) : t.Mirror R t' where
  left := h.left
  right := h.right
  cells hij := by
    obtain ⟨c,c',hc,hc',hmirror⟩ := h.cells hij
    exact ⟨c,c',hold _ c hc,hold' _ c' hc',hmirror⟩

theorem put (h : s.Mirror R s') {i j : Nat} (hij : R i j) {c c' : Cell} (hc : c.Mirror R c') :
    (s.put i c).Mirror R (s'.put j c') where
  left := h.left
  right := h.right
  cells {a b} hab := by
    obtain ⟨d,d',hd,hd',hmirror⟩ := h.cells hab
    by_cases ha : i = a
    · subst ha
      cases h.left hij hab
      exact ⟨c,c',get?_put_self hd c,get?_put_self hd' c',hc⟩
    · have hb : j ≠ b := by
        rintro rfl
        exact ha (h.right hij hab)
      exact ⟨d,d',(get?_put_of_ne ha c).trans hd,(get?_put_of_ne hb c').trans hd',hmirror⟩

end Store.Mirror

/-- From `s` and `s'` the stores have come to `t` and `t'`, which still have the same cells; the
cells that belong to no other are as they were. -/
structure Store.Together (R : Nat → Nat → Prop) (s s' t t' : Store) : Prop where
  mirror : t.Mirror R t'
  first : ∀ i, (∀ j, ¬ R i j) → t.get? i = s.get? i
  second : ∀ j, (∀ i, ¬ R i j) → t'.get? j = s'.get? j
  size : t.cells.size = s.cells.size
  size' : t'.cells.size = s'.cells.size

namespace Store.Together
variable {R : Nat → Nat → Prop} {s s' t t' u u' : Store}

theorem refl (h : s.Mirror R s') : Together R s s' s s' := ⟨h,fun _ _ => rfl,fun _ _ => rfl,rfl,rfl⟩

theorem trans (h : Together R s s' t t') (h' : Together R t t' u u') : Together R s s' u u' where
  mirror := h'.mirror
  first i hi := (h'.first i hi).trans (h.first i hi)
  second j hj := (h'.second j hj).trans (h.second j hj)
  size := h'.size.trans h.size
  size' := h'.size'.trans h.size'

theorem put (h : s.Mirror R s') {i j : Nat} (hij : R i j) {c c' : Cell} (hc : c.Mirror R c') :
    Together R s s' (s.put i c) (s'.put j c') where
  mirror := h.put hij hc
  first a ha := by
    refine get?_put_of_ne ?_ c
    rintro rfl
    exact ha j hij
  second b hb := by
    refine get?_put_of_ne ?_ c'
    rintro rfl
    exact hb i hij
  size := size_put ..
  size' := size_put ..

end Store.Together

namespace Store.Mirror
variable {R : Nat → Nat → Prop} {s s' : Store} {a a' b b' k k' x x' : Value}

theorem setItem (h : s.Mirror R s') (ha : a.Match R a') (hk : ∀ i, k ≠ .ref i) (hx : x.Match R x') :
    Agrees (Together R s s') (s.setItem a k x) (s'.setItem a' k x') := by
  have hkk : k.Match R k := .plain hk
  cases ha with
  | @ref i j hij =>
    obtain ⟨c,c',hc,hc',hmirror⟩ := h.cells hij
    have hclass := h.className (.ref hij)
    have hclassKey := h.className hkk
    simp only [Store.setItem,hc,hc']
    cases hmirror with
    | @list xs ys hxs =>
      dsimp only
      rw [← hxs.length_eq,← hclassKey]
      split
      · split
        · exact .put h hij (.list (set_forall₂ hxs _ hx))
        · exact rfl
      · exact rfl
    | tuple _ | set _ =>
      exact congrArg (fun c => Failure.wrongType
        ("'" ++ c ++ "' object does not support item assignment")) hclass
    | map hes hkeyed =>
      dsimp only
      rw [s.requireHashable_of_ne_ref hk,s'.requireHashable_of_ne_ref hk]
      exact .put h hij (.map (hes.setEntry s s' hk hx) (s.keyed_setEntry hkeyed hk x))
  | plain hplain =>
    cases a with
    | ref i => exact absurd rfl (hplain i)
    | _ => exact rfl

end Store.Mirror

namespace Store

/-- Two changes that end in the same way. -/
def Twins (R : Nat → Nat → Prop) (s s' : Store) (r r' : Changed Unit) : Prop :=
  r.1 = r'.1 ∧ Together R s s' r.2 r'.2

section
variable {R : Nat → Nat → Prop} {s s' : Store} {a a' b b' k k' : Value}

theorem copyItem_twins (h : s.Mirror R s') (ha : a.Match R a') (hb : b.Match R b')
    (hk : k.Match R k') :
    Twins R s s' (s.copyItem a b k) (s'.copyItem a' b' k') := by
  unfold copyItem
  rcases (h.getItem hb hk).cases with ⟨e,hx,hx'⟩ | ⟨x,x',hx,hx',hitem⟩
  · rw [hx,hx']
    exact ⟨rfl,.refl h⟩
  · have hplain : ∀ i, k ≠ .ref i := by
      rintro i rfl
      obtain ⟨e,he⟩ := h.getItem_ref hb i
      cases hx.symm.trans he
    obtain rfl := hk.eq_of_ne_ref hplain
    rw [hx,hx']
    dsimp only
    rcases (h.setItem ha hplain hitem).cases with ⟨e,hset,hset'⟩ | ⟨t,t',hset,hset',ht⟩
    · rw [hset,hset']
      exact ⟨rfl,.refl h⟩
    · rw [hset,hset']
      exact ⟨rfl,ht⟩

/-- A way to merge that does the same in two stores. -/
def Mirroring (R : Nat → Nat → Prop) (f : Store → Value → Value → Changed Unit) : Prop :=
  ∀ s s' a a' b b', s.Mirror R s' → a.Match R a' → b.Match R b' → Twins R s s' (f s a b) (f s' a' b')

variable {f : Store → Value → Value → Changed Unit}

theorem mergeKey_twins (hf : Mirroring R f) (h : s.Mirror R s')
    (ha : a.Match R a') (hb : b.Match R b') (hk : k.Match R k') :
    Twins R s s' (mergeKey f s a b k) (mergeKey f s' a' b' k') := by
  have hcopy := copyItem_twins h ha hb hk
  unfold mergeKey
  rcases (h.lookUp ha hk).cases with ⟨e,hx,hx'⟩ | ⟨x,x',hx,hx',hmine⟩
  · rw [hx,hx']
    exact ⟨rfl,.refl h⟩
  · rw [hx,hx']
    dsimp only
    rw [← h.isMapping hmine]
    split
    · rcases (h.lookUp hb hk).cases with ⟨e,hy,hy'⟩ | ⟨y,y',hy,hy',htheirs⟩
      · rw [hy,hy']
        exact ⟨rfl,.refl h⟩
      · rw [hy,hy']
        dsimp only
        rw [← h.isMapping htheirs]
        split
        · exact hf _ _ _ _ _ _ h hmine htheirs
        · exact hcopy
    · exact hcopy

theorem mergeKeys_twins (hf : Mirroring R f) (h : s.Mirror R s')
    (ha : a.Match R a') (hb : b.Match R b') {keys keys' : List Value}
    (hkeys : List.Forall₂ (Value.Match R) keys keys') (size : Nat) :
    Twins R s s' (mergeKeys f a b size s keys) (mergeKeys f a' b' size s' keys') := by
  induction hkeys generalizing s s' with
  | nil => exact ⟨rfl,.refl h⟩
  | @cons k k' keys keys' hk _ ih =>
    have hstep := mergeKey_twins hf h ha hb hk
    rw [mergeKeys,mergeKeys]
    revert hstep
    rcases mergeKey f s a b k with ⟨r,t⟩
    rcases mergeKey f s' a' b' k' with ⟨r',t'⟩
    rintro ⟨hr,hstep⟩
    dsimp only at hr hstep
    subst hr
    cases r with
    | error e => exact ⟨rfl,hstep⟩
    | ok _ =>
      dsimp only
      rw [← hstep.mirror.requireSize hb]
      split
      · exact ⟨rfl,hstep⟩
      · have hrest := ih hstep.mirror
        exact ⟨hrest.1,hstep.trans hrest.2⟩

theorem mergeUpTo_mirroring (R : Nat → Nat → Prop) (limit : Nat) :
    Mirroring R (mergeUpTo limit) := by
  induction limit with
  | zero => exact fun s s' a a' b b' h _ _ => ⟨rfl,.refl h⟩
  | succ limit ih =>
    intro s s' a a' b b' h ha hb
    rw [mergeUpTo,mergeUpTo]
    rcases (h.elements hb).cases with ⟨e,hx,hx'⟩ | ⟨keys,keys',hx,hx',hkeys⟩
    · rw [hx,hx']
      exact ⟨rfl,.refl h⟩
    · rw [hx,hx']
      dsimp only
      rw [← hkeys.length_eq]
      exact mergeKeys_twins ih h ha hb hkeys _

end

end Store

/-! ## Copies -/

/-- The copies of the cells that belong together, where all cells have moved on by `n`. -/
def Copied (n : Nat) (R : Nat → Nat → Prop) (i j : Nat) : Prop := ∃ k, i = k + n ∧ R k j

section
variable {R : Nat → Nat → Prop} {s s' : Store}

theorem Store.moved_of_ne_ref (n : Nat) {v : Value} (hv : ∀ i, v ≠ .ref i) : moved n v = v := by
  cases v with
  | ref i => exact absurd rfl (hv i)
  | _ => rfl

theorem Value.Match.copy {v v' : Value} (h : v.Match R v') (n : Nat) :
    (Store.moved n v).Match (Copied n R) v' := by
  cases h with
  | ref hij => exact .ref ⟨_,rfl,hij⟩
  | plain hplain =>
    rw [Store.moved_of_ne_ref n hplain]
    exact .plain hplain

theorem Cell.Mirror.copy {c c' : Cell} (h : c.Mirror R c') (n : Nat) :
    (Store.movedCell n c).Mirror (Copied n R) c' := by
  have hvalues : ∀ {xs ys : List Value}, List.Forall₂ (Value.Match R) xs ys →
      List.Forall₂ (Value.Match (Copied n R)) (xs.map (Store.moved n)) ys :=
    fun hxs => List.forall₂_map_left_iff.mpr (hxs.imp fun _ _ hv => hv.copy n)
  cases h with
  | list h | tuple h | set h =>
    constructor
    exact hvalues h
  | @map es fs h hkeyed =>
    have hkeys : (es.map fun e => (Store.moved n e.1, Store.moved n e.2)).map (·.1) =
        es.map (·.1) := by
      rw [List.map_map]
      exact List.map_congr_left fun e he => Store.moved_of_ne_ref n (hkeyed.plain e he)
    refine .map (List.forall₂_map_left_iff.mpr (h.imp fun e e' he => ?_)) (hkeyed.of_keys hkeys)
    rw [Store.moved_of_ne_ref n he.2.1]
    exact ⟨he.1,he.2.1,he.2.2.copy n⟩

theorem Store.get?_double {i : Nat} {c : Cell} (h : s.get? i = some c) :
    s.double.1.get? i = some c := by
  have hlt : i < s.cells.size := (Array.getElem?_eq_some_iff.mp h).1
  exact (Array.getElem?_append_left hlt).trans h

theorem Store.size_double (s : Store) : s.cells.size ≤ s.double.1.cells.size := by
  have hsize : (s.cells ++ s.cells.map (movedCell s.cells.size)).size =
    s.cells.size + s.cells.size := by simp
  exact Nat.le_trans (Nat.le_add_left ..) (Nat.le_of_eq hsize.symm)

theorem Store.Mirror.copy (h : s.Mirror R s') : s.double.1.Mirror (Copied s.cells.size R) s' where
  left := by
    rintro _ j j' ⟨k,rfl,hij⟩ ⟨k',hk,hij'⟩
    obtain rfl : k = k' := by omega
    exact h.left hij hij'
  right := by
    rintro _ _ j ⟨k,rfl,hij⟩ ⟨k',rfl,hij'⟩
    rw [h.right hij hij']
  cells := by
    rintro _ j ⟨k,rfl,hij⟩
    obtain ⟨c,c',hc,hc',hmirror⟩ := h.cells hij
    have hcopy : s.double.1.get? (k + s.cells.size) = some (movedCell s.cells.size c) := by
      have hget : (s.cells ++ s.cells.map (movedCell s.cells.size))[k + s.cells.size]? =
          (s.cells.map (movedCell s.cells.size))[k]? := by
        rw [Array.getElem?_append_right (Nat.le_add_left ..),Nat.add_sub_cancel]
      refine hget.trans ?_
      rw [Array.getElem?_map,show s.cells[k]? = some c from hc]
      rfl
    exact ⟨_,c',hcopy,hc',hmirror.copy _⟩

end

end InterfaceKit.Data
