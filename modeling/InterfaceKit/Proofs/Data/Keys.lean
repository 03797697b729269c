import InterfaceKit.Generator.Basic
import InterfaceKit.Proofs.Model.Table

/-!
# Keys and paths

The entries of a mapping that have a text as key form a table, which is what templates see. Setting
such a key sets the name in the table, and setting any other key leaves the table as it is.

A key that is no cell is compared by its canonical form alone, so what a mapping has under a key
does not depend on the store. A mapping has each of its keys once.

A path is a row of keys. It leads from a value through mappings to another value, if each mapping on
the way has the key that comes next. What a path leads to depends only on the cells that paths from
the same value lead to.
-/
namespace InterfaceKit.Data
open Model

/-! ## Texts as keys -/

variable {v : Value} {n : String}

theorem Value.canonical_eq_text : v.canonical = .text n ↔ v = .text n := by
  cases v with
  | float d => cases hd : d.integer? <;> simp [canonical,hd]
  | _ => simp [canonical]

theorem Value.sameScalar_text (v : Value) (n : String) :
    v.sameScalar (.text n) = decide (v = .text n) :=
  decide_eq_decide.mpr canonical_eq_text

theorem Value.text_sameScalar (n : String) (v : Value) :
    (text n).sameScalar v = decide (text n = v) := by
  simp only [sameScalar,eq_comm (b := v),← canonical_eq_text (v := v),
    eq_comm (a := canonical (text n))]
  rfl

theorem Value.text_or (v : Value) : (∃ n, v = .text n) ∨ ∀ n, v ≠ .text n := by
  cases v with
  | text n => exact .inl ⟨n,rfl⟩
  | _ => exact .inr nofun

@[simp] theorem textEntries_cons_text (n : String) (v : Value) (es : List (Value × Value)) :
    textEntries ((.text n, v) :: es) = (n, v) :: textEntries es := rfl

theorem textEntries_cons_of_ne {k : Value} (hk : ∀ n, k ≠ .text n) (v : Value)
    (es : List (Value × Value)) :
    textEntries ((k, v) :: es) = textEntries es := by
  cases k with
  | text n => exact absurd rfl (hk n)
  | _ => rfl

theorem mem_textEntries {es : List (Value × Value)} :
    (n, v) ∈ textEntries es ↔ (.text n, v) ∈ es := by
  induction es with
  | nil => exact ⟨nofun,nofun⟩
  | cons e es ih =>
    obtain ⟨k,u⟩ := e
    rcases k.text_or with ⟨m,rfl⟩ | hk
    · simp [ih]
    · simp [textEntries_cons_of_ne hk,ih,Ne.symm (hk n)]

namespace Store
variable (s : Store) {i j : Nat} {es : List (Value × Value)} {k x v : Value} {s' : Store}

/-- A value that is no cell is compared without a look at the store. -/
theorem same_of_ne_ref (hv : ∀ i, v ≠ .ref i) (fuel : Nat) (u : Value) :
    s.same fuel v u = v.sameScalar u := by
  cases fuel with
  | zero => rw [same]
  | succ fuel =>
    cases v with
    | ref i => exact absurd rfl (hv i)
    | _ => rw [same]; simp

theorem equal_text (v : Value) (n : String) : s.equal v (.text n) = decide (v = .text n) := by
  rw [← Value.sameScalar_text,equal]
  cases v with
  | ref i => rw [same]; simp
  | _ => exact s.same_of_ne_ref (by simp) _ _

theorem text_equal (n : String) (v : Value) : s.equal (.text n) v = decide (.text n = v) := by
  rw [← Value.text_sameScalar,equal]
  exact s.same_of_ne_ref (by simp) _ _

/-- What a mapping has under a text is what the name stands for in its table. -/
theorem findEntry_text (es : List (Value × Value)) (n : String) :
    s.findEntry es (.text n) = (textEntries es).get? n := by
  induction es with
  | nil => rfl
  | cons e es ih =>
    obtain ⟨k,v⟩ := e
    unfold findEntry at ih ⊢
    simp only [equal_text] at ih ⊢
    rcases k.text_or with ⟨m,rfl⟩ | hk
    · rw [textEntries_cons_text,Table.get?_cons,← ih]
      by_cases hm : n = m
      · simp [hm]
      · simp [hm,Ne.symm hm]
    · rw [textEntries_cons_of_ne hk,← ih]
      simp [hk n]

theorem textEntries_setEntry_text (es : List (Value × Value)) (n : String) (x : Value) :
    textEntries (s.setEntry es (.text n) x) = (textEntries es).set n x := by
  induction es with
  | nil => rfl
  | cons e es ih =>
    obtain ⟨k,v⟩ := e
    rw [setEntry,equal_text]
    rcases k.text_or with ⟨m,rfl⟩ | hk
    · by_cases hm : m = n
      · simp [hm,Table.set]
      · simp [hm,Table.set,ih]
    · simp [hk n,textEntries_cons_of_ne hk,ih]

theorem textEntries_setEntry_of_ne (hk : ∀ n, k ≠ .text n) (es : List (Value × Value)) (x : Value) :
    textEntries (s.setEntry es k x) = textEntries es := by
  induction es with
  | nil => exact textEntries_cons_of_ne hk x []
  | cons e es ih =>
    obtain ⟨k',v⟩ := e
    rw [setEntry]
    rcases k'.text_or with ⟨m,rfl⟩ | hother
    · have hne : s.equal (.text m) k = false := by simpa [text_equal] using Ne.symm (hk m)
      simp [hne,ih]
    · split
      · simp [textEntries_cons_of_ne hother]
      · simp [textEntries_cons_of_ne hother,ih]

theorem nodup_textEntries_setEntry (h : (textEntries es).names.Nodup) (k x : Value) :
    (textEntries (s.setEntry es k x)).names.Nodup := by
  rcases k.text_or with ⟨n,rfl⟩ | hk
  · rw [textEntries_setEntry_text]
    exact Table.nodup_names_set h n x
  · rw [textEntries_setEntry_of_ne s hk]
    exact h

/-! ## Changing a cell -/

variable {s} {c d : Cell}

theorem get?_put_self (h : s.get? i = some c) (d : Cell) : (s.put i d).get? i = some d := by
  have hlt : i < s.cells.size := (Array.getElem?_eq_some_iff.mp h).1
  simp [get?,put,hlt]

theorem get?_put_of_ne (h : i ≠ j) (d : Cell) : (s.put i d).get? j = s.get? j := by
  simp [get?,put,h]

theorem size_alloc (s : Store) (d : Cell) : (s.alloc d).2.cells.size = s.cells.size + 1 :=
  Array.size_push ..

theorem get?_alloc (h : s.get? i = some c) (d : Cell) : (s.alloc d).2.get? i = some c := by
  have hlt : i < s.cells.size := (Array.getElem?_eq_some_iff.mp h).1
  have hne : i ≠ s.cells.size := by omega
  rw [get?,alloc,Array.getElem?_push,if_neg hne]
  exact h

theorem get?_alloc_cases (h : (s.alloc d).2.get? i = some c) : c = d ∨ s.get? i = some c := by
  rw [get?,alloc,Array.getElem?_push] at h
  split at h
  · exact .inl (Option.some.inj h).symm
  · exact .inr h

theorem get?_put_cases (h : (s.put j d).get? i = some c) : c = d ∨ s.get? i = some c := by
  by_cases hij : j = i
  · subst hij
    have hlt : j < s.cells.size := by
      have hsize := (Array.getElem?_eq_some_iff.mp h).1
      simpa [put] using hsize
    have hold : s.get? j = some s.cells[j] := Array.getElem?_eq_getElem hlt
    rw [get?_put_self hold] at h
    exact .inl (Option.some.inj h).symm
  · rw [get?_put_of_ne hij] at h
    exact .inr h

theorem size_put (s : Store) (i : Nat) (d : Cell) : (s.put i d).cells.size = s.cells.size :=
  Array.size_setIfInBounds ..

theorem bindings_of_get? (h : s.get? i = some (.map es)) : s.bindings (.ref i) = textEntries es := by
  simp [bindings,mapping?,h]

/-- Setting an item changes one cell; a mapping stays a mapping. -/
theorem setItem_cases (h : s.setItem v k x = .ok s') : ∃ i, v = .ref i ∧
      ((∃ es, s.get? i = some (.map es) ∧ s' = s.put i (.map (s.setEntry es k x))) ∨
        ∃ xs ys, s.get? i = some (.list xs) ∧ s' = s.put i (.list ys)) := by
  unfold setItem at h
  split at h
  · rename_i i
    refine ⟨i,rfl,?_⟩
    split at h
    · rename_i xs hxs
      split at h
      · split at h
        · exact .inr ⟨xs,_,hxs,(Except.ok.inj h).symm⟩
        · cases h
      · cases h
    · rename_i es hes
      unfold requireHashable at h
      split at h
      · exact .inl ⟨es,hes,(Except.ok.inj h).symm⟩
      · cases h
    · cases h
  · cases h

theorem setItem_put (h : s.setItem (.ref i) k x = .ok s') : ∃ d, s' = s.put i d := by
  obtain ⟨j,hj,⟨es,_,hput⟩ | ⟨_,ys,_,hput⟩⟩ := setItem_cases h
  · cases hj
    exact ⟨_,hput⟩
  · cases hj
    exact ⟨_,hput⟩

theorem size_setItem (h : s.setItem v k x = .ok s') : s'.cells.size = s.cells.size := by
  obtain ⟨i,rfl,-⟩ := setItem_cases h
  obtain ⟨d,rfl⟩ := setItem_put h
  exact size_put _ _ _

/-- Whichever cell an item is set in, a mapping stays one that has each name once, and its names
stand for what they did, but for the one that is set. -/
theorem setItem_map (hes : s.get? i = some (.map es))
    (hnodup : (textEntries es).names.Nodup) (h : s.setItem (.ref j) k x = .ok s') :
    ∃ es', s'.get? i = some (.map es') ∧ (textEntries es').names.Nodup ∧
      ∀ n, (k = .text n → (textEntries es).get? n = some x) →
      (textEntries es').get? n = (textEntries es).get? n := by
  by_cases hij : j = i
  · obtain ⟨_,hj,⟨es',hes',rfl⟩ | ⟨_,_,hlist,_⟩⟩ := setItem_cases h
    · cases hj
      subst hij
      obtain rfl : es = es' := Cell.map.inj (Option.some.inj (hes.symm.trans hes'))
      refine ⟨_,get?_put_self hes _,nodup_textEntries_setEntry _ hnodup k x,fun n hn => ?_⟩
      rcases k.text_or with ⟨m,rfl⟩ | hk
      · rw [textEntries_setEntry_text]
        by_cases hnm : n = m
        · subst hnm
          rw [Table.set_eq_self (hn rfl)]
        · exact Table.get?_set_of_ne hnm _ _
      · rw [textEntries_setEntry_of_ne _ hk]
    · cases hj
      subst hij
      rw [hes] at hlist
      cases hlist
  · obtain ⟨d,rfl⟩ := setItem_put h
    exact ⟨es,(get?_put_of_ne hij d).trans hes,hnodup,fun _ _ => rfl⟩

end Store

/-! ## Keys -/

theorem Value.sameScalar_iff {a b : Value} : a.sameScalar b = true ↔ a.canonical = b.canonical := by
  simp [sameScalar]

def entryAt (es : List (Value × Value)) (k : Value) : Option Value :=
  (es.find? fun e => e.1.sameScalar k).map (·.2)

/-- Entries whose keys are no cells and differ from each other. -/
structure Keyed (es : List (Value × Value)) : Prop where
  plain : ∀ e ∈ es, ∀ i, e.1 ≠ .ref i
  distinct : es.Pairwise fun e f => e.1.canonical ≠ f.1.canonical

section
variable {es fs : List (Value × Value)} {e : Value × Value} {k l v : Value}

theorem entryAt_nil (k : Value) : entryAt [] k = none := rfl

theorem entryAt_cons (e : Value × Value) (es : List (Value × Value)) (k : Value) :
    entryAt (e :: es) k = if e.1.canonical = k.canonical then some e.2 else entryAt es k := by
  unfold entryAt
  rw [List.find?_cons]
  by_cases h : e.1.canonical = k.canonical
  · have hsame : e.1.sameScalar k = true := Value.sameScalar_iff.mpr h
    simp [h,hsame]
  · have hother : e.1.sameScalar k = false := by simpa [Value.sameScalar] using h
    simp [h,hother]

theorem entryAt_congr (es : List (Value × Value)) (h : k.canonical = l.canonical) :
    entryAt es k = entryAt es l := by
  unfold entryAt Value.sameScalar
  rw [h]

theorem entryAt_append (es fs : List (Value × Value)) (k : Value) :
    entryAt (es ++ fs) k = (entryAt es k).or (entryAt fs k) := by
  induction es with
  | nil => simp [entryAt_nil]
  | cons e es ih =>
    rw [List.cons_append,entryAt_cons,entryAt_cons]
    split
    · rfl
    · exact ih

theorem entryAt_eq_none : entryAt es k = none ↔ ∀ e ∈ es, e.1.canonical ≠ k.canonical := by
  simp [entryAt,Value.sameScalar]

theorem exists_of_entryAt (h : entryAt es k = some v) :
    ∃ l, (l, v) ∈ es ∧ l.canonical = k.canonical := by
  obtain ⟨e,he,rfl⟩ := Option.map_eq_some_iff.mp h
  exact ⟨e.1,List.mem_of_find?_eq_some he,Value.sameScalar_iff.mp (List.find?_some he :)⟩

namespace Keyed

theorem nil : Keyed [] := ⟨fun _ h => absurd h List.not_mem_nil,List.Pairwise.nil⟩

theorem tail (h : Keyed (e :: es)) : Keyed es :=
  ⟨fun f hf => h.plain f (List.mem_cons_of_mem e hf),(List.pairwise_cons.mp h.distinct).2⟩

theorem ne_of_mem_tail (h : Keyed (e :: es)) {f : Value × Value} (hf : f ∈ es) :
    e.1.canonical ≠ f.1.canonical :=
  (List.pairwise_cons.mp h.distinct).1 f hf

/-- Whether keys differ and are no cells can be told from the keys alone. -/
theorem of_keys (h : Keyed es) (hkeys : fs.map (·.1) = es.map (·.1)) : Keyed fs := by
  refine ⟨fun f hf => ?_,?_⟩
  · have hmem : f.1 ∈ es.map (·.1) := hkeys ▸ List.mem_map_of_mem hf
    obtain ⟨e,he,heq⟩ := List.mem_map.mp hmem
    exact heq ▸ h.plain e he
  · have hmap (gs : List (Value × Value)) :
      (gs.map (·.1)).Pairwise (fun a b => a.canonical ≠ b.canonical) ↔
        gs.Pairwise fun e f => e.1.canonical ≠ f.1.canonical := List.pairwise_map
    rw [← hmap,hkeys,hmap]
    exact h.distinct

theorem append (hes : Keyed es) (hfs : Keyed fs) (hnew : ∀ f ∈ fs, entryAt es f.1 = none) :
    Keyed (es ++ fs) := by
  refine ⟨fun e he => ?_,List.pairwise_append.mpr ⟨hes.distinct,hfs.distinct,fun e he f hf => ?_⟩⟩
  · rcases List.mem_append.mp he with he | he
    · exact hes.plain e he
    · exact hfs.plain e he
  · exact entryAt_eq_none.mp (hnew f hf) e he

theorem left (h : Keyed (es ++ fs)) : Keyed es :=
  ⟨fun e he => h.plain e (List.mem_append_left fs he),(List.pairwise_append.mp h.distinct).1⟩

theorem entryAt_left (h : Keyed (es ++ (k, v) :: fs)) : entryAt es k = none :=
  entryAt_eq_none.mpr fun e he =>
    (List.pairwise_append.mp h.distinct).2.2 e he (k, v) (List.mem_cons_self ..)

/-- A mapping has for each of its keys what stands beside it. -/
theorem entryAt_of_mem (h : Keyed es) (hmem : (k, v) ∈ es) : entryAt es k = some v := by
  induction es with
  | nil => cases hmem
  | cons e es ih =>
    rw [entryAt_cons]
    rcases List.mem_cons.mp hmem with rfl | hmem
    · exact if_pos rfl
    · rw [if_neg (h.ne_of_mem_tail hmem)]
      exact ih h.tail hmem

/-- Entries are told by their keys, in order, and by what they have under each key. -/
theorem ext (hes : Keyed es) (hfs : Keyed fs) (hkeys : es.map (·.1) = fs.map (·.1))
    (hvalues : ∀ k, entryAt es k = entryAt fs k) : es = fs := by
  induction es generalizing fs with
  | nil => exact (List.map_eq_nil_iff.mp hkeys.symm).symm
  | cons e es ih =>
    cases fs with
    | nil => cases hkeys
    | cons f fs =>
      obtain ⟨hkey,hrest⟩ : e.1 = f.1 ∧ es.map (·.1) = fs.map (·.1) := List.cons.inj hkeys
      have hvalue : e.2 = f.2 := by
        have h := hvalues e.1
        rw [entryAt_cons,entryAt_cons,if_pos rfl,if_pos (congrArg Value.canonical hkey.symm)] at h
        exact Option.some.inj h
      have hsame : ∀ k, entryAt es k = entryAt fs k := by
        intro k
        by_cases hk : e.1.canonical = k.canonical
        · have hnone : entryAt es k = none := entryAt_eq_none.mpr fun g hg =>
            hk ▸ (hes.ne_of_mem_tail hg).symm
          have hnone' : entryAt fs k = none :=
            entryAt_eq_none.mpr fun g hg =>
              hk ▸ congrArg Value.canonical hkey ▸ (hfs.ne_of_mem_tail hg).symm
          rw [hnone,hnone']
        · have h := hvalues k
          rwa [entryAt_cons,entryAt_cons,if_neg hk,if_neg (hkey ▸ hk)] at h
      rw [Prod.ext hkey hvalue,ih hes.tail hfs.tail hrest hsame]

end Keyed
end

namespace Store
variable (s : Store) {es : List (Value × Value)} {k v : Value}

theorem equal_of_ne_ref (hk : ∀ i, k ≠ .ref i) (l : Value) :
    s.equal k l = decide (k.canonical = l.canonical) :=
  s.same_of_ne_ref hk _ l

theorem findEntry_eq_entryAt (h : ∀ e ∈ es, ∀ i, e.1 ≠ .ref i) (k : Value) :
    s.findEntry es k = entryAt es k := by
  induction es with
  | nil => rfl
  | cons e es ih =>
    obtain ⟨he,hes⟩ := List.forall_mem_cons.mp h
    have hrest := ih hes
    unfold findEntry at hrest ⊢
    rw [List.find?_cons,s.equal_of_ne_ref he,entryAt_cons]
    by_cases hk : e.1.canonical = k.canonical
    · simp [hk]
    · simp [hk,hrest]

theorem setEntry_cons (he : ∀ i, e.1 ≠ .ref i) (es : List (Value × Value)) (k v : Value) :
    s.setEntry (e :: es) k v =
      if e.1.canonical = k.canonical then (e.1, v) :: es else e :: s.setEntry es k v := by
  rw [setEntry,s.equal_of_ne_ref he]
  simp

/-- Setting a key keeps the keys that are there in their order; one that is new comes last. -/
theorem map_fst_setEntry (h : Keyed es) (k v : Value) :
    (s.setEntry es k v).map (·.1) = es.map (·.1) ++ if (entryAt es k).isSome then [] else [k] := by
  induction es with
  | nil => rfl
  | cons e es ih =>
    rw [s.setEntry_cons (h.plain e (List.mem_cons_self ..)),entryAt_cons]
    by_cases hk : e.1.canonical = k.canonical
    · simp [hk]
    · simp [hk,ih h.tail]

theorem entryAt_setEntry (h : Keyed es) (k v l : Value) :
    entryAt (s.setEntry es k v) l = if k.canonical = l.canonical then some v else entryAt es l := by
  induction es with
  | nil => exact entryAt_cons (k, v) [] l
  | cons e es ih =>
    rw [s.setEntry_cons (h.plain e (List.mem_cons_self ..))]
    by_cases hk : e.1.canonical = k.canonical
    · simp only [hk,if_true,entryAt_cons]
      split <;> rfl
    · rw [if_neg hk,entryAt_cons,entryAt_cons,ih h.tail]
      by_cases hl : e.1.canonical = l.canonical
      · rw [if_pos hl,if_pos hl,if_neg fun hkl => hk (hl.trans hkl.symm)]
      · rw [if_neg hl,if_neg hl]

theorem setEntry_eq_self (h : Keyed es) (hv : entryAt es k = some v) : s.setEntry es k v = es := by
  induction es with
  | nil => cases hv
  | cons e es ih =>
    rw [entryAt_cons] at hv
    rw [s.setEntry_cons (h.plain e (List.mem_cons_self ..))]
    split
    · rename_i hk
      rw [if_pos hk] at hv
      rw [← Option.some.inj hv]
    · rename_i hk
      rw [if_neg hk] at hv
      rw [ih h.tail hv]

theorem keyed_setEntry (h : Keyed es) (hk : ∀ i, k ≠ .ref i) (v : Value) :
    Keyed (s.setEntry es k v) := by
  have hkeys := s.map_fst_setEntry h k v
  cases hes : entryAt es k with
  | some u =>
    rw [hes] at hkeys
    exact h.of_keys (by simpa using hkeys)
  | none =>
    rw [hes] at hkeys
    have hnew : Keyed (es ++ [(k, v)]) := by
      refine h.append ⟨?_,List.pairwise_singleton ..⟩ ?_
      · simpa using hk
      · simpa using hes
    exact hnew.of_keys (by simpa using hkeys)

/-! ## The operations at a key -/

theorem requireHashable_of_ne_ref (hk : ∀ i, k ≠ .ref i) : s.requireHashable k = .ok () := by
  cases k with
  | ref i => exact absurd rfl (hk i)
  | _ => rfl

variable {s} {i j : Nat}

theorem lookUp_eq (hes : s.get? i = some (.map es)) (hkeyed : Keyed es) (hk : ∀ c, k ≠ .ref c) :
    s.lookUp (.ref i) k = .ok ((entryAt es k).getD .null) := by
  simp only [lookUp,mapping?,hes,s.requireHashable_of_ne_ref hk,s.findEntry_eq_entryAt hkeyed.plain]
  rfl

theorem getItem_eq (hes : s.get? i = some (.map es)) (hkeyed : Keyed es) (hk : ∀ c, k ≠ .ref c)
    (hv : entryAt es k = some v) : s.getItem (.ref i) k = .ok v := by
  simp only [getItem,hes,s.requireHashable_of_ne_ref hk,s.findEntry_eq_entryAt hkeyed.plain,hv]
  rfl

theorem setItem_eq (hes : s.get? i = some (.map es)) (hk : ∀ c, k ≠ .ref c) (v : Value) :
    s.setItem (.ref i) k v = .ok (s.put i (.map (s.setEntry es k v))) := by
  simp only [setItem,hes,s.requireHashable_of_ne_ref hk]
  rfl

end Store

namespace Store
variable {s t : Store} {v x : Value} {i : Nat} {k : Value} {p q : List Value}
  {es : List (Value × Value)}

/-! ## Mappings of a store -/

/-- Every mapping of the store has each of its keys once, and no key is a cell. -/
def WellKeyed (s : Store) : Prop := ∀ i es, s.get? i = some (.map es) → Keyed es

theorem mapping?_eq_some : s.mapping? v = some (i, es) ↔ v = .ref i ∧ s.get? i = some (.map es) := by
  cases v with
  | ref j =>
    dsimp only [mapping?]
    split
    · rename_i fs hfs
      constructor
      · rintro ⟨⟩
        exact ⟨rfl,hfs⟩
      · rintro ⟨⟨⟩,hes⟩
        cases hfs.symm.trans hes
        rfl
    · rename_i hother
      exact ⟨nofun,fun h => absurd (Value.ref.inj h.1 ▸ h.2) (hother es)⟩
  | _ => simp [mapping?]

theorem mapping?_of_get? (h : s.get? i = some (.map es)) : s.mapping? (.ref i) = some (i, es) :=
  mapping?_eq_some.mpr ⟨rfl,h⟩

theorem mapping?_congr (h : t.get? i = s.get? i) : t.mapping? (.ref i) = s.mapping? (.ref i) := by
  dsimp only [mapping?]
  rw [h]

theorem isMapping_iff : s.isMapping v = true ↔ ∃ i es, v = .ref i ∧ s.get? i = some (.map es) := by
  unfold isMapping
  rw [Option.isSome_iff_exists]
  constructor
  · rintro ⟨⟨i,es⟩,h⟩
    exact ⟨i,es,mapping?_eq_some.mp h⟩
  · rintro ⟨i,es,h⟩
    exact ⟨(i, es),mapping?_eq_some.mpr h⟩

theorem isMapping_of_get? (h : s.get? i = some (.map es)) : s.isMapping (.ref i) = true :=
  isMapping_iff.mpr ⟨i,es,rfl,h⟩

theorem get?_of_isMapping (h : s.isMapping (.ref i) = true) : ∃ es, s.get? i = some (.map es) := by
  obtain ⟨j,es,hj,hes⟩ := isMapping_iff.mp h
  cases hj
  exact ⟨es,hes⟩

/-! ## Following a path -/

def follow (s : Store) : Value → List Value → Option Value
  | v, [] => some v
  | v, k :: p =>
    match s.mapping? v with
    | some (_, es) => (entryAt es k).bind fun x => s.follow x p
    | none => none

theorem follow_cons (h : s.get? i = some (.map es)) (k : Value) (p : List Value) :
    s.follow (.ref i) (k :: p) = (entryAt es k).bind fun x => s.follow x p := by
  rw [follow,mapping?_of_get? h]

theorem exists_of_follow_cons (h : s.follow v (k :: p) = some x) :
    ∃ i es y, v = .ref i ∧ s.get? i = some (.map es) ∧ entryAt es k = some y ∧
    s.follow y p = some x := by
  unfold follow at h
  split at h
  · rename_i i es hv
    obtain ⟨y,hy,hx⟩ := Option.bind_eq_some_iff.mp h
    obtain ⟨rfl,hes⟩ := mapping?_eq_some.mp hv
    exact ⟨i,es,y,rfl,hes,hy,hx⟩
  · cases h

theorem follow_append (s : Store) (v : Value) (p q : List Value) :
    s.follow v (p ++ q) = (s.follow v p).bind fun x => s.follow x q := by
  induction p generalizing v with
  | nil => rfl
  | cons k p ih =>
    rw [List.cons_append,follow,follow]
    split
    · rename_i es _
      cases entryAt es k with
      | none => rfl
      | some y => exact ih y
    · rfl

theorem isMapping_of_follow (hx : s.follow v p = some x) (hm : s.isMapping x = true) :
    s.isMapping v = true := by
  cases p with
  | nil =>
    cases hx
    exact hm
  | cons k p =>
    obtain ⟨i,es,_,rfl,hes,-⟩ := exists_of_follow_cons hx
    exact isMapping_of_get? hes

/-- Paths whose keys are compared as the same values lead to the same. -/
theorem follow_congr (s : Store) (v : Value) (h : p.map Value.canonical = q.map Value.canonical) :
    s.follow v p = s.follow v q := by
  induction p generalizing v q with
  | nil => rw [List.map_eq_nil_iff.mp h.symm]
  | cons k p ih =>
    obtain ⟨l,q',rfl⟩ : ∃ l q', q = l :: q' := by
      cases q with
      | nil => cases h
      | cons l q' => exact ⟨l,q',rfl⟩
    obtain ⟨hkey,hrest⟩ := List.cons.inj h
    rw [follow,follow]
    split
    · rename_i es _
      rw [entryAt_congr es hkey]
      cases entryAt es l with
      | none => rfl
      | some y => exact ih y hrest
    · rfl

/-- Paths lead to the same in two stores that agree on the cells to which paths lead. -/
theorem follow_frame (h : ∀ q i, s.follow v q = some (.ref i) → t.get? i = s.get? i)
    (p : List Value) :
    t.follow v p = s.follow v p := by
  induction p generalizing v with
  | nil => rfl
  | cons k p ih =>
    have hmapping : t.mapping? v = s.mapping? v := by
      cases v with
      | ref i => exact mapping?_congr (h [] i rfl)
      | _ => rfl
    rw [follow,follow,hmapping]
    split
    · rename_i i es hes
      cases hx : entryAt es k with
      | none => rfl
      | some x =>
        refine ih fun q j hq => h (k :: q) j ?_
        rw [follow,hes]
        exact Option.bind_eq_some_iff.mpr ⟨x,hx,hq⟩
    · rfl

end Store

end InterfaceKit.Data
