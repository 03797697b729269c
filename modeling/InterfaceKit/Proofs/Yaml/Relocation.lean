import InterfaceKit.Proofs.Yaml.Closed
import Mathlib.Data.List.Forall2

/-!
# Documents in different stores

What a text means does not depend on the store to which it is loaded. In two stores the same
document is made, and the two values are the same but for the places of their cells: the cell `i` of
the one stands at the same distance from where the document begins as the cell of the other. The
cells that were there are left alone, and no new cell leads to one of them.
-/
namespace InterfaceKit

namespace Data

/-- Values that are the same but for the places of cells. -/
inductive Value.Match (R : Nat → Nat → Prop) : Value → Value → Prop
  | ref {i j : Nat} : R i j → Match R (.ref i) (.ref j)
  | plain {v : Value} : (∀ i, v ≠ .ref i) → Match R v v

/-- Cells of one kind that hold values that match. -/
inductive Cell.Match (R : Nat → Nat → Prop) : Cell → Cell → Prop
  | list {xs ys : List Value} : List.Forall₂ (Value.Match R) xs ys → Match R (.list xs) (.list ys)
  | tuple {xs ys : List Value} : List.Forall₂ (Value.Match R) xs ys → Match R (.tuple xs) (.tuple ys)
  | set {xs ys : List Value} : List.Forall₂ (Value.Match R) xs ys → Match R (.set xs) (.set ys)
  | map {es fs : List (Value × Value)} :
      List.Forall₂ (fun e f => e.1.Match R f.1 ∧ e.2.Match R f.2) es fs → Match R (.map es) (.map fs)

/-- Cells that belong together, one to one, match. -/
structure Store.Matching (R : Nat → Nat → Prop) (s s' : Store) : Prop where
  left : ∀ {i j j'}, R i j → R i j' → j = j'
  right : ∀ {i i' j}, R i j → R i' j → i = i'
  cells : ∀ {i j}, R i j → ∃ c c', s.get? i = some c ∧ s'.get? j = some c' ∧ c.Match R c'

theorem Value.Match.mono {R R' : Nat → Nat → Prop} (hR : ∀ i j, R i j → R' i j) {v v' : Value}
    (h : v.Match R v') :
    v.Match R' v' := by
  cases h with
  | ref h => exact .ref (hR _ _ h)
  | plain h => exact .plain h

/-- Entries with the same keys, none of them a cell, and values that match. -/
def SameKeys (R : Nat → Nat → Prop) (es es' : List (Value × Value)) : Prop :=
  List.Forall₂ (fun e e' => e.1 = e'.1 ∧ (∀ i, e.1 ≠ .ref i) ∧ e.2.Match R e'.2) es es'

namespace SameKeys
variable {R : Nat → Nat → Prop} {es es' : List (Value × Value)}

theorem mono {R' : Nat → Nat → Prop} (hR : ∀ i j, R i j → R' i j) (h : SameKeys R es es') :
    SameKeys R' es es' :=
  h.imp fun _ _ he => ⟨he.1,he.2.1,he.2.2.mono hR⟩

theorem entries (h : SameKeys R es es') :
    List.Forall₂ (fun e f => e.1.Match R f.1 ∧ e.2.Match R f.2) es es' :=
  h.imp fun _ _ he => ⟨he.1 ▸ .plain he.2.1,he.2.2⟩

theorem keys (h : SameKeys R es es') :
    List.Forall₂ (Value.Match R) (es.map (·.1)) (es'.map (·.1)) := by
  rw [List.forall₂_map_left_iff,List.forall₂_map_right_iff]
  exact h.imp fun _ _ he => he.1 ▸ .plain he.2.1

theorem setEntry (h : SameKeys R es es') (s s' : Store) {key x x' : Value} (hkey : ∀ i, key ≠ .ref i)
    (hx : x.Match R x') : SameKeys R (s.setEntry es key x) (s'.setEntry es' key x') := by
  induction h with
  | nil => exact .cons ⟨rfl,hkey,hx⟩ .nil
  | @cons e e' es es' he hes ih =>
    have hequal : s.equal e.1 key = s'.equal e'.1 key := by
      rw [← he.1,Store.equal,Store.equal,s.same_of_ne_ref he.2.1,s'.same_of_ne_ref he.2.1]
    rw [Store.setEntry,Store.setEntry,← hequal]
    split
    · exact .cons ⟨he.1,he.2.1,hx⟩ hes
    · exact .cons he ih

end SameKeys

/-- Cells of one kind that hold values that match; mappings have the same keys, each once. -/
inductive Cell.Mirror (R : Nat → Nat → Prop) : Cell → Cell → Prop
  | list {xs ys : List Value} : List.Forall₂ (Value.Match R) xs ys → Mirror R (.list xs) (.list ys)
  | tuple {xs ys : List Value} : List.Forall₂ (Value.Match R) xs ys →
      Mirror R (.tuple xs) (.tuple ys)
  | set {xs ys : List Value} : List.Forall₂ (Value.Match R) xs ys → Mirror R (.set xs) (.set ys)
  | map {es fs : List (Value × Value)} : SameKeys R es fs → Keyed es → Mirror R (.map es) (.map fs)

section
variable {R : Nat → Nat → Prop} {c c' : Cell}

theorem Cell.Mirror.mono {R' : Nat → Nat → Prop} (hR : ∀ i j, R i j → R' i j) (h : c.Mirror R c') :
    c.Mirror R' c' := by
  cases h with
  | list h | tuple h | set h =>
    constructor
    exact h.imp fun _ _ => Value.Match.mono hR
  | map h hkeyed => exact .map (h.mono hR) hkeyed

theorem Cell.Mirror.matches (h : c.Mirror R c') : c.Match R c' := by
  cases h with
  | list h | tuple h | set h =>
    constructor
    exact h
  | map h _ => exact .map h.entries

end

/-- The cells `i` and `j` lie at the same distance from `k` and `k'`, before the `n`-th cell. -/
def Offset (k k' n i j : Nat) : Prop := k ≤ i ∧ i < n ∧ i + k' = j + k

theorem Offset.mono {k k' n n' i j : Nat} (hn : n ≤ n') (h : Offset k k' n i j) :
    Offset k k' n' i j :=
  ⟨h.1,Nat.lt_of_lt_of_le h.2.1 hn,h.2.2⟩

/-- From `k` and `k'` on the two stores have the same cells. -/
structure Store.Aligned (k k' : Nat) (s s' : Store) : Prop where
  base : k ≤ s.cells.size
  size : s.cells.size + k' = s'.cells.size + k
  cells : ∀ i j, Offset k k' s.cells.size i j →
    ∃ c c', s.get? i = some c ∧ s'.get? j = some c' ∧ c.Mirror (Offset k k' s.cells.size) c'

namespace Store.Aligned
variable {k k' : Nat} {s s' : Store} {c c' : Cell}

theorem start (s s' : Store) : Aligned s.cells.size s'.cells.size s s' where
  base := Nat.le_refl _
  size := Nat.add_comm ..
  cells i j h := by
    have := h.1
    have := h.2.1
    omega

theorem matching (h : Aligned k k' s s') : Matching (Offset k k' s.cells.size) s s' where
  left h h' := by
    have := h.2.2
    have := h'.2.2
    omega
  right h h' := by
    have := h.2.2
    have := h'.2.2
    omega
  cells hij := by
    obtain ⟨c,c',hc,hc',hmirror⟩ := h.cells _ _ hij
    exact ⟨c,c',hc,hc',hmirror.matches⟩

theorem alloc (h : Aligned k k' s s') (hc : c.Mirror (Offset k k' s.cells.size) c') :
    Aligned k k' (s.alloc c).2 (s'.alloc c').2 := by
  have hbase := h.base
  have hsize := h.size
  have hn := size_alloc s c
  have hn' := size_alloc s' c'
  refine ⟨by omega,by omega,fun i j hij => ?_⟩
  have hmono : ∀ i j, Offset k k' s.cells.size i j → Offset k k' (s.alloc c).2.cells.size i j :=
    fun i j => Offset.mono (by omega)
  by_cases hi : i = s.cells.size
  · have hj : j = s'.cells.size := by
      have := hij.2.2
      omega
    refine ⟨c,c',?_,?_,hc.mono hmono⟩ <;> simp [get?,Store.alloc,hi,hj]
  · have hlt : i < s.cells.size := by
      have := hij.2.1
      omega
    obtain ⟨d,d',hd,hd',hm⟩ := h.cells i j ⟨hij.1,hlt,hij.2.2⟩
    exact ⟨d,d',get?_alloc hd c,get?_alloc hd' c',hm.mono hmono⟩

end Store.Aligned

/-! ## Cells behind others -/

section
variable {s s' t : Store} {v : Value} {c : Cell} {k k' m n n' : Nat}

theorem Value.shift_of_ne_ref (h : ∀ i, v ≠ .ref i) (n : Nat) : v.shift n = v := by
  cases v with
  | ref i => exact absurd rfl (h i)
  | _ => rfl

theorem Value.Between.shift (h : v.Between 0 m) (n : Nat) : (v.shift n).Between n (n + m) := by
  intro i hi
  cases v with
  | ref j =>
    cases hi
    have := h j rfl
    omega
  | _ => cases hi

theorem Cell.values_shift (c : Cell) (n : Nat) : (c.shift n).values = c.values.map (·.shift n) := by
  cases c with
  | map es => simp [shift,values,List.flatMap_map,List.map_flatMap]
  | _ => rfl

/-- A value that was moved to two places stands at the same distance from both. -/
theorem Value.Between.match_shift (h : v.Between 0 m) (hk : k ≤ n) (hn : n + k' = n' + k) :
    (v.shift n).Match (Offset k k' (n + m)) (v.shift n') := by
  cases v with
  | ref i =>
    have := h i rfl
    exact .ref ⟨by omega,by omega,by omega⟩
  | _ => exact .plain nofun

theorem Cell.mirror_shift (hc : ∀ v ∈ c.values, v.Between 0 m)
    (hkeyed : ∀ es, c = .map es → Keyed es) (hk : k ≤ n) (hn : n + k' = n' + k) :
    (c.shift n).Mirror (Offset k k' (n + m)) (c.shift n') := by
  have hall : ∀ xs : List Value, (∀ v ∈ xs, v.Between 0 m) →
      List.Forall₂ (Value.Match (Offset k k' (n + m))) (xs.map (·.shift n))
        (xs.map (·.shift n')) := by
    intro xs hxs
    rw [List.forall₂_map_left_iff,List.forall₂_map_right_iff]
    exact List.forall₂_same.mpr fun v hv => (hxs v hv).match_shift hk hn
  cases c with
  | list xs => exact .list (hall xs hc)
  | tuple xs => exact .tuple (hall xs hc)
  | set xs => exact .set (hall xs hc)
  | map es =>
    have hes := hkeyed es rfl
    have hkeys : ∀ e ∈ es, ∀ n, e.1.shift n = e.1 := fun e he =>
      Value.shift_of_ne_ref (hes.plain e he)
    refine .map ?_ (hes.of_keys ?_)
    · unfold SameKeys
      rw [List.forall₂_map_left_iff,List.forall₂_map_right_iff]
      refine List.forall₂_same.mpr fun e he => ⟨?_,?_,?_⟩
      · rw [hkeys e he,hkeys e he]
      · rw [hkeys e he]
        exact hes.plain e he
      · exact (hc e.2 (List.mem_flatMap.mpr ⟨e,he,by simp⟩)).match_shift hk hn
    · rw [List.map_map]
      exact List.map_congr_left fun e he => hkeys e he n

namespace Store

theorem size_append (s t : Store) : (s.append t).cells.size = s.cells.size + t.cells.size := by
  simp [append]

theorem get?_append {i : Nat} (h : s.get? i = some c) (t : Store) :
    (s.append t).get? i = some c := by
  have hi := (Array.getElem?_eq_some_iff.mp h).1
  exact (Array.getElem?_append_left hi).trans h

theorem get?_append_right (s t : Store) (i : Nat) :
    (s.append t).get? (s.cells.size + i) = (t.get? i).map (·.shift s.cells.size) := by
  unfold append get?
  rw [Array.getElem?_append_right (Nat.le_add_right ..),Nat.add_sub_cancel_left,Array.getElem?_map]

theorem Closed.append (h : t.Closed 0) (s : Store) : (s.append t).Closed s.cells.size := by
  intro i c hi hc v hv
  obtain ⟨j,rfl⟩ := Nat.exists_eq_add_of_le hi
  rw [get?_append_right] at hc
  obtain ⟨d,hd,rfl⟩ := Option.map_eq_some_iff.mp hc
  rw [Cell.values_shift] at hv
  obtain ⟨u,hu,rfl⟩ := List.mem_map.mp hv
  rw [size_append]
  exact (h j d (Nat.zero_le _) hd u hu).shift _

theorem Aligned.append (h : s.Aligned k k' s') (hclosed : t.Closed 0) (hkeyed : t.AllKeyed) :
    (s.append t).Aligned k k' (s'.append t) := by
  have hbase := h.base
  have hsize := h.size
  refine ⟨by rw [size_append]; omega,by rw [size_append,size_append]; omega,fun i j hij => ?_⟩
  rw [size_append] at hij ⊢
  by_cases hi : i < s.cells.size
  · obtain ⟨c,c',hc,hc',hm⟩ := h.cells i j ⟨hij.1,hi,hij.2.2⟩
    exact ⟨c,c',get?_append hc t,get?_append hc' t,
      hm.mono fun _ _ => Offset.mono (Nat.le_add_right ..)⟩
  · obtain ⟨a,rfl⟩ := Nat.exists_eq_add_of_le (Nat.le_of_not_lt hi)
    obtain rfl : j = s'.cells.size + a := by
      have := hij.2.2
      omega
    have ha : a < t.cells.size := by
      have := hij.2.1
      omega
    have hcell : t.get? a = some t.cells[a] := Array.getElem?_eq_getElem ha
    refine ⟨_,_,?_,?_,Cell.mirror_shift (hclosed a _ (Nat.zero_le _) hcell)
      (fun es hes => hkeyed a es (hes ▸ hcell))
      hbase hsize⟩
    · rw [get?_append_right,hcell,Option.map_some]
    · rw [get?_append_right,hcell,Option.map_some]

end Store

end

end Data

namespace Yaml
open Data
variable {read : Reader} {s s' t : Store} {text : List Char} {v : Value} {d : Document}

theorem exists_of_load (h : load read s text = .ok (v, t)) :
    ∃ d, read text = .ok d ∧ v = d.root.shift s.cells.size ∧ t = s.append d.store := by
  cases hd : read text with
  | error p => cases (load_error_iff.mpr hd).symm.trans h
  | ok d =>
    cases (load_of_ok hd s).symm.trans h
    exact ⟨d,rfl,rfl,rfl⟩

theorem load_keeps (h : load read s text = .ok (v, t)) {i : Nat} {c : Cell}
    (hi : s.get? i = some c) :
    t.get? i = some c := by
  obtain ⟨d,-,-,rfl⟩ := exists_of_load h
  exact Store.get?_append hi _

/-- The value of a document and the cells that it leads to are new. -/
theorem load_fresh (hread : read.Proper) (h : load read s text = .ok (v, t)) :
    v.Between s.cells.size t.cells.size ∧ t.Closed s.cells.size := by
  obtain ⟨d,hd,rfl,rfl⟩ := exists_of_load h
  rw [Store.size_append]
  exact ⟨(hread text d hd).root.shift _,(hread text d hd).closed.append s⟩

theorem Document.Proper.aligned {k k' : Nat} (hd : d.Proper) (h : s.Aligned k k' s') :
    (d.root.shift s.cells.size).Match (Offset k k' (s.append d.store).cells.size)
      (d.root.shift s'.cells.size) ∧
      (s.append d.store).Aligned k k' (s'.append d.store) := by
  refine ⟨?_,h.append hd.closed hd.keyed⟩
  rw [Store.size_append]
  exact hd.root.match_shift h.base h.size

end Yaml

end InterfaceKit
