import InterfaceKit.Proofs.Model.Numbering
import Mathlib.Data.Int.Bitwise

/-!
# Members with the same number

Numbers are given by position, so a number that is written may also be the one of another member's
position. If no name and no written number occurs twice in a declaration, this is the only way in
which two of its members get the same number.
-/
namespace InterfaceKit

namespace Grammar
open Lexical

theorem Phrase.automaticNumber_injective (flag : Bool) :
    Function.Injective (automaticNumber flag) := by
  intro i j hij
  cases flag with
  | false => exact hij
  | true => exact Nat.pow_right_injective (le_refl 2) hij

namespace Listing
open Phrase

def writtenNumber (k : String × Option String) : Option Int :=
  k.2.map fun text => integerNumber text.toList

def writtenNumbers (e : Listing) : List Int := e.members.filterMap writtenNumber

def numbers (e : Listing) : List Int := e.members.mapIdx fun i k => numberAt e.flag i k.2

/-- A number that is written is never the one of the position of a member without a written
number. -/
def PositionsFree (e : Listing) : Prop :=
  ∀ k ∈ e.members.zipIdx, writtenNumber k.1 = none →
    (automaticNumber e.flag k.2 : Int) ∉ e.writtenNumbers

instance (e : Listing) : Decidable e.PositionsFree :=
  inferInstanceAs (Decidable (∀ k ∈ e.members.zipIdx, _))

variable {e : Listing} {i j : Nat} {k k' : String × Option String} {a : Int}

theorem numberAt_eq (flag : Bool) (position : Nat) (k : String × Option String) :
    numberAt flag position k.2 = (writtenNumber k).getD (automaticNumber flag position) := by
  unfold numberAt writtenNumber
  cases k.2 with
  | none => rfl
  | some text => rfl

theorem getElem?_numbers (hk : e.members[i]? = some k) :
    e.numbers[i]? = some ((writtenNumber k).getD (automaticNumber e.flag i)) := by
  rw [numbers,List.getElem?_mapIdx,hk,Option.map_some,numberAt_eq]

theorem index_eq_of_written (h : e.writtenNumbers.Nodup) (hk : e.members[i]? = some k)
    (hk' : e.members[j]? = some k') (ha : writtenNumber k = some a)
    (ha' : writtenNumber k' = some a) : i = j := by
  have hpairs := List.pairwise_iff_getElem.mp (List.pairwise_filterMap.mp h)
  obtain ⟨hi,rfl⟩ := List.getElem?_eq_some_iff.mp hk
  obtain ⟨hj,rfl⟩ := List.getElem?_eq_some_iff.mp hk'
  rcases Nat.lt_trichotomy i j with hlt | heq | hgt
  · exact absurd rfl (hpairs i j hi hj hlt a ha a ha')
  · exact heq
  · exact absurd rfl (hpairs j i hj hi hgt a ha' a ha)

/-- The members have different numbers if and only if no written number is the one of a position. -/
theorem nodup_numbers_iff (h : e.writtenNumbers.Nodup) : e.numbers.Nodup ↔ e.PositionsFree := by
  constructor
  · intro hnodup ⟨k,i⟩ hki hnone hmem
    have hk : e.members[i]? = some k := List.mem_zipIdx_iff_getElem?.mp hki
    obtain ⟨k',hk',hwritten⟩ := List.mem_filterMap.mp hmem
    obtain ⟨j,hj⟩ := List.mem_iff_getElem?.mp hk'
    have hi : e.numbers[i]? = e.numbers[j]? := by
      rw [getElem?_numbers hk,getElem?_numbers hj,hnone,hwritten]
      rfl
    have hlength : i < e.numbers.length := by
      simpa [numbers] using (List.getElem?_eq_some_iff.mp hk).1
    obtain rfl := (List.getElem?_inj hlength hnodup).mp hi
    obtain rfl := Option.some.inj (hk.symm.trans hj)
    rw [hnone] at hwritten
    cases hwritten
  · intro hfree
    rw [List.nodup_iff_getElem?_ne_getElem?]
    intro i j hij hj heq
    have hlength : j < e.members.length := by simpa [numbers] using hj
    have hki : e.members[i]? = some e.members[i] := List.getElem?_eq_getElem (hij.trans hlength)
    have hkj : e.members[j]? = some e.members[j] := List.getElem?_eq_getElem hlength
    rw [getElem?_numbers hki,getElem?_numbers hkj] at heq
    have hsame := Option.some.inj heq
    have hwritten : ∀ {k x}, e.members[k]? = some x → ∀ {a}, writtenNumber x = some a →
        a ∈ e.writtenNumbers :=
      fun hk _ hx => List.mem_filterMap.mpr ⟨_,List.mem_of_getElem? hk,hx⟩
    cases hwi : writtenNumber e.members[i] with
    | none =>
      cases hwj : writtenNumber e.members[j] with
      | none =>
        rw [hwi,hwj] at hsame
        have hpositions := automaticNumber_injective e.flag (Int.ofNat_inj.mp hsame)
        omega
      | some b =>
        rw [hwi,hwj] at hsame
        exact hfree (_, i) (List.mem_zipIdx_iff_getElem?.mpr hki) hwi
          (hwritten hkj (hwj.trans (congrArg some hsame.symm)))
    | some a =>
      cases hwj : writtenNumber e.members[j] with
      | none =>
        rw [hwi,hwj] at hsame
        exact hfree (_, j) (List.mem_zipIdx_iff_getElem?.mpr hkj) hwj
          (hwritten hki (hwi.trans (congrArg some hsame)))
      | some b =>
        rw [hwi,hwj] at hsame
        have hpositions := index_eq_of_written h hki hkj hwi (hwj.trans (congrArg some hsame.symm))
        omega

end Listing

/-! ## Bits -/

def SharesBit (a b : Int) : Prop := ∃ i, a.testBit i = true ∧ b.testBit i = true

theorem sharesBit_two_pow (a b : Nat) : SharesBit (2 ^ a) (2 ^ b) ↔ a = b := by
  have hbit : ∀ n i : Nat, Int.testBit (2 ^ n) i = decide (n = i) := by
    intro n i
    rw [← Nat.testBit_two_pow]
    exact congrArg (Int.testBit · i) (Int.natCast_pow 2 n).symm
  constructor
  · intro h
    obtain ⟨i,ha,hb⟩ := h
    rw [hbit,decide_eq_true_eq] at ha hb
    exact ha.trans hb.symm
  · intro h
    exact ⟨a,by rw [hbit,decide_eq_true_eq],by rw [hbit,decide_eq_true_eq,h]⟩

/-- Powers of two that differ have no bit in common. -/
theorem pairwise_bits_iff {ns : List Int} (h : ∀ n ∈ ns, ∃ a : Nat, n = 2 ^ a) :
    ns.Pairwise (fun a b => ¬ SharesBit a b) ↔ ns.Nodup := by
  apply List.Pairwise.iff_of_mem
  intro a b ha hb
  obtain ⟨i,rfl⟩ := h a ha
  obtain ⟨j,rfl⟩ := h b hb
  rw [sharesBit_two_pow,not_iff_not]
  constructor
  · intro hij
    rw [hij]
  · intro hij
    exact Nat.pow_right_injective (le_refl 2) (by exact_mod_cast hij)

/-- In a flag whose written numbers are powers of two all numbers are. -/
theorem Listing.numbers_two_pow {e : Listing} (hflag : e.flag = true)
    (h : ∀ n ∈ e.writtenNumbers, ∃ a : Nat, n = 2 ^ a) : ∀ n ∈ e.numbers, ∃ a : Nat, n = 2 ^ a := by
  intro n hn
  obtain ⟨i,hi⟩ := List.mem_iff_getElem?.mp hn
  rw [numbers,List.getElem?_mapIdx] at hi
  obtain ⟨k,hk,rfl⟩ := Option.map_eq_some_iff.mp hi
  rw [numberAt_eq]
  cases hw : writtenNumber k with
  | none => exact ⟨i,by simp [Phrase.automaticNumber,hflag]⟩
  | some b => exact h b (List.mem_filterMap.mpr ⟨k,List.mem_of_getElem? hk,hw⟩)

end Grammar

namespace Model
open Grammar

theorem Table.eraseDups_of_nodup {ns : List String} (h : ns.Nodup) : ns.eraseDups = ns := by
  induction ns with
  | nil => rfl
  | cons n ns ih =>
    obtain ⟨hn,hns⟩ := List.nodup_cons.mp h
    have hfilter : ns.filter (fun m => !m == n) = ns := by
      apply List.filter_eq_self.mpr
      intro m hm
      have hne : m ≠ n := fun heq => hn (heq ▸ hm)
      simpa using hne
    rw [List.eraseDups_cons,hfilter,ih hns]

/-- Where no name occurs twice the members have the numbers of the declaration, in its order. -/
theorem Enum.Numbered.values_eq {x : Enum} {e : Listing} (h : x.Numbered e)
    (hnames : (e.members.map (·.1)).Nodup) : x.members.values.map (·.value) = e.numbers := by
  have hsame : x.members.names = e.members.map (·.1) :=
    h.names.trans (Table.eraseDups_of_nodup hnames)
  apply List.ext_getElem?
  intro i
  have hi : (x.members[i]?).map (·.1) = (e.members[i]?).map (·.1) := by
    rw [← List.getElem?_map,← List.getElem?_map,← hsame]
    rfl
  rw [Table.values,List.map_map,List.getElem?_map,Listing.numbers,List.getElem?_mapIdx]
  cases hk : e.members[i]? with
  | none =>
    rw [hk,Option.map_none,Option.map_eq_none_iff] at hi
    rw [hi]
    rfl
  | some k =>
    rw [hk,Option.map_some] at hi
    obtain ⟨⟨n,y⟩,hy,rfl⟩ := Option.map_eq_some_iff.mp hi
    obtain ⟨hlength,rfl⟩ := List.getElem?_eq_some_iff.mp hk
    have hsplit : e.members = e.members.take i ++ e.members[i] :: e.members.drop (i + 1) := by
      rw [List.getElem_cons_drop,List.take_append_drop]
    have hlast : e.members[i].1 ∉ (e.members.drop (i + 1)).map (·.1) := by
      rw [hsplit,List.map_append,List.map_cons] at hnames
      exact (List.nodup_cons.mp (List.nodup_append.mp hnames).2.1).1
    obtain ⟨z,hz,hvalue⟩ := h.number _ _ _ _ hsplit hlast
    have hget := Table.get?_of_mem (hsame ▸ hnames) (List.mem_of_getElem? hy)
    obtain rfl := Option.some.inj (hget.symm.trans hz)
    rw [hy,Option.map_some,Option.map_some,Function.comp_apply,hvalue,
      List.length_take_of_le hlength.le]
    rfl

end Model

end InterfaceKit
