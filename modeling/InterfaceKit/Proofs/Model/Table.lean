import InterfaceKit.Model.Table
import Mathlib.Data.List.Basic
import Mathlib.Data.List.Induction
import Mathlib.Data.List.Nodup

/-!
# Tables that grow by declarations

A name keeps the position of its first declaration and stands for its last. `declared` says so of a
whole row of declarations at once; entering them one after the other gives the same table.
-/
namespace InterfaceKit.Model.Table

variable {α β : Type}

theorem modify_set (t : Table α) (n : String) (a : α) (f : α → α) :
    (t.set n a).modify n f = t.set n (f a) := by
  induction t with
  | nil => simp [set,modify]
  | cons e t ih =>
    obtain ⟨m,b⟩ := e
    by_cases h : m = n
    · simp [set,modify,h]
    · simp [set,modify,h,ih]

theorem modify_eq_self {f : α → α} (h : ∀ a, f a = a) (t : Table α) (n : String) :
    t.modify n f = t := by
  induction t with
  | nil => rfl
  | cons e t ih =>
    obtain ⟨m,b⟩ := e
    rw [modify,h,ih]
    split <;> rfl

theorem get?_set (t : Table α) (n : String) (a : α) : (t.set n a).get? n = some a := by
  induction t with
  | nil => simp [set,get?]
  | cons e t ih =>
    obtain ⟨m,b⟩ := e
    by_cases h : m = n
    · simp [set,get?,h]
    · have hn : (n == m) = false := by simpa using Ne.symm h
      rw [set,if_neg h,get?,List.lookup_cons,hn]
      exact ih

def mapValues (g : α → β) (t : Table α) : Table β := t.map fun e => (e.1, g e.2)

def setAll (t : Table α) (ds : List (String × α)) : Table α := ds.foldl (fun t d => t.set d.1 d.2) t

/-- The names in the order of their first declarations, each with its last. -/
def declared (ds : List (String × α)) : Table α :=
  (ds.map (·.1)).eraseDups.filterMap fun n => (ds.reverse.lookup n).map fun a => (n, a)

/-- Another declaration changes the entry of its name, or adds one at the end. -/
theorem filterMap_set {g : String → Option α} {ns : List String} (n : String) (a : α)
    (hns : ns.Nodup) (hn : n ∈ ns → (g n).isSome) :
    (ns ++ if n ∈ ns then [] else [n]).filterMap
        (fun m => (if m = n then some a else g m).map fun b => (m, b)) =
      set (ns.filterMap fun m => (g m).map fun b => (m, b)) n a := by
  induction ns with
  | nil => simp [set]
  | cons m ns ih =>
    obtain ⟨hm,hns⟩ := List.nodup_cons.mp hns
    by_cases h : m = n
    · subst h
      obtain ⟨b,hb⟩ := Option.isSome_iff_exists.mp (hn (by simp))
      have hrest : ns.filterMap (fun k => (if k = m then some a else g k).map fun b => (k, b)) =
          ns.filterMap fun k => (g k).map fun b => (k, b) := by
        refine List.filterMap_congr fun k hk => ?_
        rw [if_neg fun e => hm (by rwa [← e])]
      simp [hb,hrest,set]
    · have ih := ih hns fun hk => hn (by simp [hk])
      have hmem : n ∈ m :: ns ↔ n ∈ ns := by simp [Ne.symm h]
      simp only [hmem,List.cons_append,List.filterMap_cons,if_neg h]
      cases g m with
      | none => exact ih
      | some b => simp [set,h,ih]

theorem nodup_eraseDups : ∀ ns : List String, ns.eraseDups.Nodup
  | [] => by simp
  | n :: ns => by
      rw [List.eraseDups_cons,List.nodup_cons]
      exact ⟨by simp [List.mem_eraseDups],nodup_eraseDups _⟩
  termination_by ns => ns.length
  decreasing_by exact Nat.lt_succ_of_le (List.length_filter_le _ _)

theorem eraseDups_concat (ns : List String) (n : String) :
    (ns ++ [n]).eraseDups = ns.eraseDups ++ if n ∈ ns.eraseDups then [] else [n] := by
  rw [List.eraseDups_append]
  by_cases h : n ∈ ns
  · simp [h,List.removeAll,List.mem_eraseDups]
  · simp [h,List.removeAll,List.mem_eraseDups,List.eraseDups_cons]

theorem declared_append (ds : List (String × α)) (n : String) (a : α) :
    declared (ds ++ [(n, a)]) = (declared ds).set n a := by
  have hnames : ((ds ++ [(n, a)]).map (·.1)).eraseDups =
      (ds.map (·.1)).eraseDups ++ if n ∈ (ds.map (·.1)).eraseDups then [] else [n] := by
    rw [List.map_append]
    exact eraseDups_concat _ n
  have hlookup : ∀ m, (ds ++ [(n, a)]).reverse.lookup m =
    if m = n then some a else ds.reverse.lookup m := by
    intro m
    by_cases h : m = n
    · simp [h]
    · have hm : (m == n) = false := by simpa using h
      simp [List.lookup_cons,hm,h]
  have hsome : n ∈ (ds.map (·.1)).eraseDups → (ds.reverse.lookup n).isSome := by
    intro hn
    obtain ⟨d,hd,rfl⟩ := List.mem_map.mp (List.mem_eraseDups.mp hn)
    exact List.lookup_isSome_iff.mpr ⟨d,List.mem_reverse.mpr hd,beq_self_eq_true _⟩
  rw [declared,declared,hnames,← filterMap_set n a (nodup_eraseDups _) hsome]
  simp only [hlookup]

theorem setAll_nil (ds : List (String × α)) : setAll [] ds = declared ds := by
  induction ds using List.reverseRecOn with
  | nil => rfl
  | append_singleton ds d ih =>
    rw [declared_append,← ih]
    simp [setAll]

/-! ## Names that occur once -/

section
variable {t : Table α} {n : String} {a : α}

theorem get?_cons (m : String) (b : α) (t : Table α) (n : String) :
    get? ((m, b) :: t) n = if n = m then some b else t.get? n := by
  rw [get?,List.lookup_cons]
  by_cases hn : n = m
  · simp [hn]
  · have hn' : (n == m) = false := by simpa using hn
    rw [hn',if_neg hn]
    rfl

theorem mem_of_get? (h : t.get? n = some a) : (n, a) ∈ t := by
  induction t with
  | nil => cases h
  | cons e t ih =>
    obtain ⟨m,b⟩ := e
    rw [get?_cons] at h
    split at h
    · obtain rfl := Option.some.inj h
      simp [*]
    · exact List.mem_cons_of_mem _ (ih h)

theorem get?_set_of_ne {m : String} (h : n ≠ m) (t : Table α) (a : α) :
    (t.set m a).get? n = t.get? n := by
  induction t with
  | nil => simp [set,get?_cons,h]
  | cons e t ih =>
    obtain ⟨k,b⟩ := e
    by_cases hk : k = m
    · subst hk
      rw [set,if_pos rfl,get?_cons,get?_cons,if_neg h,if_neg h]
    · rw [set,if_neg hk,get?_cons,get?_cons,ih]

theorem get?_modify (t : Table α) (n : String) (f : α → α) :
    (t.modify n f).get? n = (t.get? n).map f := by
  induction t with
  | nil => rfl
  | cons e t ih =>
    obtain ⟨m,b⟩ := e
    rw [modify]
    by_cases hm : m = n
    · rw [if_pos hm,get?_cons,get?_cons,if_pos hm.symm,if_pos hm.symm,Option.map_some]
    · rw [if_neg hm,get?_cons,get?_cons,if_neg (Ne.symm hm),if_neg (Ne.symm hm),ih]

theorem get?_filter_ne (t : Table α) (m n : String) :
    Table.get? (t.filter fun e => e.1 ≠ m) n = if n = m then none else t.get? n := by
  induction t with
  | nil => simp [get?]
  | cons e t ih =>
    obtain ⟨k,b⟩ := e
    by_cases hk : k = m
    · subst hk
      rw [List.filter_cons_of_neg (by simp),ih,get?_cons]
      split <;> simp_all
    · rw [List.filter_cons_of_pos (by simpa using hk),get?_cons,get?_cons,ih]
      split <;> simp_all

theorem set_eq_self (h : t.get? n = some a) : t.set n a = t := by
  induction t with
  | nil => cases h
  | cons e t ih =>
    obtain ⟨m,b⟩ := e
    rw [get?_cons] at h
    by_cases hm : m = n
    · rw [if_pos hm.symm] at h
      rw [set,if_pos hm,Option.some.inj h]
    · rw [if_neg (Ne.symm hm)] at h
      rw [set,if_neg hm,ih h]

theorem names_set (t : Table α) (n : String) (a : α) :
    (t.set n a).names = if n ∈ t.names then t.names else t.names ++ [n] := by
  induction t with
  | nil => simp [set,names]
  | cons e t ih =>
    obtain ⟨m,b⟩ := e
    by_cases hm : m = n
    · simp [set,names,hm]
    · have hset : (set ((m, b) :: t) n a).names = m :: names (set t n a) := by simp [set,names,hm]
      have hmem : n ∈ names ((m, b) :: t) ↔ n ∈ names t := by simp [names,Ne.symm hm]
      rw [hset,ih]
      simp only [hmem]
      split <;> rfl

theorem nodup_names_set (h : t.names.Nodup) (n : String) (a : α) : (t.set n a).names.Nodup := by
  rw [names_set]
  split
  · exact h
  · next hn => exact List.Nodup.append h (List.nodup_singleton n) (by simpa using hn)

theorem get?_of_mem (ht : t.names.Nodup) (h : (n, a) ∈ t) : t.get? n = some a := by
  induction t with
  | nil => cases h
  | cons e t ih =>
    obtain ⟨m,b⟩ := e
    obtain ⟨hhead,htail⟩ := List.nodup_cons.mp ht
    rw [get?_cons]
    rcases List.mem_cons.mp h with he | hmem
    · obtain ⟨rfl,rfl⟩ := Prod.mk.inj he
      simp
    · have hn : n ≠ m := by
        rintro rfl
        exact hhead (List.mem_map.mpr ⟨_,hmem,rfl⟩)
      rw [if_neg hn]
      exact ih htail hmem

theorem get?_eq_none_iff : t.get? n = none ↔ n ∉ t.names := by
  induction t with
  | nil => simp [get?,names]
  | cons e t ih =>
    obtain ⟨m,b⟩ := e
    rw [get?_cons]
    by_cases hm : n = m
    · simp [names,hm]
    · rw [if_neg hm,ih]
      simp [names,hm]

/-! ## Taking over entries -/

variable {ds : List (String × α)}

theorem get?_setAll_of_notMem (hn : n ∉ ds.map (·.1)) (t : Table α) :
    (t.setAll ds).get? n = t.get? n := by
  induction ds generalizing t with
  | nil => rfl
  | cons d ds ih =>
    rw [List.map_cons,List.mem_cons,not_or] at hn
    have hrest : (t.setAll (d :: ds)).get? n = (t.set d.1 d.2).get? n := ih hn.2 (t.set d.1 d.2)
    rw [hrest,get?_set_of_ne hn.1]

/-- A name that is taken over once stands for what it was given. -/
theorem get?_setAll (hds : (ds.map (·.1)).Nodup) (h : (n, a) ∈ ds) (t : Table α) :
    (t.setAll ds).get? n = some a := by
  induction ds generalizing t with
  | nil => cases h
  | cons d ds ih =>
    obtain ⟨hd,hds⟩ := List.nodup_cons.mp hds
    have hstep : t.setAll (d :: ds) = (t.set d.1 d.2).setAll ds := rfl
    rw [hstep]
    rcases List.mem_cons.mp h with rfl | h
    · rw [get?_setAll_of_notMem hd,get?_set]
    · exact ih hds h _

/-- What is taken over comes before what was there. -/
theorem get?_setAll_eq_or (hds : (ds.map (·.1)).Nodup) (t : Table α) (n : String) :
    (t.setAll ds).get? n = (get? ds n).or (t.get? n) := by
  cases hn : get? ds n with
  | none => rw [get?_setAll_of_notMem (get?_eq_none_iff.mp hn),Option.none_or]
  | some a => rw [get?_setAll hds (mem_of_get? hn),Option.some_or]

theorem mem_names_setAll : n ∈ (t.setAll ds).names ↔ n ∈ t.names ∨ n ∈ names ds := by
  induction ds generalizing t with
  | nil => simp [setAll,names]
  | cons d ds ih =>
    have hstep : t.setAll (d :: ds) = (t.set d.1 d.2).setAll ds := rfl
    have hset : n ∈ (t.set d.1 d.2).names ↔ n ∈ t.names ∨ n = d.1 := by
      rw [names_set]
      split
      · rename_i hd
        exact ⟨.inl,fun h => h.elim id fun he => he ▸ hd⟩
      · simp
    rw [hstep,ih,hset]
    simp [names,or_assoc]

theorem nodup_names_setAll (h : t.names.Nodup) (ds : List (String × α)) :
    (t.setAll ds).names.Nodup := by
  induction ds generalizing t with
  | nil => exact h
  | cons d ds ih => exact ih (nodup_names_set h d.1 d.2)

theorem setAll_eq_self (h : ∀ d ∈ ds, t.get? d.1 = some d.2) : t.setAll ds = t := by
  induction ds with
  | nil => rfl
  | cons d ds ih =>
    have hstep : t.setAll (d :: ds) = (t.set d.1 d.2).setAll ds := rfl
    rw [hstep,set_eq_self (h d List.mem_cons_self)]
    exact ih fun e he => h e (List.mem_cons_of_mem d he)

/-- Taking over the same entries once more changes nothing. -/
theorem setAll_again (hds : (ds.map (·.1)).Nodup) (t : Table α) :
    (t.setAll ds).setAll ds = t.setAll ds :=
  setAll_eq_self fun _ hd => get?_setAll hds hd t

end

end InterfaceKit.Model.Table
