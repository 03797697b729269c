import InterfaceKit.Proofs.Filter.Agreement
import Mathlib.Data.List.TakeWhile

/-!
# Types that C++ has a text for

Lists are written alike whatever stands inside, but what stands inside must have a text itself; what
is inside of a model is not looked at. Only maps have none. A first value is missing, besides, of
enumerations without members and of types that refer to a module or to the system.
-/
namespace InterfaceKit
open Data Model Inquiry

namespace Model

theorem TypeExpr.Formed.exists_element {t : TypeExpr} {void : Bool} (h : t.Formed void) :
    ∃ l, (t.layers.dropWhile (·.isList)).head? = some l ∧ l.kinds.count true = 1 := by
  cases hdrop : t.layers.dropWhile (·.isList) with
  | cons l ls =>
    have hmem : l ∈ t.layers := (List.dropWhile_sublist _).subset (hdrop ▸ List.mem_cons_self ..)
    obtain ⟨depth,hdepth⟩ := List.getElem?_of_mem hmem
    exact ⟨l,rfl,(h depth l hdepth).1⟩
  | nil =>
    have hlists := List.dropWhile_eq_nil_iff.mp hdrop
    have hlt : t.inner.length < t.layers.length := Nat.lt_succ_self _
    obtain ⟨-,hcontainer,-⟩ := h _ _ (List.getElem?_eq_getElem hlt)
    have hlist := hlists _ (List.getElem_mem hlt)
    have hnone : t.hasNested t.inner.length = false := by
      rw [TypeExpr.hasNested,TypeExpr.layer?,List.getElem?_eq_none (Nat.succ_le_of_lt hlt)]
      rfl
    rw [Layer.isContainer,hlist,hnone] at hcontainer
    cases hcontainer

namespace System
variable {s : System} {h : Handle} {c : Common} {t : TypeHandle} {l : Layer}

theorem layer?_element (hc : s.common? h = some c) :
    s.layer? (s.element ⟨h,0⟩) = (c.type.layers.dropWhile (·.isList)).head? := by
  have hcount : (((c.type.layers.map Layer.bare).drop 0).takeWhile (·.isList)).length =
      (c.type.layers.takeWhile (·.isList)).length := by
    rw [List.drop_zero,List.takeWhile_map,List.length_map]
    rfl
  have hsplit := List.takeWhile_append_dropWhile (p := (·.isList)) (l := c.type.layers)
  rw [layer?,element,wording?,hc,Option.map_some,Option.map_some,Option.getD_some,hcount,
    Nat.zero_add,Option.bind_some,TypeExpr.layer?]
  calc c.type.layers[(c.type.layers.takeWhile (·.isList)).length]?
      = (c.type.layers.takeWhile (·.isList) ++
          c.type.layers.dropWhile (·.isList))[(c.type.layers.takeWhile (·.isList)).length]? := by
            rw [hsplit]
    _ = (c.type.layers.dropWhile (·.isList))[0]? := by
        rw [List.getElem?_append_right (Nat.le_refl _),Nat.sub_self]
    _ = (c.type.layers.dropWhile (·.isList)).head? := (List.head?_eq_getElem? ..).symm

/-- Of the layers that are of a kind only maps cannot be written. -/
theorem Sound.isWritable_eq (hs : s.Sound) (hl : s.layer? t = some l)
    (hkind : l.kinds.count true = 1) :
    (s.meaning t).isWritable = !l.isMap := by
  have hkinds := hs.kinds_meaning t
  rw [hl,Option.getD_some] at hkinds
  have hmap : l.isMap = (s.meaning t).kinds[4]! := by
    rw [← hkinds]
    rfl
  rw [hkinds] at hkind
  rw [hmap]
  cases hm : s.meaning t with
  | nothing =>
    rw [hm] at hkind
    cases hkind
  | _ => rfl

end System

theorem Meaning.first?_eq_none_iff {m : Meaning} (hm : m.isWritable = true) (type : String) :
    m.first? type = none ↔ m = .elsewhere ∨ ∃ plain, m = .enumeration plain [] := by
  cases m with
  | enumeration plain members => cases members <;> simp [first?]
  | nothing | map => cases hm
  | _ => simp [first?]

end Model

namespace Workspace.Parsed
variable {w : Workspace} {n : Nat} {ids : List Nat} {h : Handle} {c : Common}

/-- In a module that was read to its end, the type of a symbol can be written unless its lists stand
around a map, and then no first value can be written either. Besides, there is none of an
enumeration without members and of what is no declared type. -/
theorem cpp_texts_fail_iff (hw : w.Parsed n ids) (hmodule : h.module ∈ ids)
    (hplace : h.place.hasType = true) (hc : (w.systemAt n).common? h = some c)
    (hh : (w.systemAt n).Resolved h) :
    let s := w.systemAt n
    let v := Value.entity n (.symbol h)
    let returned := ((Cpp.returnType v).act.run w).1
    let parameter := ((Cpp.parameterType v).act.run w).1
    let initial := ((Cpp.defaultValue v).act.run w).1
    let mapped := (c.type.layers.dropWhile (·.isList)).head?.any (·.isMap)
    ((∃ e, returned = .error e) ↔ mapped = true) ∧ ((∃ e, parameter = .error e) ↔ mapped = true) ∧
      returned ≠ .error .assertion ∧ parameter ≠ .error .assertion ∧
      ((∃ e, initial = .error e) ↔ mapped = true ∨ c.type.outer.isComplex = true ∧
        ∃ e, s.referent? ⟨h,0⟩ = some e ∧ (e.isType = false ∨
          ∃ id k plain, e = .symbol ⟨id,.enum k⟩ ∧ s.enumeration? id k = some (plain, []))) := by
  intro s v returned parameter initial mapped
  have hs := hw.retains.sound
  have houter : s.layer? ⟨h,0⟩ = some c.type.outer := by
    rw [System.layer?,hc]
    rfl
  have hwritable : (s.facts ⟨h,0⟩).element.isWritable = !mapped := by
    obtain ⟨l,hl,hkind⟩ := ((hw.retains.formed _ hmodule).types h.place c hplace hc).exists_element
    have hmapped : mapped = l.isMap := congrArg (Option.any (·.isMap)) hl
    rw [hmapped]
    exact hs.isWritable_eq ((System.layer?_element hc).trans hl) hkind
  have hnot : ¬ s.Dangles (s.element ⟨h,0⟩) := hs.not_dangles_of_resolved hh
  have hreturned : returned = (s.facts ⟨h,0⟩).returned w.cppPrefix := (firm_returnType hs hnot).now
  have hparameter : parameter = _ := (firm_parameterType hs hnot).now
  have hinitial : initial.toOption = _ := outcome_defaultValue hs hnot hplace
  have hfails : (∃ e, initial = .error e) ↔ initial.toOption = none := by
    cases initial <;> simp [Except.toOption]
  have hbarren := hs.meaning_barren_iff houter (hh 0 c.type.outer houter)
  rw [hfails,hinitial,hreturned,hparameter,TypeFacts.returned,hwritable]
  cases hm : mapped with
  | true => simp [Except.map,Except.toOption]
  | false =>
      rw [hm] at hwritable
      have hfirst := Meaning.first?_eq_none_iff (hs.isWritable_of_element hwritable)
        ((s.facts ⟨h,0⟩).text w.cppPrefix)
      simpa [Except.map,Except.toOption] using hfirst.trans hbarren

/-- A list of maps, an enumeration without members, and a property whose type is the name of a
module. -/
theorem list_of_maps_fails :
    let text := "module a 1.0 interface I \x7b list<map<int>> p E e a m \x7d enum E \x7b \x7d"
    let w₀ := (Act.newSystem.run {}).2
    let w := ((Act.readSystemText 0 .full text).run w₀).2
    let symbol (name : String) : Handle := ⟨0,.property "I" name⟩
    let returned (name : String) :=
      ((Cpp.returnType (.entity 0 (.symbol (symbol name)))).act.run w).1
    let initial (name : String) :=
      ((Cpp.defaultValue (.entity 0 (.symbol (symbol name)))).act.run w).1
    w.Parsed 0 [0] ∧ (∃ e, returned "p" = .error e) ∧ (¬ ∃ e, returned "e" = .error e) ∧
      (∃ e, initial "e" = .error e) ∧
      (¬ ∃ e, returned "m" = .error e) ∧ ∃ e, initial "m" = .error e := by
  intro text w₀ w symbol returned initial
  let read (name : String) := ((w.systemAt 0).common? (symbol name)).map fun c =>
    ((c.type.layers.dropWhile (·.isList)).head?.any (·.isMap), c.type.outer.isComplex)
  have hread : ((Act.readSystemText 0 .full text).run w₀).1 = .ok () ∧
      (∀ name ∈ ["p", "e","m"], (w.systemAt 0).Resolved (symbol name)) ∧
      read "p" = some (true, false) ∧ read "e" = some (false, true) ∧ read "m" = some (false, true) ∧
      (w.systemAt 0).referent? ⟨symbol "e",0⟩ = some (.symbol ⟨0,.enum "E"⟩) ∧
      (w.systemAt 0).enumeration? 0 "E" = some (true, []) ∧
      (w.systemAt 0).referent? ⟨symbol "m",0⟩ = some (.symbol ⟨0,.module⟩) := by decide +kernel
  obtain ⟨hok,hresolved,hp,he,hm,hreferent,hmembers,hmodule⟩ := hread
  have hw : w.Parsed 0 [0] := .complete (.new (w := {}) rfl) (.readText 0 .full text) (.readText hok)
  obtain ⟨c,hc,hmapped⟩ := Option.map_eq_some_iff.mp hp
  obtain ⟨d,hd,hplain⟩ := Option.map_eq_some_iff.mp he
  obtain ⟨b,hb,hother⟩ := Option.map_eq_some_iff.mp hm
  rw [Prod.mk.injEq] at hmapped hplain hother
  have hfails := cpp_texts_fail_iff hw (List.mem_singleton_self 0) rfl hc (hresolved "p" (by simp))
  have hempty := cpp_texts_fail_iff hw (List.mem_singleton_self 0) rfl hd (hresolved "e" (by simp))
  have helsewhere :=
    cpp_texts_fail_iff hw (List.mem_singleton_self 0) rfl hb (hresolved "m" (by simp))
  refine ⟨hw,hfails.1.mpr hmapped.1,?_,?_,?_,?_⟩
  · rw [hempty.1,hplain.1]
    exact nofun
  · exact hempty.2.2.2.2.mpr (.inr ⟨hplain.2,_,hreferent,.inr ⟨0,"E",true,rfl,hmembers⟩⟩)
  · rw [helsewhere.1,hother.1]
    exact nofun
  · exact helsewhere.2.2.2.2.mpr (.inr ⟨hother.2,_,hmodule,.inl rfl⟩)

end Workspace.Parsed

end InterfaceKit
