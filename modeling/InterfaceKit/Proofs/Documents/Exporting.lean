import InterfaceKit.Proofs.Documents.Independent
import InterfaceKit.Proofs.Model.Exported

/-!
# Exports of texts

A module that has been read of a text can be told from its export: no token of a text is empty, so
every type that a text gives says something and is written. Two accepted texts whose modules have
the same export describe the same interface.
-/
namespace InterfaceKit
open Data Grammar Lexical Model

/-- The module that an accepted text has brought into a system can be told from its export. -/
theorem told_module {text : String} {n : Nat} {w t : Workspace} {m : Module}
    (h : (Act.readSystemText n .full text).run w = (.ok (), t))
    (hm : (t.systemAt n).called? (headName text) = some m) : m.Told := by
  rw [Act.readSystemText] at h
  rcases readSource_registers n .full _ text.toList w with
    ⟨-,hfailed⟩ | ⟨m₀,hkept,⟨hname,htyped⟩,hsystems⟩
  · exact absurd (congrArg Prod.fst h) hfailed
  rw [h] at htyped hsystems
  have htold : m₀.Told := told_of_read hkept.named hkept.fresh (htyped rfl)
  rw [headName,← hname] at hm
  cases hs : w.systems[n]? with
  | none =>
    have hnone : t.systems[n]? = none := by
      rw [hsystems,List.getElem?_modify,hs]
      rfl
    rw [Workspace.systemAt,List.getD_eq_getElem?_getD,hnone] at hm
    cases hm
  | some s =>
    obtain ⟨s',hs',htakes⟩ := System.takes_of_modify hsystems hs
    rw [if_pos rfl] at htakes
    obtain ⟨id,hid,hmodule⟩ := htakes.current
    rw [Workspace.systemAt_of_getElem? hs',System.called?,hid] at hm
    obtain rfl := Option.some.inj (hmodule.symm.trans hm)
    exact htold

/-- The modules of two accepted texts have the same export, whatever the order of its members,
exactly if they have the same name and version and the same symbols in the same order, with the same
names and types, and with the same values and kinds as far as these are exported. Every property,
parameter, field and operation is exported with its type. -/
theorem export_determines {text text' : String} {n n' : Nat} {w w' t t' : Workspace} {m m' : Module}
    (h : (Act.readSystemText n .full text).run w = (.ok (), t))
    (hm : (t.systemAt n).called? (headName text) = some m)
    (h' : (Act.readSystemText n' .full text').run w' = (.ok (), t'))
    (hm' : (t'.systemAt n').called? (headName text') = some m') :
    (m.toJson.Same m'.toJson ↔ m.exported = m'.exported) ∧ m.TypesWritten ∧ m'.TypesWritten := by
  have htold := told_module h hm
  have htold' := told_module h' hm'
  refine ⟨⟨Module.exported_eq htold htold',fun hexported => ?_⟩,htold.typesWritten,
    htold'.typesWritten⟩
  rw [← m.exported_toJson,← m'.exported_toJson,hexported]
  exact .refl _

theorem readAlone_ok {text : String} (h : (readAlone text).1 = .ok ()) :
    (Act.readSystemText 0 .full text).run (Act.newSystem.run {}).2 = (.ok (), (readAlone text).2) :=
  Prod.ext h rfl

def bareText : String := "module a 1.0 interface I \x7b void f(list<map<T>> x) const \x7d"

/-- A text with a comment and a base, and without a word of the other. None of this is exported. -/
def adornedText : String :=
  "/** q */ module a 1.0 interface I extends J \x7b void f(list<map<T>> x) \x7d"

def adornedModule : Module :=
  { common := { name := "a" }
    version := "1.0"
    interfaces := [("I",
      { common := { name := "I" }
        operations := [("f",
          { common := { name := "f", type := { outer := .void } }
            parameters :=
              [("x", { common := { name := "x", type := .ofLayers [.list,.map,.complex "T"] } })]
                })] })] }

theorem adorned_export :
    ∃ m m', ((readAlone bareText).2.systemAt 0).called? (headName bareText) = some m ∧
      ((readAlone adornedText).2.systemAt 0).called? (headName adornedText) = some m' ∧
      m.exported = adornedModule ∧ m.toJson.Same m'.toJson := by
  have hok : (readAlone bareText).1 = .ok () := by decide +kernel
  have hok' : (readAlone adornedText).1 = .ok () := by decide +kernel
  have hmodule :
    (((readAlone bareText).2.systemAt 0).called? (headName bareText)).map Module.exported =
      some adornedModule := by decide +kernel
  have hmodule' :
    (((readAlone adornedText).2.systemAt 0).called? (headName adornedText)).map Module.exported =
      some adornedModule := by decide +kernel
  obtain ⟨m,hm,hexported⟩ := Option.map_eq_some_iff.mp hmodule
  obtain ⟨m',hm',hexported'⟩ := Option.map_eq_some_iff.mp hmodule'
  have hsame := (export_determines (readAlone_ok hok) hm (readAlone_ok hok') hm').1.mpr
    (hexported.trans hexported'.symm)
  exact ⟨m,m',hm,hm',hexported,hsame⟩

end InterfaceKit
