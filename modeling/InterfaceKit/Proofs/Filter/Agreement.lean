import InterfaceKit.Proofs.Documents.Parsed
import InterfaceKit.Proofs.Filter.TypeOutcome

/-!
# Agreement of the filters for C++

A symbol is written as something that is returned, as a parameter and with a first value. The three
texts go together: they name one type, and they can be written for the same symbols, apart from
first values that some types do not have. So do the signature of a symbol and the list of its
parameters, entry by entry.
-/
namespace InterfaceKit
open Data Lexical Model Inquiry

/-! ## Texts of one type -/

theorem Lexical.IsName.star_notMem {u : List Char} (h : IsName u) : '*' ∉ u := h.notMem (by decide)

def Cpp.IsPointer (text : String) : Prop := text.toList.getLast? = some '*'

/-- How the texts of a symbol go together: its type where it is returned, its type and its name
where it is passed, and its first value if it has one. -/
structure Cpp.Agreement (m : Meaning) (name returned parameter : String) (initial : Option String) :
    Prop where
  passed : parameter = m.passed returned name
  pointer : IsPointer returned ↔ m = .model ∨ m = .interface
  first : ∀ text, initial = some text → m.first? returned = some text
  null : ∀ text, initial = some text → (text = "nullptr" ↔ IsPointer returned)
  empty : ∀ text, initial = some text → (text = "" ↔ m = .void)

namespace Model

/-- The names are as they are spelt in texts. -/
structure TypeFacts.Spelt (x : TypeFacts) : Prop where
  primitive : ∀ name, x.meaning = .primitive name → name ∈ primitiveNames
  complex : x.meaning.kinds = [false,false,true,false,false,false] → IsName x.spelling.toList

theorem System.Sound.spelt_facts {s : System} (hs : s.Sound) (t : TypeHandle) :
    (s.facts t).Spelt := by
  refine ⟨fun name hm => hs.mem_primitiveNames hm,fun hm => ?_⟩
  obtain ⟨-,-,hc,-⟩ := hs.flags hm
  rw [System.facts]
  cases hl : s.layer? t with
  | none =>
    rw [hl] at hc
    cases hc
  | some l =>
    rw [hl] at hc
    exact (hs.layer hl).name hc

namespace TypeFacts
variable {x : TypeFacts}

theorem Spelt.not_isPointer (hx : x.Spelt)
    (hm : x.meaning.kinds = [false,false,true,false,false,false]) (cppPrefix : String) :
    ¬ Cpp.IsPointer (cppPrefix ++ x.spelling) := by
  have hname := hx.complex hm
  obtain ⟨c,cs,-,-,hcons⟩ := hx.complex hm
  intro hstar
  rw [Cpp.IsPointer,String.toList_append,List.getLast?_append,hcons,List.getLast?_cons,
    Option.some_or,← List.getLast?_cons,← hcons] at hstar
  exact hname.star_notMem (List.mem_of_getLast? hstar)

theorem Spelt.isPointer_iff (hx : x.Spelt) (hw : x.meaning.isWritable = true) (cppPrefix : String) :
    Cpp.IsPointer (x.text cppPrefix) ↔ x.meaning = .model ∨ x.meaning = .interface := by
  have hnot := hx.not_isPointer
  cases hm : x.meaning with
  | nothing | map =>
    rw [hm] at hw
    cases hw
  | struct | elsewhere =>
    rw [hm] at hnot
    simpa [text,hm] using hnot rfl cppPrefix
  | primitive name =>
    have hname := hx.primitive name hm
    simp only [primitiveNames,List.mem_cons,List.not_mem_nil,or_false] at hname
    rcases hname with rfl | rfl | rfl | rfl | rfl <;> simp [Cpp.IsPointer,text,hm,Cpp.primitiveText]
  | enumeration plain members =>
    simp only [Cpp.IsPointer,text,hm,String.toList_append,List.getLast?_append]
    simp
  | _ => simp [Cpp.IsPointer,text,hm]

end TypeFacts

theorem Meaning.first?_eq {m : Meaning} {type text : String} (h : m.first? type = some text) :
    (m = .model ∨ m = .interface) ∧ text = "nullptr" ∨ m = .void ∧ text = "" ∨
      m ≠ .model ∧ m ≠ .interface ∧ m ≠ .void ∧ ('(' ∈ text.toList ∨ ':' ∈ text.toList) := by
  cases m with
  | enumeration plain members =>
    obtain ⟨e,-,rfl⟩ := Option.map_eq_some_iff.mp h
    simp
  | nothing | map | elsewhere => cases h
  | _ =>
    obtain rfl := Option.some.inj h
    simp

theorem TypeFacts.Spelt.agreement {x : TypeFacts} (hx : x.Spelt) (hw : x.meaning.isWritable = true)
    (cppPrefix name : String) : Cpp.Agreement x.meaning name (x.text cppPrefix)
      (x.meaning.passed (x.text cppPrefix) name) (x.meaning.first? (x.text cppPrefix)) := by
  have hpointer := hx.isPointer_iff hw cppPrefix
  refine ⟨rfl,hpointer,fun _ h => h,fun text h => ?_,fun text h => ?_⟩
  · rw [hpointer]
    rcases Meaning.first?_eq h with ⟨hm,rfl⟩ | ⟨hm,rfl⟩ | ⟨hmodel,hinterface,-,hmem⟩
    · simp [hm]
    · simp [hm]
    · refine iff_of_false ?_ (by simp [hmodel,hinterface])
      rintro rfl
      revert hmem
      decide
  · rcases Meaning.first?_eq h with ⟨hm,rfl⟩ | ⟨hm,rfl⟩ | ⟨-,-,hvoid,hmem⟩
    · rcases hm with hm | hm <;> simp [hm]
    · simp [hm]
    · refine iff_of_false ?_ hvoid
      rintro rfl
      revert hmem
      decide

theorem System.Sound.isWritable_of_element {s : System} {t : TypeHandle} (hs : s.Sound)
    (h : (s.facts t).element.isWritable = true) : (s.facts t).meaning.isWritable = true := by
  by_cases hm : (s.facts t).meaning = .list
  · rw [hm]
    rfl
  · rw [← hs.element_eq hm]
    exact h

end Model

/-! ## Symbols -/

namespace Inquiry
variable {w : Workspace} {n : Nat} {h : Handle}

/-- The texts of a symbol all of whose types are resolved: there are none, or they agree. -/
theorem texts_agree (hs : (w.systemAt n).Sound) (hh : (w.systemAt n).Resolved h)
    (hplace : h.place.hasType = true) :
    let x := (w.systemAt n).facts ⟨h,0⟩
    let v := Value.entity n (.symbol h)
    (x.element.isWritable = false ∧ ((Cpp.returnType v).act.run w).1 = .error (.unknownKind "") ∧
      ((Cpp.parameterType v).act.run w).1 = .error (.unknownKind "") ∧
      ((Cpp.defaultValue v).act.run w).1.toOption = none) ∨
    ∃ returned parameter, x.element.isWritable = true ∧
      ((Cpp.returnType v).act.run w).1 = .ok returned ∧
      ((Cpp.parameterType v).act.run w).1 = .ok parameter ∧
      Cpp.Agreement x.meaning (w.entityName n (.symbol h)) returned parameter
        ((Cpp.defaultValue v).act.run w).1.toOption := by
  intro x v
  have hnot : ¬ (w.systemAt n).Dangles ((w.systemAt n).element ⟨h,0⟩) :=
    hs.not_dangles_of_resolved hh
  rw [(firm_returnType hs hnot).now,(firm_parameterType hs hnot).now,
    outcome_defaultValue hs hnot hplace,TypeFacts.returned]
  cases hw : x.element.isWritable with
  | false => exact .inl ⟨rfl,rfl,rfl,rfl⟩
  | true =>
    refine .inr ⟨_,_,rfl,rfl,rfl,?_⟩
    exact (hs.spelt_facts ⟨h,0⟩).agreement (hs.isWritable_of_element hw) _ _

/-! ## Signatures -/

/-- The part of a symbol that a call of it passes. -/
inductive Passes : Handle → Section → Prop
  | operation (id : Nat) (i o : String) : Passes ⟨id,.operation i o⟩ .parameters
  | signal (id : Nat) (i s : String) : Passes ⟨id,.signal i s⟩ .parameters
  | struct (id : Nat) (s : String) : Passes ⟨id,.struct s⟩ .fields

theorem run_arguments {part : Section} (hpart : Passes h part) (w : Workspace) (n : Nat) :
    (Cpp.arguments (.entity n (.symbol h))).act.run w =
      (.ok ((w.symbolsIn n (.symbol h) part).map fun a => .entity n (.symbol a)), w) := by
  cases hpart <;> rfl

theorem mapM_ite {α β : Type} (p : α → Bool) (k : α → β) (e : Failure) (as : List α) :
    as.mapM (fun a => if p a then Except.ok (k a) else .error e) =
      if as.all p then .ok (as.map k) else .error e := by
  induction as with
  | nil => rfl
  | cons a as ih =>
    rw [List.mapM_cons,ih]
    cases hp : p a with
    | false => simp [hp]; rfl
    | true => cases hall : as.all p <;> simp [hp,hall] <;> rfl

theorem firm_joinTexts (separator : String) (texts : List String) :
    Firm w (Cpp.joinTexts separator (texts.map .text))
      (.ok (String.intercalate separator texts)) := by
  have hall : texts.mapM (Except.ok : String → Except Failure String) = .ok texts := by
    simpa using mapM_ite (fun _ => true) id .exhausted texts
  have htexts : ∀ f : Value → Inquiry String, (∀ t, f (.text t) = return t) →
      Firm w ((texts.map Value.text).mapM f) (.ok texts) := by
    intro f hf
    rw [← hall]
    exact .mapM fun t _ => by rw [hf]; exact .pure t
  refine Firm.map (htexts _ fun t => ?_) (String.intercalate separator)
  rfl

/-- The texts of all symbols of a row are joined, unless one of them has none. -/
theorem firm_gathered {f : Value → Inquiry Value} {as : List Handle} {p : Handle → Bool}
    {k : Handle → String} {e : Failure} (separator : String) (h :
      ∀ a ∈ as, Firm w (f (.entity n (.symbol a))) (if p a then .ok (.text (k a)) else .error e)) :
    Firm w (do return Value.text (← Cpp.joinTexts separator
      (← (as.map fun a => .entity n (.symbol a)).mapM f)))
      (if as.all p then .ok (.text (String.intercalate separator (as.map k))) else .error e) := by
  have hrow := Firm.mapM h
  rw [mapM_ite] at hrow
  cases hp : as.all p with
  | false =>
    rw [hp] at hrow
    exact hrow.bind (g := fun _ => .error e) nofun
  | true =>
    rw [hp] at hrow
    have hjoined := (firm_joinTexts (w := w) separator (as.map k)).map Value.text
    rw [List.map_map] at hjoined
    refine hrow.bind (f := fun vs => do return Value.text (← Cpp.joinTexts separator vs))
      (g := fun _ => .ok (Value.text (String.intercalate separator (as.map k)))) fun vs hvs => ?_
    obtain rfl := Except.ok.inj hvs
    exact hjoined

section
variable (hs : (w.systemAt n).Sound) {part : Section} (hpart : Passes h part)
  (hresolved : ∀ a ∈ w.symbolsIn n (.symbol h) part, (w.systemAt n).Resolved a)
  (setting : Filter.Setting)
include hs hpart hresolved

theorem outcome_signature :
    ((Filter.apply setting .signature (.entity n (.symbol h)) [] []).act.run w).1 =
      let args := w.symbolsIn n (.symbol h) part
      if args.all fun a => ((w.systemAt n).facts ⟨a,0⟩).element.isWritable then
        .ok (.text (String.intercalate ","
          (args.map fun a => ((w.systemAt n).facts ⟨a,0⟩).text w.cppPrefix)))
      else .error (.unknownKind "") := by
  have hchosen : (Filter.chosen setting .returnType none).act.run w =
    (.ok Filter.returnType.applyPlain, w) := rfl
  have hexpand : (Filter.truth false none).act.run w = (.ok false, w) := rfl
  refine Eq.trans (congrArg Prod.fst ?_)
    (firm_gathered (w := w) (n := n) (f := Filter.returnType.applyPlain) "," fun a ha => ?_).now
  · refine (run_after (a := [none,none]) rfl).trans ?_
    refine (run_after hchosen).trans ?_
    refine (run_after (run_arguments hpart w n)).trans ?_
    exact run_after hexpand
  · have hreturned :=
      (firm_returnType hs (hs.not_dangles_of_resolved (hresolved a ha))).map Value.text
    rwa [TypeFacts.returned,apply_ite (Except.map Value.text)] at hreturned

theorem outcome_parameters :
    ((Filter.apply setting .parameters (.entity n (.symbol h)) [] []).act.run w).1 =
      let args := w.symbolsIn n (.symbol h) part
      if args.all fun a => ((w.systemAt n).facts ⟨a,0⟩).element.isWritable then
        .ok (.text (String.intercalate ", "
          (args.map fun a => ((w.systemAt n).facts ⟨a,0⟩).meaning.passed
          (((w.systemAt n).facts ⟨a,0⟩).text w.cppPrefix) (w.entityName n (.symbol a)))))
      else .error (.unknownKind "") := by
  have hchosen : (Filter.chosen setting .parameterType none).act.run w =
    (.ok Filter.parameterType.applyPlain, w) := rfl
  have hspaces : (Filter.truth true none).act.run w = (.ok true, w) := rfl
  refine Eq.trans (congrArg Prod.fst ?_)
    (firm_gathered (w := w) (n := n) (f := Filter.parameterType.applyPlain) ", " fun a ha => ?_).now
  · refine (run_after (a := [none,none]) rfl).trans ?_
    refine (run_after hchosen).trans ?_
    refine (run_after hspaces).trans ?_
    exact run_after (run_arguments hpart w n)
  · have hpassed :=
      (firm_parameterType hs (hs.not_dangles_of_resolved (hresolved a ha))).map Value.text
    rwa [TypeFacts.returned,apply_ite (Except.map _),apply_ite (Except.map Value.text)] at hpassed

end

end Inquiry

namespace Workspace.Parsed
variable {w : Workspace} {n : Nat} {ids : List Nat}

/-- For a symbol with a type all of whose names are known, the type is written where it is returned
if and only if it is where it is passed, and then these texts and the first value go together. The
signature and the parameters of an operation, a signal or a structure are written for the same
symbols, and their entries name the same types. -/
theorem cpp_texts_agree (hw : w.Parsed n ids) :
    let s := w.systemAt n
    let returned (h : Handle) := ((Cpp.returnType (.entity n (.symbol h))).act.run w).1
    let parameter (h : Handle) := ((Cpp.parameterType (.entity n (.symbol h))).act.run w).1
    let initial (h : Handle) := ((Cpp.defaultValue (.entity n (.symbol h))).act.run w).1
    (∀ h, h.place.hasType = true → s.Resolved h →
      (∃ e e' e'', returned h = .error e ∧ parameter h = .error e' ∧ initial h = .error e'') ∨
      ∃ r p, returned h = .ok r ∧ parameter h = .ok p ∧
        Cpp.Agreement (s.meaning ⟨h,0⟩) (w.entityName n (.symbol h)) r p (initial h).toOption) ∧
    ∀ h part setting, Passes h part → (∀ a ∈ w.symbolsIn n (.symbol h) part, s.Resolved a) →
      let args := w.symbolsIn n (.symbol h) part
      let signature := ((Filter.apply setting .signature (.entity n (.symbol h)) [] []).act.run w).1
      let parameters :=
        ((Filter.apply setting .parameters (.entity n (.symbol h)) [] []).act.run w).1
      (∃ e e' e'', signature = .error e ∧ parameters = .error e' ∧
        ∃ a ∈ args, returned a = .error e'') ∨
      ∃ rs ps, signature = .ok (.text (String.intercalate "," rs)) ∧
        parameters = .ok (.text (String.intercalate ", " ps)) ∧ rs.length = args.length ∧
          ps.length = args.length ∧
        ∀ (i : Nat) a, args[i]? = some a → ∃ r p, rs[i]? = some r ∧ ps[i]? = some p ∧
          returned a = .ok r ∧ parameter a = .ok p ∧
          p = (s.meaning ⟨a,0⟩).passed r (w.entityName n (.symbol a)) := by
  intro s returned parameter initial
  have hs := hw.retains.sound
  refine ⟨fun h hplace hh => ?_,fun h part setting hpart hresolved => ?_⟩
  · rcases texts_agree hs hh hplace with
      ⟨-,hreturned,hparameter,hinitial⟩ | ⟨r,p,-,hreturned,hparameter,hagree⟩
    · refine .inl ?_
      cases hfirst : initial h with
      | error e => exact ⟨_,_,e,hreturned,hparameter,rfl⟩
      | ok text =>
          rw [show ((Cpp.defaultValue (.entity n (.symbol h))).act.run w).1 = .ok text from hfirst]
            at hinitial
          cases hinitial
    · exact .inr ⟨r,p,hreturned,hparameter,hagree⟩
  · intro args signature parameters
    have hsignature : signature = _ := outcome_signature hs hpart hresolved setting
    have hparameters : parameters = _ := outcome_parameters hs hpart hresolved setting
    have hreturned : ∀ a ∈ args, returned a = (s.facts ⟨a,0⟩).returned w.cppPrefix :=
      fun a ha => (firm_returnType hs (hs.not_dangles_of_resolved (hresolved a ha))).now
    have hparameter : ∀ a ∈ args, parameter a = ((s.facts ⟨a,0⟩).returned w.cppPrefix).map
        ((s.meaning ⟨a,0⟩).passed · (w.entityName n (.symbol a))) :=
      fun a ha => (firm_parameterType hs (hs.not_dangles_of_resolved (hresolved a ha))).now
    by_cases hall : (args.all fun a => (s.facts ⟨a,0⟩).element.isWritable) = true
    · refine .inr ⟨_,_,hsignature.trans (if_pos hall),hparameters.trans (if_pos hall),
        List.length_map _,List.length_map _,fun i a ha => ?_⟩
      have hmem := List.mem_of_getElem? ha
      have hwritable := List.all_eq_true.mp hall a hmem
      refine ⟨(s.facts ⟨a,0⟩).text w.cppPrefix,_,?_,?_,?_,?_,rfl⟩
      · rw [List.getElem?_map,ha,Option.map_some]
      · rw [List.getElem?_map,ha,Option.map_some]
        rfl
      · rw [hreturned a hmem,TypeFacts.returned,if_pos hwritable]
      · rw [hparameter a hmem,TypeFacts.returned,if_pos hwritable]
        rfl
    · obtain ⟨a,ha,hwritable⟩ := List.all_eq_false.mp (Bool.not_eq_true _ ▸ hall)
      refine .inl ⟨_,_,.unknownKind "",hsignature.trans (if_neg hall),
        hparameters.trans (if_neg hall),a,ha,?_⟩
      rw [hreturned a ha,TypeFacts.returned,if_neg hwritable]

/-- An operation that takes a model of structures and an enumeration. -/
theorem model_and_enum_agree :
    let text :=
      "module a 1.0 interface I \x7b void f(model<S> q, E e) \x7d struct S \x7b \x7d enum E \x7b A \x7d"
    let w₀ := (Act.newSystem.run {}).2
    let w := ((Act.readSystemText 0 .full text).run w₀).2
    let f := Value.entity 0 (.symbol ⟨0,.operation "I" "f"⟩)
    let signature := ((Filter.apply { known := [] } .signature f [] []).act.run w).1
    let parameters := ((Filter.apply { known := [] } .parameters f [] []).act.run w).1
    w.Parsed 0 [0] ∧ signature = .ok (.text "QAbstractItemModel *,E::EEnum") ∧
      (∃ rs ps, signature = .ok (.text (String.intercalate "," rs)) ∧
        parameters = .ok (.text (String.intercalate ", " ps)) ∧ rs.length = 2 ∧
        ∃ r, rs[0]? = some r ∧ ps[0]? = some (r ++ "q")) ∧
      Cpp.Agreement (.enumeration true ["A"]) "e" "E::EEnum" "E::EEnum e" (some "E::EEnum::A") := by
  intro text w₀ w f signature parameters
  let q : Handle := ⟨0,.operationParameter "I" "f" "q"⟩
  let e : Handle := ⟨0,.operationParameter "I" "f" "e"⟩
  have hread : ((Act.readSystemText 0 .full text).run w₀).1 = .ok () ∧
      signature = .ok (.text "QAbstractItemModel *,E::EEnum") ∧
      w.symbolsIn 0 (.symbol ⟨0,.operation "I" "f"⟩) .parameters = [q,e] ∧
      (w.systemAt 0).Resolved q ∧ (w.systemAt 0).Resolved e ∧
      (w.systemAt 0).meaning ⟨q,0⟩ = .model ∧
        (w.systemAt 0).meaning ⟨e,0⟩ = .enumeration true ["A"] ∧
      w.entityName 0 (.symbol q) = "q" ∧ w.entityName 0 (.symbol e) = "e" ∧
      ((Cpp.returnType (.entity 0 (.symbol e))).act.run w).1 = .ok "E::EEnum" ∧
      ((Cpp.parameterType (.entity 0 (.symbol e))).act.run w).1 = .ok "E::EEnum e" ∧
      ((Cpp.defaultValue (.entity 0 (.symbol e))).act.run w).1 = .ok "E::EEnum::A" := by
        decide +kernel
  obtain ⟨hok,hsignature,hargs,hresolvedq,hresolvede,hmodel,hmeaning,hnameq,hnamee,hreturned,
    hparameter,hinitial⟩ := hread
  have hnew : w₀.Parsed 0 [] := .new (w := {}) rfl
  have hw : w.Parsed 0 [0] := .complete hnew (.readText 0 .full text) (.readText hok)
  obtain ⟨htexts,hentries⟩ := cpp_texts_agree hw
  refine ⟨hw,hsignature,?_,?_⟩
  · have hresolved : ∀ a ∈ w.symbolsIn 0 (.symbol ⟨0, .operation "I" "f"⟩) .parameters,
        (w.systemAt 0).Resolved a := by
      rw [hargs]
      simpa using And.intro hresolvedq hresolvede
    rcases hentries _ .parameters { known := [] } (.operation 0 "I" "f") hresolved with
      ⟨_,_,_,herror,-⟩ | ⟨rs,ps,hrs,hps,hlength,-,hentry⟩
    · cases hsignature.symm.trans herror
    · obtain ⟨r,p,hr,hp,-,-,hpassed⟩ := hentry 0 q (by rw [hargs]; rfl)
      rw [hmodel,hnameq] at hpassed
      exact ⟨rs,ps,hrs,hps,hlength.trans (congrArg List.length hargs),r,hr,
        hp.trans (congrArg some hpassed)⟩
  · rcases htexts e rfl hresolvede with ⟨_,_,_,herror,-⟩ | ⟨r,p,hr,hp,hagree⟩
    · cases hreturned.symm.trans herror
    · obtain rfl := Except.ok.inj (hreturned.symm.trans hr)
      obtain rfl := Except.ok.inj (hparameter.symm.trans hp)
      dsimp only at hagree
      rw [hmeaning,hnamee,hinitial] at hagree
      exact hagree

end Workspace.Parsed

end InterfaceKit
