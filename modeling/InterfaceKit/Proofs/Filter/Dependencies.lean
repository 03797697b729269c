import InterfaceKit.Proofs.Filter.Agreement

/-!
# What a header declares

The header of an interface declares the interfaces and includes the structures that are the types of
the symbols which go by their names in it: its properties, and the operations whose names no
property has. It does not look at parameters. So a type that only parameters have is not declared.
-/
namespace InterfaceKit
open Data Model Inquiry

/-! ## Lines -/

namespace Text
variable {sep : Char} {line : List Char}

theorem splitAt_append (h : sep ∉ line) {text first : List Char}
    {rest : List (List Char)} (htext : splitAt sep text = first :: rest) :
    splitAt sep (line ++ text) = (line ++ first) :: rest := by
  induction line with
  | nil => exact htext
  | cons c line ih =>
    obtain ⟨hc,hline⟩ := not_or.mp (List.mem_cons.not.mp h)
    rw [List.cons_append,splitAt,ih hline]
    exact if_neg (Ne.symm hc)

theorem splitAt_ne_nil (sep : Char) (text : List Char) : splitAt sep text ≠ [] := by
  cases text with
  | nil => simp [splitAt]
  | cons c cs =>
    rw [splitAt]
    split
    · simp
    · split <;> simp

theorem splitAt_append_sep (h : sep ∉ line) (text : List Char) :
    splitAt sep (line ++ sep :: text) = line :: splitAt sep text := by
  obtain ⟨first,rest,htext⟩ := List.exists_cons_of_ne_nil (splitAt_ne_nil sep text)
  have hsep : splitAt sep (sep :: text) = [] :: first :: rest := by simp [splitAt,htext]
  rw [splitAt_append h hsep,List.append_nil,htext]

theorem splitAt_single (h : sep ∉ line) : splitAt sep line = [line] := by
  have hline : splitAt sep (line ++ []) = [line ++ []] := splitAt_append h rfl
  rwa [List.append_nil] at hline

theorem splitAt_intercalate {lines : List (List Char)} (h : ∀ l ∈ lines, sep ∉ l)
    (hne : lines ≠ []) :
    splitAt sep ([sep].intercalate lines) = lines := by
  induction lines with
  | nil => exact absurd rfl hne
  | cons l lines ih =>
    obtain ⟨hl,hlines⟩ := List.forall_mem_cons.mp h
    cases lines with
    | nil => simpa using splitAt_single hl
    | cons l' lines =>
      rw [List.intercalate_cons_cons,List.append_assoc,List.singleton_append,splitAt_append_sep hl,
        ih hlines (List.cons_ne_nil _ _)]

end Text

def Cpp.linesOf (text : String) : List String := (Text.splitAt '\n' text.toList).map String.ofList

theorem Cpp.mem_linesOf_joinLines {lines : List String} (h : ∀ l ∈ lines, '\n' ∉ l.toList)
    {line : String} (hline : line ≠ "") : line ∈ linesOf (joinLines lines) ↔ line ∈ lines := by
  rw [linesOf,joinLines,String.toList_intercalate]
  cases lines with
  | nil => simpa [Text.splitAt] using hline
  | cons l lines =>
    rw [show "\n".toList = ['\n'] from rfl,Text.splitAt_intercalate (by simpa using h) (by simp)]
    simp

/-! ## What the contents of an interface are -/

namespace Model

/-- The symbols of an interface that go by their names. A property hides what else has its name, and
an operation hides a signal. -/
inductive Interface.Shows (i : String) (x : Interface) : Place → Prop
  | property {k : String} {y : Property} (hy : x.properties.get? k = some y) :
      Shows i x (.property i k)
  | operation {k : String} {o : Operation} (ho : x.operations.get? k = some o) (hy :
      x.properties.get? k = none) :
      Shows i x (.operation i k)
  | signal {k : String} {s : Signal} (hs : x.signals.get? k = some s) (hy :
      x.properties.get? k = none)
      (ho : x.operations.get? k = none) : Shows i x (.signal i k)

/-- The symbols of an interface whose types its header needs. -/
inductive Interface.Needs (i : String) (x : Interface) : Place → Prop
  | property {k : String} {y : Property} (hy : x.properties.get? k = some y) :
      Needs i x (.property i k)
  | operation {k : String} {o : Operation} (ho : x.operations.get? k = some o) :
      Needs i x (.operation i k)
  | operationParameter {k p : String} {o : Operation} {a : Parameter} (ho :
      x.operations.get? k = some o)
      (ha : o.parameters.get? p = some a) : Needs i x (.operationParameter i k p)
  | signalParameter {k p : String} {s : Signal} {a : Parameter} (hs : x.signals.get? k = some s)
      (ha : s.parameters.get? p = some a) : Needs i x (.signalParameter i k p)

theorem Module.mem_contents_iff {m : Module} {q p : Place} :
    p ∈ m.contents q ↔ ∃ k, m.content? q k = some p := by
  refine ⟨fun h => ?_,fun ⟨k,hk⟩ => ?_⟩
  · obtain ⟨k,-,hk⟩ := List.mem_filterMap.mp h
    exact ⟨k,hk⟩
  · obtain ⟨t,ht,hlookup⟩ := List.exists_of_findSome?_eq_some hk
    refine List.mem_filterMap.mpr ⟨k,List.mem_eraseDups.mpr ?_,hk⟩
    have hname := List.mem_map_of_mem (f := (·.1)) (Table.mem_of_get? hlookup)
    exact List.mem_flatMap.mpr ⟨t,List.mem_reverse.mpr ht,hname⟩

theorem Module.mem_contents_interface {m : Module} {i : String} {x : Interface}
    (hx : m.interfaces.get? i = some x) {p : Place} :
    p ∈ m.contents (.interface i) ↔ x.Shows i p := by
  rw [mem_contents_iff]
  simp only [content?,contentTables,hx,List.findSome?_cons,List.findSome?_nil,lookup_placesIn]
  refine ⟨fun h => ?_,fun h => ?_⟩
  · obtain ⟨k,hk⟩ := h
    cases hy : x.properties.get? k with
    | some y =>
      rw [hy] at hk
      obtain rfl := Option.some.inj hk
      exact .property hy
    | none =>
      cases ho : x.operations.get? k with
      | some o =>
        rw [hy,ho] at hk
        obtain rfl := Option.some.inj hk
        exact .operation ho hy
      | none =>
        cases hs : x.signals.get? k with
        | some s =>
          rw [hy,ho,hs] at hk
          obtain rfl := Option.some.inj hk
          exact .signal hs hy ho
        | none =>
          rw [hy,ho,hs] at hk
          cases hk
  · cases h with
    | @property k y hy => exact ⟨k,by rw [hy]; rfl⟩
    | @operation k o ho hy => exact ⟨k,by rw [hy,ho]; rfl⟩
    | @signal k s hs hy ho => exact ⟨k,by rw [hy,ho,hs]; rfl⟩

/-- The lines that a header has for a type. -/
def TypeFacts.declarations (x : TypeFacts) : List String :=
  match x.meaning with
  | .interface => ["class " ++ x.spelling ++ ";"]
  | .struct => ["#include \"" ++ x.spelling ++ ".h\""]
  | _ => []

end Model

namespace Inquiry
variable {w : Workspace} {n : Nat} {h : Handle}

def declared (n : Nat) (t : TypeHandle) : Inquiry (List String) := do
  let l ← Inquiry.layer n t
  if l.isPrimitive then return []
  let ahead := if ← Inquiry.isInterface n t then ["class " ++ l.name ++ ";"] else []
  let included := if ← Inquiry.isStruct n t then ["#include \"" ++ l.name ++ ".h\""] else []
  return ahead ++ included

theorem headerDependencies_eq (v : Value) : Cpp.headerDependencies v = do
    return Cpp.joinLines (← (← Cpp.dependencies v).mapM fun x => declared x.1 x.2).flatten := rfl

theorem Consults.declared {u : TypeHandle} (hs : (w.systemAt n).Sound)
    (hc : (w.bareLayer n u).isComplex = true) :
    Consults w n u (declared n u) := by
  obtain ⟨-,-,-,hprimitive⟩ := Consults.complex_layer hs hc
  refine .after_layer rfl (fun _ => rfl) ?_
  simp only [hprimitive]
  exact (isInterface hc).bind

theorem gives_declared {t : TypeHandle} (hs : (w.systemAt n).Sound) (ha : w.Answered n t) :
    Gives w (declared n t) (.ok ((w.systemAt n).facts t).declarations) := by
  refine .after (run_layer w n t) ?_
  rw [TypeFacts.declarations]
  cases hm : (w.systemAt n).meaning t <;>
    obtain ⟨-,hprimitive,-⟩ := hs.flags (congrArg Meaning.kinds hm) <;>
    simp only [hprimitive,System.facts,hm]
  case primitive => rfl
  all_goals
    refine .after (run_isInterface ha) (.after (run_isStruct ha) ?_)
    simp only [hm]
    rfl

theorem firm_declared (hs : (w.systemAt n).Sound) (hh : (w.systemAt n).Resolved h) :
    Firm w (declared n ⟨h,0⟩) (.ok ((w.systemAt n).facts ⟨h,0⟩).declarations) := by
  refine fun _ => outcome_of_answered (P := (· = _)) hs (u := ⟨h,0⟩) (hs.not_dangles_of_resolved hh)
    (fun v hv hc => .declared (hs.resolves (hv.resolves n)) hc) fun v hv ha => ?_
  rw [gives_declared (hs.resolves (hv.resolves n)) ha,hv.facts hs (hs.not_dangles_of_resolved hh)]

theorem run_newList_elements {α : Type} (items : List Value) (f : List Value → Inquiry α) :
    ∃ v, w.Grows v ∧ (newList items >>= fun x => elements x >>= f).act.run w =
      (f items).act.run v := by
  let v : Workspace := { w with store := (w.store.alloc (.list items)).2 }
  have hcell : v.store.elements (.ref w.store.cells.size) = .ok items := by
    have hget : v.store.get? w.store.cells.size = some (.list items) := Array.getElem?_push_size
    rw [Store.elements,hget]
  have hitems : (elements (.ref w.store.cells.size)).act.run v = (.ok items, v) := by
    change (Inquiry.lift (v.store.elements (.ref w.store.cells.size))).act.run v = _
    rw [hcell]
    rfl
  refine ⟨v,.alloc w _,?_⟩
  rw [act_bind,run_bind,show (newList items).act.run w = (.ok (.ref w.store.cells.size), v) from rfl]
  exact run_after hitems

theorem exists_run_dependencies {id : Nat} {i : String} {m : Module}
    (hm : (w.systemAt n).module? id = some m) :
    ∃ v, w.Grows v ∧ (Cpp.dependencies (.entity n (.symbol ⟨id,.interface i⟩))).act.run w =
      (.ok ((m.contents (.interface i)).map fun p => (n, ⟨⟨id,p⟩,0⟩)), v) := by
  let items := (m.contents (.interface i)).map fun p => Value.type n ⟨⟨id,p⟩,0⟩
  have hattribute : (attributeOf (.entity n (.symbol ⟨id,.interface i⟩)) "dependencies").act.run w =
      (newList items).act.run w := by
    rw [attributeOf,symbolAttribute,act_bind,run_bind,Workspace.run_moduleOf,hm]
    rfl
  have hitems : ∀ f : List Value → Inquiry (List (Nat × TypeHandle)), ∃ v, w.Grows v ∧
      (attributeOf (.entity n (.symbol ⟨id,.interface i⟩)) "dependencies" >>= fun x =>
        elements x >>= f).act.run w =
        (f items).act.run v := by
    intro f
    obtain ⟨v,hv,hrun⟩ := run_newList_elements (w := w) items f
    rw [act_bind,run_bind,← hattribute] at hrun
    exact ⟨v,hv,hrun⟩
  refine (hitems _).imp fun v hv => ⟨hv.1,hv.2.trans ?_⟩
  rw [List.filterMap_map]
  exact congrArg (fun types => (Except.ok types, v)) (congrFun List.filterMap_eq_map _)

end Inquiry

/-! ## Headers -/

namespace Model.TypeFacts
variable {x : TypeFacts}

theorem include_mem_declarations {name : String} :
    "#include \"" ++ name ++ ".h\"" ∈ x.declarations ↔ x.meaning = .struct ∧ x.spelling = name := by
  rw [declarations]
  cases x.meaning with
  | struct =>
    simp only [List.mem_singleton,String.append_left_inj,String.append_right_inj,eq_comm,true_and]
  | interface => simp [← String.toList_inj]
  | _ => simp

theorem class_mem_declarations {name : String} :
    "class " ++ name ++ ";" ∈ x.declarations ↔ x.meaning = .interface ∧ x.spelling = name := by
  rw [declarations]
  cases x.meaning with
  | struct => simp [← String.toList_inj]
  | interface =>
    simp only [List.mem_singleton,String.append_left_inj,String.append_right_inj,eq_comm,true_and]
  | _ => simp

theorem Spelt.break_notMem (hx : x.Spelt) : ∀ l ∈ x.declarations, '\n' ∉ l.toList := by
  have hname : x.meaning.kinds = Meaning.struct.kinds → '\n' ∉ x.spelling.toList := by
    intro hm hmem
    exact ((hx.complex hm).inLine _ hmem).2 rfl
  rw [declarations]
  cases hm : x.meaning with
  | interface => simpa using hname (by rw [hm]; rfl)
  | struct => simpa using hname (by rw [hm])
  | _ => exact nofun

end Model.TypeFacts

/-- The text has the line that a header needs for a type. -/
def Cpp.Declares (text : String) (x : TypeFacts) : Prop :=
  (x.meaning = .struct → "#include \"" ++ x.spelling ++ ".h\"" ∈ linesOf text) ∧
    (x.meaning = .interface → "class " ++ x.spelling ++ ";" ∈ linesOf text)

namespace Workspace.Parsed
variable {w : Workspace} {n id : Nat} {ids : List Nat} {i : String} {m : Module} {x : Interface}

/-- There is a header, and its lines are those of the types of the symbols that go by their
names. -/
theorem exists_header (hw : w.Parsed n ids) (hm : (w.systemAt n).module? id = some m)
    (hx : m.interfaces.get? i = some x)
    (hresolved : ∀ p, x.Shows i p → (w.systemAt n).Resolved ⟨id,p⟩) :
    ∃ text, ((Cpp.headerDependencies (.entity n (.symbol ⟨id,.interface i⟩))).act.run w).1 =
      .ok text ∧
      ∀ line ≠ "", line ∈ Cpp.linesOf text ↔
        ∃ p, x.Shows i p ∧ line ∈ ((w.systemAt n).facts ⟨⟨id,p⟩,0⟩).declarations := by
  have hs := hw.retains.sound
  obtain ⟨v,hv,hrun⟩ := exists_run_dependencies (i := i) hm
  let k (p : Place) := ((w.systemAt n).facts ⟨⟨id,p⟩,0⟩).declarations
  have hrow : Firm w
    (((m.contents (.interface i)).map fun p => (n, ⟨⟨id,p⟩,0⟩)).mapM fun t => declared t.1 t.2)
      ((m.contents (.interface i)).mapM fun p => .ok (k p)) :=
    .mapM fun p hp => firm_declared hs (hresolved p ((Module.mem_contents_interface hx).mp hp))
  have hall : (m.contents (.interface i)).mapM (fun p => (.ok (k p) : Except Failure _)) =
      .ok ((m.contents (.interface i)).map k) := by
    simpa using mapM_ite (fun _ => true) k .exhausted (m.contents (.interface i))
  have htext := (hrow.map fun lines => Cpp.joinLines lines.flatten) v hv
  rw [hall] at htext
  refine ⟨Cpp.joinLines ((m.contents (.interface i)).map k).flatten,?_,fun line hline => ?_⟩
  · rw [headerDependencies_eq,act_bind,run_bind,hrun]
    exact htext
  · have hmem : ∀ l, l ∈ ((m.contents (.interface i)).map k).flatten ↔ ∃ p, x.Shows i p ∧
        l ∈ k p := by
      intro l
      rw [← List.flatMap_def,List.mem_flatMap]
      exact exists_congr fun p => and_congr_left' (Module.mem_contents_interface hx)
    rw [Cpp.mem_linesOf_joinLines (fun l hl => ?_) hline,hmem]
    obtain ⟨p,-,hp⟩ := (hmem l).mp hl
    exact (hs.spelt_facts ⟨⟨id,p⟩,0⟩).break_notMem l hp

/-- A header includes the structures and declares the interfaces that are types of the symbols which
go by their names. So it has all that it needs if and only if each of the types that it needs is one
of these. -/
theorem header_declares_iff (hw : w.Parsed n ids) (hm : (w.systemAt n).module? id = some m)
    (hx : m.interfaces.get? i = some x)
    (hresolved : ∀ p, x.Shows i p → (w.systemAt n).Resolved ⟨id,p⟩) :
    let type (p : Place) := (w.systemAt n).facts ⟨⟨id,p⟩,0⟩
    ∃ text, ((Cpp.headerDependencies (.entity n (.symbol ⟨id,.interface i⟩))).act.run w).1 =
      .ok text ∧
      (∀ name : String, "#include \"" ++ name ++ ".h\"" ∈ Cpp.linesOf text ↔
        ∃ p, x.Shows i p ∧ (type p).meaning = .struct ∧ (type p).spelling = name) ∧
      (∀ name : String, "class " ++ name ++ ";" ∈ Cpp.linesOf text ↔
        ∃ p, x.Shows i p ∧ (type p).meaning = .interface ∧ (type p).spelling = name) ∧
      ((∀ p, x.Needs i p → Cpp.Declares text (type p)) ↔
        ∀ p, x.Needs i p → (type p).meaning = .struct ∨ (type p).meaning = .interface →
          ∃ q, x.Shows i q ∧ (type q).meaning = (type p).meaning ∧
            (type q).spelling = (type p).spelling) := by
  intro type
  obtain ⟨text,htext,hlines⟩ := hw.exists_header hm hx hresolved
  have hinclude : ∀ name : String, "#include \"" ++ name ++ ".h\"" ∈ Cpp.linesOf text ↔
      ∃ p, x.Shows i p ∧ (type p).meaning = .struct ∧ (type p).spelling = name := by
    intro name
    rw [hlines _ (by simp [← String.toList_inj])]
    simp only [TypeFacts.include_mem_declarations]
    rfl
  have hclass : ∀ name : String, "class " ++ name ++ ";" ∈ Cpp.linesOf text ↔
      ∃ p, x.Shows i p ∧ (type p).meaning = .interface ∧ (type p).spelling = name := by
    intro name
    rw [hlines _ (by simp [← String.toList_inj])]
    simp only [TypeFacts.class_mem_declarations]
    rfl
  refine ⟨text,htext,hinclude,hclass,forall₂_congr fun p _ => ?_⟩
  rw [Cpp.Declares,hinclude,hclass]
  constructor
  · rintro ⟨hstruct,hinterface⟩ (hp | hp)
    · rw [hp]
      exact hstruct hp
    · rw [hp]
      exact hinterface hp
  · intro h
    exact ⟨fun hp => hp ▸ h (.inl hp),fun hp => hp ▸ h (.inr hp)⟩

/-- A structure that is the type of a parameter only. -/
theorem parameter_not_included :
    let text := "module a 1.0 struct S \x7b \x7d interface I \x7b void f(S s) \x7d"
    let w := ((Act.readSystemText 0 .full text).run (Act.newSystem.run {}).2).2
    let parameter := (w.systemAt 0).facts ⟨⟨0,.operationParameter "I" "f" "s"⟩,0⟩
    w.Parsed 0 [] ∧ parameter.meaning = .struct ∧ parameter.spelling = "S" ∧
      ∃ header, ((Cpp.headerDependencies (.entity 0 (.symbol ⟨0,.interface "I"⟩))).act.run w).1 =
        .ok header ∧
        "#include \"S.h\"" ∉ Cpp.linesOf header := by
  intro text w parameter
  have hread : (w.systemAt 0).Resolved ⟨0,.operation "I" "f"⟩ ∧
      ((w.systemAt 0).module? 0).map (·.contents (.interface "I")) = some [.operation "I" "f"] ∧
      (((w.systemAt 0).module? 0).bind (·.interfaces.get? "I")).isSome = true ∧
      ((w.systemAt 0).facts ⟨⟨0,.operation "I" "f"⟩,0⟩).meaning = .void ∧
        parameter.meaning = .struct ∧
      parameter.spelling = "S" := by decide +kernel
  obtain ⟨hresolved,hcontents,hthere,hvoid,hstruct,hspelling⟩ := hread
  obtain ⟨m,hm,hcontents⟩ := Option.map_eq_some_iff.mp hcontents
  rw [hm,Option.bind_some] at hthere
  obtain ⟨x,hx⟩ := Option.isSome_iff_exists.mp hthere
  have hshown : ∀ p, x.Shows "I" p → p = .operation "I" "f" := by
    intro p hp
    have hmem := (Module.mem_contents_interface hx).mpr hp
    rw [hcontents] at hmem
    exact List.mem_singleton.mp hmem
  have hw : w.Parsed 0 [] := .revise (.new (w := {}) rfl) (.readText 0 .full text)
  obtain ⟨header,hheader,hinclude,-⟩ := header_declares_iff hw hm hx fun p hp =>
    hshown p hp ▸ hresolved
  refine ⟨hw,hstruct,hspelling,header,hheader,fun hmem => ?_⟩
  obtain ⟨p,hp,hmeaning,-⟩ := (hinclude "S").mp hmem
  obtain rfl := hshown p hp
  rw [hvoid] at hmeaning
  cases hmeaning

end Workspace.Parsed

end InterfaceKit
