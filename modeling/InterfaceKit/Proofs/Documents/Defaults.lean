import InterfaceKit.Proofs.Documents.Numbered
import InterfaceKit.Proofs.Model.DefaultValues

/-!
# Texts and their default values

What a text that is read to its end makes of the default values that it gives. Without a backslash
the value is the text between the quotes with each byte of its UTF-8 form taken for a character. So
it is this text if all of it is ASCII, and otherwise it is longer.
-/
namespace InterfaceKit
open Lexical Grammar

namespace Text

/-- The bytes of a text, each one taken for the character of its number. -/
def bytewise (u : List Char) : List Char := (utf8Encode u).map fun b => Char.ofNat b.toNat

theorem length_utf8Char (c : Char) :
    1 ≤ (utf8Char c).length ∧ (128 ≤ c.toNat → 2 ≤ (utf8Char c).length) := by
  by_cases hc : c.toNat < 128
  · rw [utf8Char_of_lt hc]
    exact ⟨Nat.le_refl 1,fun h => absurd hc (Nat.not_lt.mpr h)⟩
  · have hlength : 2 ≤ (utf8Char c).length := by
      simp only [utf8Char,if_neg hc]
      split
      · exact Nat.le_refl 2
      · split <;> simp
    exact ⟨Nat.le_of_succ_le hlength,fun _ => hlength⟩

theorem length_le_utf8Encode (u : List Char) : u.length ≤ (utf8Encode u).length := by
  induction u with
  | nil => exact Nat.le_refl 0
  | cons c u ih =>
    have hc := (length_utf8Char c).1
    simp only [utf8Encode,List.flatMap_cons,List.length_append,List.length_cons] at ih ⊢
    omega

theorem bytewise_eq_iff {u : List Char} : bytewise u = u ↔ ∀ c ∈ u, c.toNat < 128 := by
  constructor
  · intro h c hc
    have hlength : (utf8Encode u).length = u.length := by
      simpa [bytewise] using congrArg List.length h
    by_contra hlarge
    obtain ⟨a,b,rfl⟩ := List.append_of_mem hc
    have htwo := (length_utf8Char c).2 (Nat.not_lt.mp hlarge)
    have ha := length_le_utf8Encode a
    have hb := length_le_utf8Encode b
    simp only [utf8Encode,List.flatMap_append,List.flatMap_cons,List.length_append,
      List.length_cons] at hlength ha hb
    omega
  · intro h
    have hcodes :
        (utf8Encode u).map (Char.ofNat ∘ UInt8.toNat) = u.map (Char.ofNat ∘ Char.toNat) := by
      rw [← List.map_map,utf8Encode_ascii h,List.map_map]
    exact hcodes.trans (by simp [Function.comp_def,Char.ofNat_toNat])

end Text

namespace Lexical

theorem unescaped_eq_self {u : List Char} (h : '\\' ∉ u) : unescaped u = u := by
  induction u with
  | nil => rfl
  | cons c u ih =>
    rw [List.mem_cons,not_or] at h
    rw [unescaped_plain (Ne.symm h.1),ih h.2]

end Lexical

/-! ## Where default values are written -/

namespace Grammar
open Model.Drafting

namespace Tree

/-- The nodes that are reached by going down along some rules. -/
def descend : List Rule → Tree → List Tree
  | [], t => [t]
  | r :: rs, t => (t.nodesOfRule r).flatMap (descend rs)

/-- The definitions by one rule, each with its name and with the parts that are found along other
rules, their names and the tokens of their default values. -/
def defaults (outer : Rule) (inner : List Rule) (t : Tree) :
    List (String × List (String × Option Token)) :=
  (t.descend [.definition,outer]).map fun x =>
    (nameOf x, (x.descend inner).map fun y => (nameOf y, y.token? .string))

theorem tokens_descend {rs : List Rule} {t u : Tree} (h : u ∈ t.descend rs) :
    u.tokens ⊆ t.tokens := by
  induction rs generalizing t with
  | nil =>
    obtain rfl := List.mem_singleton.mp h
    exact List.Subset.refl _
  | cons r rs ih =>
    obtain ⟨v,hv,hu⟩ := List.mem_flatMap.mp h
    refine List.Subset.trans (ih hu) ?_
    cases t with
    | leaf x => cases hv
    | node q ts =>
      intro x hx
      rw [tokens_node]
      exact mem_tokensOf.mpr ⟨v,List.mem_of_mem_filter hv,hx⟩

theorem mem_tokens_of_defaults {outer : Rule} {inner : List Rule} {t : Tree} {name part : String}
    {ps : List (String × Option Token)} {v : Token}
    (hname : (t.defaults outer inner).reverse.lookup name = some ps)
    (hpart : ps.reverse.lookup part = some (some v)) : v ∈ t.tokens := by
  obtain ⟨x,hx,he⟩ := List.mem_map.mp (List.mem_reverse.mp (Model.Table.mem_of_get? hname))
  obtain ⟨-,rfl⟩ := Prod.mk.inj he
  obtain ⟨y,hy,he⟩ := List.mem_map.mp (List.mem_reverse.mp (Model.Table.mem_of_get? hpart))
  have htoken : y.token? .string = some v := (Prod.mk.inj he).2
  cases y with
  | leaf _ => cases htoken
  | node r ts =>
    have hmem := (mem_tokensOf_of_mem_wordsIn (List.mem_of_head? htoken)).1
    exact tokens_descend hx (tokens_descend hy (by rwa [tokens_node]))

end Tree

namespace Phrase

def Property.written (p : Property) : String × Option Token :=
  (p.name.val.text, p.value.map (·.2.val))

def Field.written (f : Field) : String × Option Token := (f.name.val.text, f.value.map (·.2.val))

theorem Property.written_tree (p : Property) :
    (nameOf (.node .property p.parts), (Tree.node .property p.parts).token? .string) =
      p.written := by
  obtain ⟨-,hstring,hname,-⟩ := words_property p
  simp only [nameOf,textOf,Tree.token?_node,hstring,hname,Property.written]
  cases p.value <;> rfl

theorem Field.written_tree (f : Field) :
    (nameOf (.node .structField f.parts), (Tree.node .structField f.parts).token? .string) =
      f.written := by
  have hwords : wordsIn .identifier f.parts = [f.name.val] ∧
      wordsIn .string f.parts = f.value.toList.map (·.2.val) := by
    simp [Field.parts]
  simp only [nameOf,textOf,Tree.token?_node,hwords,Field.written]
  cases f.value <;> rfl

theorem Document.descend_definition {α : Type} (doc : Document) (r : Rule)
    (pick : Definition → Option α) (parts : α → List Tree)
    (h : ∀ x, nodesIn r [Definition.inside x] = ((pick x).map fun a => .node r (parts a)).toList) :
    doc.tree.descend [.definition,r] = (doc.definitions.filterMap pick).map fun a =>
    .node r (parts a) := by
  rw [List.map_filterMap,List.filterMap_eq_flatMap_toList]
  simp [Tree.descend,doc.nodesOfRule_definition,List.flatMap_map,Tree.nodesOfRule_node,h]

theorem Interface.descend_property (i : Interface) :
    (Tree.node .interface i.parts).descend [.interfaceMember,.property] =
      (i.members.filterMap Member.property?).map fun p => .node .property p.parts := by
  have hmembers : nodesIn .interfaceMember i.parts = i.members.map fun m =>
      .node .interfaceMember [m.inside] := by
    cases i with
    | mk a w n b op ms cl sc => cases b <;> simp [Interface.parts]
  have hinside : ∀ m : Member, nodesIn .property [m.inside] =
      (m.property?.map fun p => .node .property p.parts).toList := by
    intro m
    cases m <;> simp [Member.inside,Member.property?]
  rw [List.map_filterMap,List.filterMap_eq_flatMap_toList]
  simp [Tree.descend,Tree.nodesOfRule_node,hmembers,hinside,List.flatMap_map]

theorem Document.defaults_interface (doc : Document) :
    doc.tree.defaults .interface [.interfaceMember,.property] =
    (doc.definitions.filterMap Definition.interface?).map fun i =>
      (i.name.val.text, (i.members.filterMap Member.property?).map Property.written) := by
  have hdefinitions := doc.descend_definition .interface Definition.interface? Interface.parts
    fun x => by cases x <;> simp [Definition.inside,Definition.interface?]
  simp only [Tree.defaults,hdefinitions,List.map_map,Function.comp_def,nameOf_interface,
    Interface.descend_property,Property.written_tree]

theorem Document.defaults_struct (doc : Document) : doc.tree.defaults .struct [.structField] =
    (doc.definitions.filterMap Definition.struct?).map fun s =>
    (s.name.val.text, s.fields.map Field.written) := by
  have hdefinitions := doc.descend_definition .struct Definition.struct? Struct.parts
    fun x => by cases x <;> simp [Definition.inside,Definition.struct?]
  have hfields : ∀ s : Struct, (Tree.node .struct s.parts).descend [.structField] =
      s.fields.map fun f => .node .structField f.parts := by
    intro s
    simp [Tree.descend,Tree.nodesOfRule_node,Struct.parts]
  simp only [Tree.defaults,hdefinitions,List.map_map,Function.comp_def,nameOf_struct,hfields,
    Field.written_tree]

end Phrase

end Grammar

namespace Model
open Text

/-! ## What is declared last -/

namespace Table
variable {α β γ δ : Type}

theorem get?_declared (ds : List (String × α)) (n : String) :
    (declared ds).get? n = ds.reverse.lookup n := by
  induction ds using List.reverseRecOn with
  | nil => rfl
  | append_singleton ds d ih =>
    rw [declared_append,List.reverse_append,List.reverse_singleton,List.singleton_append,
      List.lookup_cons]
    by_cases hn : n = d.1
    · rw [hn,get?_set,beq_self_eq_true]
    · rw [get?_set_of_ne hn,ih,beq_false_of_ne hn]

theorem lookup_map (l : List γ) (f : γ → String × β) (n : String) :
    (l.map f).lookup n = (l.find? fun d => n == (f d).1).map fun d => (f d).2 := by
  induction l with
  | nil => rfl
  | cons d l ih =>
    rw [List.map_cons,List.lookup_cons,List.find?_cons,ih]
    cases n == (f d).1 <;> rfl

/-- A table shows the last declaration of each name. -/
theorem get?_of_declared {A : α → α → Prop} {t : Table α} {ds : List γ} {entry : γ → String × α}
    (ht : t.Like A (declared (ds.map entry))) {f : γ → String × δ} {n : String} {b : δ}
    (h : (ds.map f).reverse.lookup n = some b) (hf : ∀ d, (f d).1 = (entry d).1) :
    ∃ d a, t.get? n = some a ∧ A a (entry d).2 ∧ (f d).2 = b := by
  rw [← List.map_reverse,lookup_map] at h
  obtain ⟨d,hd,rfl⟩ := Option.map_eq_some_iff.mp h
  have hget : (declared (ds.map entry)).get? n = some (entry d).2 := by
    rw [get?_declared,← List.map_reverse,lookup_map]
    simp only [hf] at hd
    rw [hd,Option.map_some]
  obtain ⟨a,ha,hlike⟩ := ht.exists_get? hget
  exact ⟨d,a,ha,hlike,rfl⟩

end Table

/-- What the value of a symbol is for the default that is written, if there is no backslash in it:
the bytes between the quotes, which are the text itself only if it is ASCII. -/
def ShowsDefault (value : Option String) : Option Token → Prop
  | none => value = none
  | some v => '\\' ∉ v.content → value = some (String.ofList (bytewise v.content)) ∧
    (value = some (String.ofList v.content) ↔ ∀ c ∈ v.content, c.toNat < 128)

theorem showsDefault {d : Phrase.Default} {o : Option Token} (ho : d.map (·.2.val) = o)
    (h : ∀ v, o = some v → v.kind.Spells v.text.toList ∧ v.hasSurrogate = false) :
    ShowsDefault (Phrase.defaultText d) o := by
  subst ho
  cases d with
  | none => rfl
  | some p =>
    intro hslash
    obtain ⟨hspells,hsurrogate⟩ := h _ rfl
    have hdecode := Token.decodeText_content p.2.property hspells
    rw [unescaped_eq_self hslash] at hdecode
    have hvalue : Phrase.defaultText (some p) = some (String.ofList (bytewise p.2.val.content)) := by
      change Phrase.unquoted p.2.val = _
      unfold Phrase.unquoted
      rw [hsurrogate,show (p.2.val.text.toList.drop 1).dropLast = p.2.val.content from rfl,hdecode]
      simp [byteCodes,bytewise,List.map_map,Function.comp_def]
    refine ⟨hvalue,?_⟩
    rw [hvalue,Option.some.injEq,String.ofList_inj,bytewise_eq_iff]

end Model

open Model Text

/-- The last property of a name in the last interface of a name has the default that is written
there, byte by byte, and so has the last field of a name in the last structure of a name. -/
theorem readSource_defaults {n : Nat} {profile : Profile} {document : String} {text : List Char}
    {w : Workspace} (hok : ((Act.readSource n profile document text).run w).1 = .ok ()) :
    ∃ t c m, parse .document (Source.ofText text) = .parsed t c ∧
      ((Act.readSource n profile document text).run w).2.systems =
        w.systems.modify n (fun s => (s.register m).2) ∧
      (∀ i ps, (t.defaults .interface [.interfaceMember,.property]).reverse.lookup i = some ps →
        ∃ x, m.interfaces.get? i = some x ∧ ∀ p v, ps.reverse.lookup p = some v →
          ∃ y, x.properties.get? p = some y ∧ ShowsDefault y.value v) ∧
      ∀ s fs, (t.defaults .struct [.structField]).reverse.lookup s = some fs →
        ∃ x, m.structs.get? s = some x ∧ ∀ f v, fs.reverse.lookup f = some v →
          ∃ y, x.fields.get? f = some y ∧ ShowsDefault y.value v := by
  obtain ⟨doc,c,d,m,hparse,hspells,hd,hm,hsystems⟩ := readSource_ok hok
  have hread : ∀ u ∈ doc.tree.tokens, u.kind.Spells u.text.toList ∧ u.hasSurrogate = false :=
    fun u hu =>
    ⟨hspells u hu,Source.not_hasSurrogate (Source.mem_of_parsed hparse hu)⟩
  obtain ⟨m',hm',hlike⟩ := ofDocument_describes hd
  obtain rfl := Option.some.inj (hm.symm.trans hm')
  refine ⟨doc.tree,c,m,hparse,hsystems,?_,?_⟩
  · intro i ps hi
    have hi' := hi
    rw [doc.defaults_interface] at hi'
    obtain ⟨j,x,hx,hdescribes,rfl⟩ := Table.get?_of_declared hlike.interfaces hi' fun _ => rfl
    refine ⟨x,hx,fun p v hp => ?_⟩
    obtain ⟨q,y,hy,hproperty,hv⟩ := Table.get?_of_declared hdescribes.properties hp fun _ => rfl
    refine ⟨y,hy,hproperty.value ▸ showsDefault hv ?_⟩
    rintro u rfl
    exact hread u (Tree.mem_tokens_of_defaults hi hp)
  · intro s fs hs
    have hs' := hs
    rw [doc.defaults_struct] at hs'
    obtain ⟨j,x,hx,hdescribes,rfl⟩ := Table.get?_of_declared hlike.structs hs' fun _ => rfl
    refine ⟨x,hx,fun f v hf => ?_⟩
    obtain ⟨q,y,hy,hfield,hv⟩ := Table.get?_of_declared hdescribes.fields hf fun _ => rfl
    refine ⟨y,hy,hfield.value ▸ showsDefault hv ?_⟩
    rintro u rfl
    exact hread u (Tree.mem_tokens_of_defaults hs hf)

/-- A letter beyond ASCII becomes two letters, in a property and in a field. -/
theorem accented_default_altered :
    let text :=
      "module m 1.0 interface I \x7b string p = 'é' \x7d struct S \x7b string f = \"né\" string g = 'n' \x7d"
    let w : Workspace := { systems := [{}] }
    let act := Act.readSource 0 .full "<TEXT>" text.toList
    (act.run w).1 = .ok () ∧ ∃ m x p y f g,
      (act.run w).2.systems = w.systems.modify 0 (fun s => (s.register m).2) ∧
      m.interfaces.get? "I" = some x ∧ x.properties.get? "p" = some p ∧ p.value = some "Ã©" ∧
      m.structs.get? "S" = some y ∧ y.fields.get? "f" = some f ∧ f.value = some "nÃ©" ∧
      y.fields.get? "g" = some g ∧ g.value = some "n" := by
  intro text w act
  let p₀ : Token := ⟨.string,"'é'",⟨1,38⟩,false⟩
  let f₀ : Token := ⟨.string,"\"né\"",⟨1,66⟩,false⟩
  let g₀ : Token := ⟨.string,"'n'",⟨1,82⟩,false⟩
  obtain ⟨hok,hread⟩ : (act.run w).1 = .ok () ∧
    (match parse .document (Source.ofText text.toList) with
      | .parsed t _ =>
        [t.defaults .interface [.interfaceMember,.property],t.defaults .struct [.structField]]
      | .failed _ _ =>
        []) = [[("I", [("p", some p₀)])],[("S", [("f", some f₀),("g", some g₀)])]] := by
    decide +kernel
  obtain ⟨t,c,m,hparse,hsystems,hinterfaces,hstructs⟩ := readSource_defaults hok
  rw [hparse] at hread
  obtain ⟨hI,hS⟩ := List.cons.inj hread
  obtain ⟨x,hx,hproperties⟩ := hinterfaces "I" _ (by rw [hI]; rfl)
  obtain ⟨p,hp,hp'⟩ := hproperties "p" _ rfl
  obtain ⟨y,hy,hfields⟩ := hstructs "S" _ (by rw [(List.cons.inj hS).1]; rfl)
  obtain ⟨f,hf,hf'⟩ := hfields "f" _ rfl
  obtain ⟨g,hg,hg'⟩ := hfields "g" _ rfl
  obtain ⟨hplain,hbytes⟩ : (∀ v ∈ [p₀, f₀,g₀], '\\' ∉ v.content) ∧
      [p₀,f₀,g₀].map (fun v => String.ofList (bytewise v.content)) = ["Ã©","nÃ©","n"] := by
        decide +kernel
  simp only [List.map_cons,List.map_nil,List.cons.injEq,and_true] at hbytes
  refine ⟨hok,m,x,p,y,f,g,hsystems,hx,hp,?_,hy,hf,?_,hg,?_⟩
  · rw [(hp' (hplain p₀ (by simp))).1,hbytes.1]
  · rw [(hf' (hplain f₀ (by simp))).1,hbytes.2.1]
  · rw [(hg' (hplain g₀ (by simp))).1,hbytes.2.2]

end InterfaceKit
