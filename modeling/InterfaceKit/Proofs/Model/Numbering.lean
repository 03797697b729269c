import InterfaceKit.Proofs.Grammar.Naming
import InterfaceKit.Proofs.Model.DocumentWalk
import Mathlib.Data.Nat.Digits.Defs

/-!
# The numbers of enumerations

A member of an enumeration that is written with an integer has the number that the integer denotes.
A member without one has its position for a number, or in a flag the bit at its position. Numbers
that stand elsewhere, and declarations that come before, have no part in this. The walk comes to its
end only if every integer that is written can be read.
-/
namespace InterfaceKit

/-! ## Integers -/

namespace Lexical

def digitValue (c : Char) : Nat :=
  if c.isDigit then c.toNat - '0'.toNat
  else if c.isLower then c.toNat - 'a'.toNat + 10
  else c.toNat - 'A'.toNat + 10

/-- The number that digits denote, the most significant one being the first. -/
def digitsNumber (base : Nat) (ds : List Char) : Nat := Nat.ofDigits base (ds.map digitValue).reverse

/-- The number that an integer denotes: hexadecimal behind `0x`, else decimal, with a sign or
without. -/
def integerNumber : List Char → Int
  | '0' :: 'x' :: ds => digitsNumber 16 ds
  | '-' :: ds => -digitsNumber 10 ds
  | '+' :: ds => digitsNumber 10 ds
  | ds => digitsNumber 10 ds

theorem digitsNumber_cons (base : Nat) (c : Char) (ds : List Char) :
    digitsNumber base (c :: ds) = digitValue c * base ^ ds.length + digitsNumber base ds := by
  simp [digitsNumber,Nat.ofDigits_append,Nat.mul_comm,Nat.add_comm]

variable {ds u : List Char} {n base : Nat}

theorem foldlM_digits {step : Nat → Char → Except Failure Nat}
    (hstep : ∀ a c b, step a c = .ok b → b = a * base + digitValue c) {a : Nat}
    (h : ds.foldlM step a = .ok n) : n = a * base ^ ds.length + digitsNumber base ds := by
  induction ds generalizing a with
  | nil =>
    obtain rfl := Except.ok.inj h
    simp [digitsNumber]
  | cons c ds ih =>
    rw [List.foldlM_cons] at h
    cases hc : step a c with
    | error e =>
      rw [hc] at h
      cases h
    | ok b =>
      rw [hc] at h
      have hrest := ih (a := b) h
      rw [hstep a c b hc] at hrest
      rw [hrest,digitsNumber_cons,List.length_cons,pow_succ]
      ring

theorem eq_digitValue {c : Char} {d : Nat}
    (h : (if '0' ≤ c && c ≤ '9' then some (c.toNat - '0'.toNat)
      else if 'a' ≤ c && c ≤ 'f' then some (c.toNat - 'a'.toNat + 10)
      else if 'A' ≤ c && c ≤ 'F' then some (c.toNat - 'A'.toNat + 10)
      else none) = some d) : d = digitValue c := by
  have hdigit : c.isDigit = ('0' ≤ c && c ≤ '9') := rfl
  have hlower : c.isLower = ('a' ≤ c && c ≤ 'z') := rfl
  unfold digitValue
  rw [hdigit,hlower]
  split at h
  · next hc => rw [if_pos hc,← Option.some.inj h]
  · next hc =>
      rw [if_neg hc]
      split at h
      · next hl =>
          have hsmall : 'a' ≤ c ∧ c ≤ 'f' := by simpa using hl
          have hz : c ≤ 'z' := Char.le_trans hsmall.2 (by decide)
          rw [if_pos (by simp [hsmall.1,hz]),← Option.some.inj h]
      · split at h
        · next hu =>
            have hcapital : 'A' ≤ c ∧ c ≤ 'F' := by simpa using hu
            have ha : ¬ 'a' ≤ c := fun ha => absurd (Char.le_trans ha hcapital.2) (by decide)
            rw [if_neg (by simp [ha]),← Option.some.inj h]
        · cases h

theorem numeral_eq_digitsNumber (h : Yaml.Plain.numeral base ds = .ok n) :
    n = digitsNumber base ds := by
  unfold Yaml.Plain.numeral at h
  simp only at h
  split at h
  · cases h
  · suffices hn : n = 0 * base ^ ds.length + digitsNumber base ds by simpa using hn
    refine foldlM_digits ?_ h
    intro a c b hb
    split at hb
    · next d hd =>
        obtain rfl := Except.ok.inj hb
        rw [eq_digitValue (Option.filter_eq_some_iff.mp hd).1]
    · cases hb

theorem decimalNumeral_eq_digitsNumber (h : Yaml.Plain.decimalNumeral ds = .ok n) :
    n = digitsNumber 10 ds := by
  unfold Yaml.Plain.decimalNumeral at h
  split at h
  · cases h
  · exact numeral_eq_digitsNumber h

theorem IsNumeral.exists_cons (h : IsNumeral u) :
    ∃ c v, u = c :: v ∧ c.isDigit = true ∧ ∀ d ∈ v, d.isDigit = true := by
  obtain ⟨c,v,rfl⟩ := List.exists_cons_of_ne_nil h.1
  exact ⟨c,v,rfl,h.2 c List.mem_cons_self,fun d hd => h.2 d (List.mem_cons_of_mem c hd)⟩

/-- A numeral stands for itself: it has no sign and no mark of another base. -/
theorem IsNumeral.integerNumber (h : IsNumeral u) : integerNumber u = digitsNumber 10 u := by
  obtain ⟨c,v,rfl,hc,hv⟩ := h.exists_cons
  unfold Lexical.integerNumber
  split
  · next ds heq =>
      obtain ⟨-,rfl⟩ := List.cons.inj heq
      exact absurd (hv 'x' List.mem_cons_self) (by decide)
  · next ds heq =>
      obtain ⟨rfl,-⟩ := List.cons.inj heq
      exact absurd hc (by decide)
  · next ds heq =>
      obtain ⟨rfl,-⟩ := List.cons.inj heq
      exact absurd hc (by decide)
  · rfl

theorem IsNumeral.splitSign (h : IsNumeral u) : Yaml.Plain.splitSign u = (false, u) := by
  obtain ⟨c,v,rfl,hc,-⟩ := h.exists_cons
  unfold Yaml.Plain.splitSign
  split
  · next ds heq =>
      obtain ⟨rfl,-⟩ := List.cons.inj heq
      exact absurd hc (by decide)
  · next ds heq =>
      obtain ⟨rfl,-⟩ := List.cons.inj heq
      exact absurd hc (by decide)
  · rfl

end Lexical

namespace Model
open Grammar Lexical
variable {v : Int} {text : String}

theorem integerValue_numeral {negative : Bool} {u : List Char} (hu : IsNumeral u)
    (hsplit : Yaml.Plain.splitSign text.toList = (negative, u)) (h : integerValue text = .ok v) :
    v = if negative then -(digitsNumber 10 u : Int) else digitsNumber 10 u := by
  unfold integerValue at h
  rw [hsplit] at h
  dsimp only at h
  have hread : ∀ r : Except Failure Nat, (∀ n, r = .ok n → n = digitsNumber 10 u) →
      r.map (fun n => if negative then -(n : Int) else n) = .ok v →
      v = if negative then -(digitsNumber 10 u : Int) else digitsNumber 10 u := by
    intro r hr hv
    cases r with
    | error e => cases hv
    | ok n => rw [← hr n rfl,← Except.ok.inj hv]
  apply hread _ _ h
  intro n hn
  split at hn
  · next x digits =>
      have hx : x.isDigit = true := hu.2 x (by simp)
      have hdecimal : ¬ (x = 'x' || x = 'X') = true := by
        intro hmark
        rcases (by simpa using hmark : x = 'x' ∨ x = 'X') with rfl | rfl
        · exact absurd hx (by decide)
        · exact absurd hx (by decide)
      rw [if_neg hdecimal] at hn
      split at hn
      · exact decimalNumeral_eq_digitsNumber hn
      · cases hn
  · exact decimalNumeral_eq_digitsNumber hn

theorem integerValue_hex {ds : List Char} (htext : text.toList = '0' :: 'x' :: ds)
    (h : integerValue text = .ok v) : v = digitsNumber 16 ds := by
  have hmagnitude : integerValue text = (Yaml.Plain.numeral 16 ds).map fun n => (n : Int) := by
    unfold integerValue
    rw [htext]
    rfl
  rw [hmagnitude] at h
  cases hn : Yaml.Plain.numeral 16 ds with
  | error e =>
    rw [hn] at h
    cases h
  | ok n =>
    rw [hn] at h
    rw [← Except.ok.inj h,numeral_eq_digitsNumber hn]

/-- An integer that can be read is read as the number that it denotes. -/
theorem integerValue_eq_integerNumber {t : Token} (hk : t.kind ∈ [Kind.integer,Kind.hexInteger])
    (hspells : t.kind.Spells t.text.toList) (h : integerValue t.text = .ok v) :
    v = integerNumber t.text.toList := by
  rcases (by simpa using hk : t.kind = .integer ∨ t.kind = .hexInteger) with hk | hk
  · rw [hk] at hspells
    obtain ⟨u,hu,htext | htext | htext⟩ := hspells
    · rw [integerValue_numeral hu (by rw [htext,hu.splitSign]) h,htext,hu.integerNumber]
      rfl
    · have hsplit : Yaml.Plain.splitSign t.text.toList = (false, u) := by
        rw [htext]
        rfl
      rw [integerValue_numeral hu hsplit h,htext]
      rfl
    · have hsplit : Yaml.Plain.splitSign t.text.toList = (true, u) := by
        rw [htext]
        rfl
      rw [integerValue_numeral hu hsplit h,htext]
      rfl
  · rw [hk] at hspells
    obtain ⟨ds,-,-,htext⟩ := hspells
    rw [integerValue_hex htext h,htext]
    rfl

/-! ## Walks that come to their end -/

namespace Drafting

/-- The integer that a node may be written with can be read. -/
def Readable (t : Tree) : Prop := ∀ i, t.node? .integer = some i → ∃ v, integerValue i.text = .ok v

theorem enterMember_readable {t : Tree} {d d' : Draft} (h : (enterMember t).run d = (.ok (), d')) :
    Readable t := by
  intro i hi
  unfold enterMember at h
  obtain ⟨_,_,-,h⟩ := ok_of_bind h
  obtain ⟨e,_,-,h⟩ := ok_of_bind h
  obtain ⟨common,_,-,h⟩ := ok_of_bind h
  obtain ⟨_,_,-,h⟩ := ok_of_bind h
  obtain ⟨_,_,-,h⟩ := ok_of_bind h
  obtain ⟨v,_,hnumber,-⟩ := ok_of_bind h
  simp only [memberNumber,hi] at hnumber
  cases hvalue : integerValue i.text with
  | ok v => exact ⟨v,rfl⟩
  | error e =>
    rw [hvalue] at hnumber
    cases hnumber

mutual
/-- Every member that a walk has come through has an integer that can be read, or none. -/
theorem walk_readable : (t : Tree) → ∀ {d d' : Draft}, (walk t).run d = (.ok (), d') →
    ∀ us, .node .enumMember us ∈ t.nodes → Readable (.node .enumMember us)
  | .leaf _, _, _, _, _, hn => by cases hn
  | .node r ts, _, _, h, us, hn => by
      rw [walk] at h
      obtain ⟨_,_,henter,h⟩ := ok_of_bind h
      obtain ⟨_,_,hall,-⟩ := ok_of_bind h
      have hor : (.enumMember = r ∧ us = ts) ∨ .node .enumMember us ∈ Tree.nodesOf ts := by
        simpa [Tree.nodes] using hn
      rcases hor with ⟨rfl,rfl⟩ | hn
      · exact enterMember_readable henter
      · exact walkAll_readable ts hall us hn

theorem walkAll_readable : (ts : List Tree) → ∀ {d d' : Draft}, (walkAll ts).run d = (.ok (), d') →
    ∀ us, .node .enumMember us ∈ Tree.nodesOf ts → Readable (.node .enumMember us)
  | [], _, _, _, _, hn => by cases hn
  | t :: ts, _, _, h, us, hn => by
      rw [walkAll] at h
      obtain ⟨_,_,hwalk,h⟩ := ok_of_bind h
      rcases List.mem_append.mp
        (by simpa [Tree.nodesOf] using hn : .node .enumMember us ∈ t.nodes ++ Tree.nodesOf ts)
        with hn | hn
      · exact walk_readable t hwalk us hn
      · exact walkAll_readable ts h us hn
end

end Drafting

end Model

/-! ## Declarations -/

namespace Grammar
open Lexical

/-- What is written of an enumeration: whether it is a flag, its name, and the names of its members
with the integers that they are written with. -/
structure Listing where
  flag : Bool
  name : String
  members : List (String × Option String)
  deriving DecidableEq

namespace Tree

def listing (t : Tree) : Listing where
  flag := ((t.node? .enumKind).bind (·.token? .flagWord)).isSome
  name := Model.Drafting.nameOf t
  members := (t.nodesOfRule .enumMember).map fun k =>
    (Model.Drafting.nameOf k, (k.node? .integer).map (·.text))

def listings (t : Tree) : List Listing :=
  (t.nodesOfRule .definition).filterMap fun d => (d.node? .enum).map listing

/-- A document with the first `k` of its definitions. -/
def upTo (k : Nat) : Tree → Tree
  | .node r (header :: definitions) => .node r (header :: definitions.take k)
  | t => t

theorem nodesOfRule_node (r q : Rule) (ts : List Tree) : (node r ts).nodesOfRule q = nodesIn q ts :=
  rfl

end Tree

/-- The number that the language gives to the member at a position: the one that is written, or that
of the position. -/
def numberAt (flag : Bool) (position : Nat) : Option String → Int
  | some text => integerNumber text.toList
  | none => Phrase.automaticNumber flag position

namespace Phrase
open Model

def EnumMember.written (k : EnumMember) : String × Option String :=
  (k.name.val.text, k.number.map (·.2.val.text))

def Enum.listing (e : Enum) : Listing where
  flag := e.isFlag
  name := e.name.val.text
  members := e.members.map (·.written)

theorem EnumMember.written_eq (k : EnumMember) : (Drafting.nameOf (.node .enumMember k.parts),
    ((Tree.node .enumMember k.parts).node? .integer).map (·.text)) = k.written := by
  rw [Drafting.nameOf_enumMember,node?_integer,Option.map_map]
  refine congrArg _ (Option.map_congr fun n _ => ?_)
  exact text_integer n.2

theorem Enum.listing_tree (e : Enum) : (Tree.node .enum e.parts).listing = e.listing := by
  have hkind : (Tree.node .enum e.parts).node? .enumKind =
      some (.node .enumKind [.leaf e.word.val]) := by
    simp [Tree.node?_node,Enum.parts]
  have hmembers : (Tree.node .enum e.parts).nodesOfRule .enumMember =
      e.members.map fun k => .node .enumMember k.parts := by
    rw [Tree.nodesOfRule_node]
    simp [Enum.parts]
  rw [Tree.listing,hkind,Option.bind_some,e.token?_flagWord,Drafting.nameOf_enum,hmembers,
    List.map_map]
  exact congrArg (Listing.mk _ _) (List.map_congr_left fun k _ => k.written_eq)

theorem Document.nodesOfRule_definition (doc : Document) :
    doc.tree.nodesOfRule .definition = doc.definitions.map fun x =>
    .node .definition [x.inside] := by
  rw [Document.tree,Tree.nodesOfRule_node]
  simp [Document.parts]

theorem Document.listings_tree (doc : Document) :
    doc.tree.listings = (doc.definitions.filterMap Definition.enum?).map Enum.listing := by
  have henum : ∀ x : Definition, ((Tree.node .definition [x.inside]).node? .enum).map Tree.listing =
      x.enum?.map Enum.listing := by
    intro x
    rw [Tree.node?_node]
    cases x with
    | enum e => simp [Definition.inside,Definition.enum?,e.listing_tree]
    | interface | struct => simp [Definition.inside,Definition.enum?]
  rw [Tree.listings,doc.nodesOfRule_definition,List.filterMap_map,List.map_filterMap]
  exact List.filterMap_congr fun x _ => henum x

theorem Document.upTo_tree (doc : Document) (k : Nat) :
    doc.tree.upTo k = ({ doc with definitions := doc.definitions.take k } : Document).tree := by
  simp [Document.tree,Document.parts,Tree.upTo,List.map_take]

theorem Document.derives (doc : Document) : Derives [oneRule .document] [doc.tree] :=
  (Form.Yields.rule document_yields _).mpr ⟨doc,rfl⟩

theorem Document.member_node {doc : Document} {e : Enum} (he : .enum e ∈ doc.definitions)
    {k : EnumMember} (hk : k ∈ e.members) : .node .enumMember k.parts ∈ doc.tree.nodes := by
  have hmember : .node .enumMember k.parts ∈ Tree.nodesOf e.parts := by
    refine Tree.mem_nodesOf.mpr ⟨.node .enumMember k.parts,?_,by simp [Tree.nodes]⟩
    simp only [Enum.parts,List.mem_append,List.mem_map]
    exact .inl (.inl (.inr ⟨k,hk,rfl⟩))
  have hdefinition :
      .node .enumMember k.parts ∈ Tree.nodes (.node .definition [.node .enum e.parts]) := by
    simp [Tree.nodes,Tree.nodesOf,hmember]
  have hdocument : .node .enumMember k.parts ∈ Tree.nodesOf doc.parts := by
    refine Tree.mem_nodesOf.mpr ⟨_,?_,hdefinition⟩
    exact List.mem_cons_of_mem _ (List.mem_map.mpr ⟨.enum e,he,rfl⟩)
  simp [Document.tree,Tree.nodes,hdocument]

end Phrase

end Grammar

namespace Model
open Grammar Lexical

/-- The enumeration has the members that are listed, in the order of their first occurrences, and
each has the number of its last. -/
structure Enum.Numbered (x : Enum) (e : Listing) : Prop where
  isFlag : x.isFlag = e.flag
  names : x.members.names = (e.members.map (·.1)).eraseDups
  number : ∀ before name integer behind, e.members = before ++ (name, integer) :: behind →
    name ∉ behind.map (·.1) →
    ∃ y, x.members.get? name = some y ∧ y.value = numberAt e.flag before.length integer

namespace Table
variable {α : Type}

theorem names_declared (ds : List (String × α)) :
    (declared ds).names = (ds.map (·.1)).eraseDups := by
  induction ds using List.reverseRecOn with
  | nil => rfl
  | append_singleton ds d ih =>
    rw [declared_append,names_set,ih,List.map_append,List.map_singleton,eraseDups_concat]
    split
    · simp
    · rfl

/-- The last declaration of a name counts. -/
theorem get?_declared_last {n : String} {behind : List (String × α)} (h : n ∉ behind.map (·.1))
    (before : List (String × α)) (a : α) :
    (declared (before ++ (n, a) :: behind)).get? n = some a := by
  have hsplit : setAll [] (before ++ (n, a) :: behind) =
      ((setAll [] before).set n a).setAll behind := by
    simp [setAll]
  rw [← setAll_nil,hsplit,get?_setAll_of_notMem h,get?_set]

end Table

theorem names_describes (flag : Bool) (position : Nat → Nat) (ks : List Phrase.EnumMember) :
    (ks.mapIdx fun i => Phrase.EnumMember.describes flag (position i)).map (·.1) =
      (ks.map (·.written)).map (·.1) := by
  apply List.ext_getElem?
  intro i
  rw [List.getElem?_map,List.getElem?_map,List.getElem?_map,List.getElem?_mapIdx,Option.map_map,
    Option.map_map]
  rfl

theorem numbered_of_describes {x : Enum} {e : Phrase.Enum} (hx : x.Like .untagged e.describes.2)
    (hvalues : ∀ k ∈ e.members, ∀ i, k.value e.isFlag i = numberAt e.isFlag i k.written.2) :
    x.Numbered e.listing := by
  constructor
  · exact congrArg Prod.snd hx.kind
  · refine hx.members.names.trans ((Table.names_declared _).trans ?_)
    exact congrArg List.eraseDups (names_describes e.isFlag id e.members)
  · intro before name integer behind hsplit hlast
    obtain ⟨ks,us,hks,rfl,hus⟩ := List.map_eq_append_iff.mp hsplit
    obtain ⟨k,ls,rfl,hk,rfl⟩ := List.map_eq_cons_iff.mp hus
    obtain ⟨rfl,rfl⟩ := Prod.mk.inj hk
    have hget : e.describes.2.members.get? k.name.val.text =
        some (k.describes e.isFlag ks.length).2 := by
      change (Table.declared (e.members.mapIdx (Phrase.EnumMember.describes e.isFlag))).get? _ = _
      rw [hks,List.mapIdx_append,List.mapIdx_cons,Nat.zero_add]
      apply Table.get?_declared_last
      rw [names_describes e.isFlag (fun i => i + 1 + ks.length) ls]
      exact hlast
    obtain ⟨y,hy,hlike⟩ := hx.members.exists_get? hget
    refine ⟨y,hy,?_⟩
    rw [List.length_map]
    exact hlike.value.trans (hvalues k (by simp [hks]) ks.length)

/-- A member that can be read has the number that the language gives to it. -/
theorem value_eq_numberAt {k : Phrase.EnumMember}
    (hreadable : Drafting.Readable (.node .enumMember k.parts)) (hspells :
      ∀ t ∈ Tree.tokensOf k.parts, t.kind.Spells t.text.toList) (flag : Bool) (position : Nat) :
    k.value flag position = numberAt flag position k.written.2 := by
  unfold Phrase.EnumMember.value Phrase.EnumMember.written
  cases hnumber : k.number with
  | none => rfl
  | some n =>
    have htoken : n.2.val ∈ Tree.tokensOf k.parts := by
      simp [Phrase.EnumMember.parts,hnumber]
    obtain ⟨v,hv⟩ :=
      hreadable (.node .integer [.leaf n.2.val]) (by rw [k.node?_integer,hnumber]; rfl)
    rw [Phrase.text_integer] at hv
    simp only [hv]
    exact integerValue_eq_integerNumber n.2.property (hspells _ htoken) hv

/-- An enumeration that a walk leaves which has come to its end. A later one of the same name takes
its place. -/
theorem ofDocument_numbered {doc : Phrase.Document}
    (hspells : ∀ t ∈ doc.tree.tokens, t.kind.Spells t.text.toList) {number : Nat}
    {store : Data.Store} {d : Draft} (hok : Draft.ofDocument number doc.tree store = (.ok (), d))
    {m : Module} (hm : d.module = some m) {before behind : List Listing} {e : Listing}
    (hsplit : doc.tree.listings = before ++ e :: behind) (hlast : e.name ∉ behind.map (·.name)) :
    ∃ x, m.enums.get? e.name = some x ∧ x.Numbered e := by
  obtain ⟨m',hm',hlike⟩ := ofDocument_describes hok
  obtain rfl := Option.some.inj (hm.symm.trans hm')
  rw [doc.listings_tree] at hsplit
  obtain ⟨es,us,hes,rfl,hus⟩ := List.map_eq_append_iff.mp hsplit
  obtain ⟨e,ls,rfl,rfl,rfl⟩ := List.map_eq_cons_iff.mp hus
  have he : .enum e ∈ doc.definitions := by
    have hmem : e ∈ doc.definitions.filterMap Phrase.Definition.enum? := by simp [hes]
    obtain ⟨x,hx,hxe⟩ := List.mem_filterMap.mp hmem
    cases x with
    | enum e' =>
      obtain rfl := Option.some.inj hxe
      exact hx
    | interface i => cases hxe
    | struct s => cases hxe
  have hget : doc.describes.enums.get? e.name.val.text = some e.describes.2 := by
    change (Table.declared
      ((doc.definitions.filterMap Phrase.Definition.enum?).map (·.describes))).get? _ = _
    rw [hes,List.map_append,List.map_cons]
    apply Table.get?_declared_last
    rw [List.map_map]
    rw [List.map_map] at hlast
    exact hlast
  obtain ⟨x,hx,hdescribes⟩ := hlike.enums.exists_get? hget
  refine ⟨x,hx,numbered_of_describes hdescribes fun k hk => value_eq_numberAt ?_ ?_ e.isFlag⟩
  · exact Drafting.walk_readable doc.tree hok _ (Phrase.Document.member_node he hk)
  · have hnode : .node .enumMember k.parts ∈ Tree.nodesOf [doc.tree] := by
      simpa [Tree.nodesOf] using Phrase.Document.member_node he hk
    intro t ht
    exact hspells t (by simpa using (doc.derives.node_below hnode).2 ht)

end Model

end InterfaceKit
