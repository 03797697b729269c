import InterfaceKit.Proofs.Grammar.Phrase

/-!
# Separators

Semicolons and commas may be left out wherever they may stand. When some of them are taken from the
tokens of a document, the tokens that are left are those of a document again, and the two have the
same tree but for the leaves of separators.
-/
namespace InterfaceKit

/-- The tokens that close a declaration or stand between two. -/
def Lexical.Kind.separates : Kind → Bool
  | .semicolon | .comma => true
  | _ => false

namespace Grammar
open Lexical

/-! ## Taking separators from a row of tokens -/

/-- The second row is the first one without some of its separators. -/
inductive Thins : List Token → List Token → Prop
  | nil : Thins [] []
  | keep {w v : List Token} (t : Token) : Thins w v → Thins (t :: w) (t :: v)
  | drop {w v : List Token} (t : Token) : t.kind.separates = true → Thins w v → Thins (t :: w) v

namespace Thins

theorem split {u v w : List Token} (h : Thins (u ++ v) w) :
    ∃ u' v', w = u' ++ v' ∧ Thins u u' ∧ Thins v v' := by
  induction u generalizing w with
  | nil => exact ⟨[],w,rfl,.nil,h⟩
  | cons t u ih =>
    cases h with
    | keep _ h =>
      obtain ⟨u',v',rfl,hu,hv⟩ := ih h
      exact ⟨t :: u',v',rfl,.keep t hu,hv⟩
    | drop _ ht h =>
      obtain ⟨u',v',rfl,hu,hv⟩ := ih h
      exact ⟨u',v',rfl,.drop t ht hu,hv⟩

theorem all (w : List Token) : Thins w (w.filter fun t => !t.kind.separates) := by
  induction w with
  | nil => exact .nil
  | cons t w ih =>
    cases ht : t.kind.separates with
    | true => simpa [ht] using Thins.drop t ht ih
    | false => simpa [ht] using Thins.keep t ih

theorem eq_self {w v : List Token} (h : Thins w v) (hw : ∀ t ∈ w, t.kind.separates = false) :
    v = w := by
  induction h with
  | nil => rfl
  | keep t _ ih => rw [ih fun t' ht' => hw t' (by simp [ht'])]
  | drop t ht _ _ =>
    have hfalse := hw t (by simp)
    rw [ht] at hfalse
    contradiction

end Thins

/-! ## Trees without separators -/

def Rule.separated (r : Rule) : Bool :=
  r ∈ [.document,.header,.importLine,.moduleHead,.definition,.interface,.interfaceMember,.operation,
    .signal,.property,.parameter,.tagAttribute,.struct,.structField,.enum,.enumMember]

namespace Tree

def separates : Tree → Bool
  | leaf t => t.kind.separates
  | node _ _ => false

mutual
def bare : Tree → Tree
  | leaf t => leaf t
  | node r ts => node r (if r.separated then bareOf ts else ts)

def bareOf : List Tree → List Tree
  | [] => []
  | t :: ts => if t.separates then bareOf ts else t.bare :: bareOf ts
end

@[simp] theorem bareOf_leaf (t : Token) (ts : List Tree) :
    bareOf (leaf t :: ts) = if t.kind.separates then bareOf ts else leaf t :: bareOf ts := by
  cases h : t.kind.separates <;> simp [bareOf,separates,bare,h]

@[simp] theorem bareOf_node (r : Rule) (us ts : List Tree) :
    bareOf (node r us :: ts) = node r (if r.separated then bareOf us else us) :: bareOf ts := by
  simp only [bareOf,separates,bare,Bool.false_eq_true,if_false]

end Tree

/-! ## Derivations without separators -/

def Item.isSilent : Item → Bool
  | .token k => !k.separates
  | .rule r => !r.separated

def Part.items : Part → List Item
  | .one x | .many x => [x]
  | .maybe xs | .choice xs => xs

def Form.isSilent (f : Form) : Bool := f.all fun p => p.items.all Item.isSilent

theorem Rule.isSilent_production {r : Rule} (h : r.separated = false) :
    r.production.isSilent = true := by
  revert h
  cases r <;> decide

variable {f : Form} {ts : List Tree} {xs : List Item} {w : List Token}

theorem Derives.silent (h : Derives f ts) (hf : f.isSilent = true) :
    ∀ t ∈ Tree.tokensOf ts, t.kind.separates = false := by
  induction h with
  | nil => simp
  | token t _ ih =>
    simp only [Form.isSilent,List.all_cons,Part.items,Item.isSilent,Bool.and_eq_true,
      Bool.not_eq_true',List.all_nil,and_true] at hf
    have hrest := ih hf.2
    simpa using ⟨hf.1,hrest⟩
  | rule _ _ ihr ih =>
    simp only [Form.isSilent,List.all_cons,Part.items,Item.isSilent,Bool.and_eq_true,
      Bool.not_eq_true',List.all_nil,and_true] at hf
    have hbelow := ihr (Rule.isSilent_production hf.1)
    have hrest := ih hf.2
    intro t ht
    simp only [Tree.tokensOf_cons,Tree.tokens_node,List.mem_append] at ht
    exact ht.elim (hbelow t) (hrest t)
  | absent _ ih | stop _ ih =>
    simp only [Form.isSilent,List.all_cons,Bool.and_eq_true] at hf
    exact ih hf.2
  | present _ ih | again _ ih =>
    apply ih
    simpa [Form.isSilent,Part.items] using hf
  | pick hx _ ih =>
    apply ih
    simp only [Form.isSilent,List.all_cons,Part.items,List.all_nil,Bool.and_true,Bool.and_eq_true,
      List.all_eq_true] at hf ⊢
    exact ⟨hf.1 _ hx,hf.2⟩

def Item.separates : Item → Bool
  | .token k => k.separates
  | .rule _ => false

/-- A separator stands by itself in a part that may be absent. -/
def Part.isLoose : Part → Bool
  | .one _ => true
  | .maybe xs => xs.length ≤ 1 || xs.all (!·.separates)
  | .many x => !x.separates
  | .choice xs => xs.all (!·.separates)

/-- The part with a separator that must be there made one that may be absent. -/
def Part.loosen : Part → Part
  | .one x => if x.separates then .maybe [x] else .one x
  | p => p

/-- No production asks for a separator. -/
theorem Rule.production_loose (r : Rule) :
    r.production.all Part.isLoose = true ∧ r.production.map Part.loosen = r.production := by
  cases r <;> decide

theorem Part.loosen_row (h : xs.all (!·.separates) = true) :
    (xs.map Part.one).map Part.loosen = xs.map .one := by
  rw [List.map_map]
  refine List.map_congr_left ?_
  intro x hx
  have hxs := List.all_eq_true.mp h x hx
  simp_all [Part.loosen]

/-- An optional row that may be loosened is derived from its loosened items. -/
theorem Derives.of_loosen (hx : Part.isLoose (.maybe xs) = true)
    (h : Derives ((xs.map Part.one).map Part.loosen ++ f) ts) : Derives (.maybe xs :: f) ts := by
  by_cases hs : xs.all (!·.separates) = true
  · rw [Part.loosen_row hs] at h
    exact .present h
  · simp only [Part.isLoose,hs,Bool.or_false,decide_eq_true_eq] at hx
    rcases xs with _ | ⟨x,_ | ⟨y,xs⟩⟩
    · exact .absent h
    · have hsep : x.separates = true := by simpa using hs
      simpa [Part.loosen,hsep] using h
    · simp at hx

/-- When separators are taken from the tokens of a derivation, what is left is derived with the same
tree but for the separators. -/
theorem Derives.thinned (h : Derives f ts) (hf : f.all Part.isLoose = true)
    (hw : Thins (Tree.tokensOf ts) w) :
    ∃ us, Derives (f.map Part.loosen) us ∧ Tree.tokensOf us = w ∧
    Tree.bareOf us = Tree.bareOf ts := by
  induction h generalizing w with
  | nil =>
    cases hw
    exact ⟨[],.nil,rfl,rfl⟩
  | @token rest ts t h ih =>
    simp only [List.all_cons,Bool.and_eq_true] at hf
    have hsep : (Item.token t.kind).separates = t.kind.separates := rfl
    rw [Tree.tokensOf_cons,Tree.tokens_leaf,List.singleton_append] at hw
    cases hw with
    | keep _ hw =>
      obtain ⟨us,hus,rfl,hb⟩ := ih hf.2 hw
      refine ⟨.leaf t :: us,?_,by simp,by simp [hb]⟩
      rw [List.map_cons,Part.loosen,hsep]
      split
      · exact .present (.token t hus)
      · exact .token t hus
    | drop _ ht hw =>
      obtain ⟨us,hus,rfl,hb⟩ := ih hf.2 hw
      refine ⟨us,?_,rfl,by simp [hb,ht]⟩
      rw [List.map_cons,Part.loosen,hsep,if_pos ht]
      exact .absent hus
  | @rule r rest us ts hr h ihr ih =>
    simp only [List.all_cons,Bool.and_eq_true] at hf
    rw [Tree.tokensOf_cons,Tree.tokens_node] at hw
    obtain ⟨a,b,rfl,ha,hb⟩ := hw.split
    obtain ⟨ts',hts,rfl,hbare⟩ := ih hf.2 hb
    cases hsep : r.separated with
    | true =>
      obtain ⟨us',hus,rfl,hinner⟩ := ihr r.production_loose.1 ha
      rw [r.production_loose.2] at hus
      exact ⟨.node r us' :: ts',.rule hus hts,by simp,by simp [hsep,hinner,hbare]⟩
    | false =>
      obtain rfl := ha.eq_self (hr.silent (Rule.isSilent_production hsep))
      exact ⟨.node r us :: ts',.rule hr hts,by simp,by simp [hsep,hbare]⟩
  | absent _ ih =>
    simp only [List.all_cons,Bool.and_eq_true] at hf
    obtain ⟨us,hus,hw,hb⟩ := ih hf.2 hw
    exact ⟨us,.absent hus,hw,hb⟩
  | @present xs rest ts _ ih =>
    simp only [List.all_cons,Bool.and_eq_true] at hf
    have hrow : (xs.map Part.one ++ rest).all Part.isLoose = true := by
      simpa [Part.isLoose] using hf.2
    obtain ⟨us,hus,hw,hb⟩ := ih hrow hw
    rw [List.map_append] at hus
    exact ⟨us,.of_loosen hf.1 hus,hw,hb⟩
  | stop _ ih =>
    simp only [List.all_cons,Bool.and_eq_true] at hf
    obtain ⟨us,hus,hw,hb⟩ := ih hf.2 hw
    exact ⟨us,.stop hus,hw,hb⟩
  | @again x rest ts _ ih =>
    have hx := hf
    simp only [List.all_cons,Bool.and_eq_true,Part.isLoose,Bool.not_eq_true'] at hx
    obtain ⟨us,hus,hw,hb⟩ := ih (by simpa [Part.isLoose] using hx) hw
    simp only [List.map_cons,Part.loosen,hx.1,Bool.false_eq_true,if_false] at hus
    exact ⟨us,.again hus,hw,hb⟩
  | @pick x xs rest ts hx _ ih =>
    simp only [List.all_cons,Bool.and_eq_true,Part.isLoose,List.all_eq_true,Bool.not_eq_true'] at hf
    obtain ⟨us,hus,hw,hb⟩ := ih (by simpa [Part.isLoose] using hf.2) hw
    simp only [List.map_cons,Part.loosen,hf.1 x hx,Bool.false_eq_true,if_false] at hus
    exact ⟨us,.pick hx hus,hw,hb⟩

/-- Tokens of a document are those of a document again when separators are taken from them. -/
theorem Phrase.Document.thinned {d : Document} (h : Thins d.tree.tokens w) :
    ∃ d' : Document, d'.tree.tokens = w ∧ d'.tree.bare = d.tree.bare := by
  rw [Document.tree,Tree.tokens_node] at h
  obtain ⟨us,hus,hw,hb⟩ :=
    ((document_yields _).mpr ⟨d,rfl⟩).thinned Rule.document.production_loose.1 h
  rw [Rule.document.production_loose.2] at hus
  obtain ⟨d',rfl⟩ := (document_yields us).mp hus
  refine ⟨d',by simpa [Document.tree] using hw,?_⟩
  have hsep : Rule.document.separated = true := rfl
  simp only [Document.tree,Tree.bare,hsep,if_true,hb]

end Grammar

end InterfaceKit
