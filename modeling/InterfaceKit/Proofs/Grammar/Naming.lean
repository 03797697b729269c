import InterfaceKit.Model.Draft
import InterfaceKit.Proofs.Grammar.Phrase
import InterfaceKit.Proofs.Grammar.Reading
import InterfaceKit.Proofs.Lexical.Source

/-!
# The names in a tree

A rule that declares something demands an identifier. So every node of such a rule that the parser
gives has a name, and the name is spelt as names are.
-/
namespace InterfaceKit.Grammar
open Lexical
variable {ts : List Tree} {k : Kind} {t : Token}

theorem Tree.mem_nodesOf {x : Tree} : x ∈ nodesOf ts ↔ ∃ t ∈ ts, x ∈ t.nodes := by
  induction ts with
  | nil => simp [nodesOf]
  | cons t ts ih => simp [nodesOf,ih]

theorem Tree.mem_tokensOf {x : Token} : x ∈ tokensOf ts ↔ ∃ t ∈ ts, x ∈ t.tokens := by
  induction ts with
  | nil => simp [tokensOf]
  | cons t ts ih => simp [tokensOf,ih]

namespace Derives
variable {f : Form} {ts : List Tree}

theorem exists_leaf (h : Derives f ts) {k : Kind} (hk : oneToken k ∈ f) :
    ∃ t, .leaf t ∈ ts ∧ t.kind = k := by
  induction h with
  | nil => cases hk
  | @token rest ts t _ ih =>
    rcases List.mem_cons.mp hk with he | hk
    · obtain rfl : k = t.kind := by simpa [oneToken] using he
      exact ⟨t,List.mem_cons_self,rfl⟩
    · obtain ⟨u,hu,hkind⟩ := ih hk
      exact ⟨u,List.mem_cons_of_mem _ hu,hkind⟩
  | rule _ _ _ ih =>
    obtain ⟨u,hu,hkind⟩ := ih (by simpa [oneToken] using hk)
    exact ⟨u,List.mem_cons_of_mem _ hu,hkind⟩
  | absent _ ih | stop _ ih => exact ih (by simpa [oneToken] using hk)
  | present _ ih => exact ih (List.mem_append_right _ (by simpa [oneToken] using hk))
  | again _ ih => exact ih (List.mem_cons_of_mem _ hk)
  | pick _ _ ih => exact ih (List.mem_cons_of_mem _ (by simpa [oneToken] using hk))

theorem node_below (h : Derives f ts) {r : Rule} {us : List Tree}
    (hn : .node r us ∈ Tree.nodesOf ts) :
    Derives r.production us ∧ Tree.tokensOf us ⊆ Tree.tokensOf ts := by
  induction h with
  | nil => cases hn
  | token t _ ih =>
    obtain ⟨hd,hs⟩ := ih (by simpa [Tree.nodesOf,Tree.nodes] using hn)
    exact ⟨hd,List.Subset.trans hs (by simp)⟩
  | @rule q rest vs ts hq _ ihq ih =>
    have hcases : (q = r ∧ vs = us) ∨ .node r us ∈ Tree.nodesOf vs ∨
        .node r us ∈ Tree.nodesOf ts := by
      simpa [Tree.nodesOf,Tree.nodes,eq_comm,or_assoc] using hn
    rcases hcases with ⟨rfl,rfl⟩ | hn | hn
    · exact ⟨hq,by simp⟩
    · obtain ⟨hd,hs⟩ := ihq hn
      exact ⟨hd,List.Subset.trans hs (by simp)⟩
    · obtain ⟨hd,hs⟩ := ih hn
      exact ⟨hd,List.Subset.trans hs (by simp)⟩
  | absent _ ih => exact ih hn
  | present _ ih => exact ih hn
  | stop _ ih => exact ih hn
  | again _ ih => exact ih hn
  | pick _ _ ih => exact ih hn

end Derives

theorem mem_tokensOf_of_mem_wordsIn (h : t ∈ wordsIn k ts) : t ∈ Tree.tokensOf ts ∧ t.kind = k := by
  obtain ⟨u,hu,ht⟩ := List.mem_filterMap.mp h
  cases u with
  | node r us => cases ht
  | leaf x =>
    obtain ⟨hk,ht⟩ := Option.ite_none_right_eq_some.mp ht
    obtain rfl := Option.some.inj ht
    exact ⟨Tree.mem_tokensOf.mpr ⟨.leaf x,hu,List.mem_singleton_self x⟩,hk⟩

theorem mem_wordsIn_of_mem (h : .leaf t ∈ ts) (hk : t.kind = k) : t ∈ wordsIn k ts :=
  List.mem_filterMap.mpr ⟨.leaf t,h,by simp [hk]⟩

def Rule.Declares (r : Rule) : Prop := oneToken .identifier ∈ r.production

instance : DecidablePred Rule.Declares :=
  fun r => inferInstanceAs (Decidable (oneToken .identifier ∈ r.production))

/-- Every declaration below a derived tree has a name, if the identifiers are names. -/
theorem Derives.isName {f : Form} {us : List Tree} {r : Rule} (h : Derives f ts)
    (hnames : ∀ x ∈ Tree.tokensOf ts, x.kind = .identifier → IsName x.text.toList)
    (hn : .node r us ∈ Tree.nodesOf ts) (hr : r.Declares) :
    IsName (Model.Drafting.nameOf (.node r us)).toList := by
  obtain ⟨hd,hsubset⟩ := h.node_below hn
  obtain ⟨t,ht,hk⟩ := hd.exists_leaf hr
  obtain ⟨x,xs,hwords⟩ := List.exists_cons_of_ne_nil (List.ne_nil_of_mem (mem_wordsIn_of_mem ht hk))
  have hx : x ∈ wordsIn .identifier us := by simp [hwords]
  obtain ⟨hmem,hkind⟩ := mem_tokensOf_of_mem_wordsIn hx
  have hname : Model.Drafting.nameOf (.node r us) = x.text := by
    simp [Model.Drafting.nameOf,Model.Drafting.textOf,Tree.token?_node,hwords]
  rw [hname]
  exact hnames x (hsubset hmem) hkind

end InterfaceKit.Grammar

namespace InterfaceKit.Lexical

/-- Each token of a text is spelt as its kind is. -/
theorem Source.spells {text : List Char} {t : Token} (h : t ∈ (Source.ofText text).tokens) :
    t.kind.Spells t.text.toList := by
  rw [tokens_ofText] at h
  obtain ⟨u,hu,htext,-⟩ := mem_emitted h
  rw [htext,String.toList_ofList]
  exact ((chunks_cuts text).wins hu).1

theorem Source.mem_of_parsed {s : Source} {r : Grammar.Rule} {t : Grammar.Tree} {c : Grammar.Cursor}
    (h : Grammar.parse r s = .parsed t c) : t.tokens ⊆ s.tokens := by
  have htokens : s.tokens = t.tokens ++ c.rest := by simpa using (Grammar.parse_reads h).tokens
  rw [htokens]
  exact List.subset_append_left _ _

theorem Source.spells_of_parsed {text : List Char} {r : Grammar.Rule} {t : Grammar.Tree}
    {c : Grammar.Cursor} (h : Grammar.parse r (Source.ofText text) = .parsed t c) :
    ∀ x ∈ t.tokens, x.kind.Spells x.text.toList :=
  fun _ hx => Source.spells (Source.mem_of_parsed h hx)

theorem IsName.sign_notMem {u : List Char} (h : IsName u) : '#' ∉ u := h.notMem (by decide)

end InterfaceKit.Lexical
