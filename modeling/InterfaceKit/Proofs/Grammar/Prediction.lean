import InterfaceKit.Proofs.Grammar.Phrase
import InterfaceKit.Proofs.Grammar.Lookahead
import InterfaceKit.Proofs.Grammar.Reading

/-!
# Reading ahead finds the alternative

Where the alternatives of a choice begin with different tokens, the next token decides. Two choices
need more: definitions and members of an interface all may begin with a comment and tag lines, and
an operation may begin with a type and a name as a property does, however deep the type is nested.
Both are decided within the alternative or at the token behind it, so the alternative that is there
is the one that is chosen.
-/
namespace InterfaceKit.Grammar
open Lexical Phrase

/-! ## One token is enough -/

variable {k : Kind} {alts : List (Item × List Form)} {w : List Token} {t : Token} {r : Rule}
  {x : Item} {xs : List Item} {n : Nat} {cs : List Tree} {a : Item × List Form} {f g f' g' : Form}

theorem advance_dead (h : a.2.flatMap (·.after k) = []) :
    advance (a :: alts) k = advance alts k := by
  simp only [advance]
  exact List.filterMap_cons_none (by simp [h])

theorem advance_live (h : a.2.flatMap (·.after k) ≠ []) :
    advance (a :: alts) k = (a.1, a.2.flatMap (·.after k)) :: advance alts k := by
  simp only [advance]
  exact List.filterMap_cons_some (by simp [h])

theorem after_eq_nil_iff : Form.after [.one x] k = [] ↔ k ∉ x.first := by
  rw [← Form.first_one x [],← Form.canStart_iff]
  simp [Form.canStart]

theorem advance_none (h : ∀ x ∈ xs, k ∉ x.first) : advance (alternatives xs) k = [] := by
  induction xs with
  | nil => rfl
  | cons x xs ih =>
    rw [alternatives,List.map_cons,advance_dead]
    · exact ih fun y hy => h y (by simp [hy])
    · simpa using after_eq_nil_iff.mpr (h x (by simp))

theorem mem_of_disjoint {ks ls : List Kind} (h : disjoint ks ls = true) (hk : k ∈ ks) : k ∉ ls := by
  simpa using List.all_eq_true.mp h k hk

/-- When no two alternatives begin alike, one is left behind the first token. -/
theorem advance_single (hd : xs.Pairwise fun x y => disjoint x.first y.first) (hx : x ∈ xs)
    (hk : k ∈ x.first) :
    ∃ fs, advance (alternatives xs) k = [(x, fs)] := by
  induction xs with
  | nil => simp at hx
  | cons y ys ih =>
    obtain ⟨hy,hys⟩ := List.pairwise_cons.mp hd
    rcases List.mem_cons.mp hx with rfl | hm
    · have hn : Form.after [.one x] k ≠ [] := fun h => after_eq_nil_iff.mp h hk
      refine ⟨Form.after [.one x] k,?_⟩
      rw [alternatives,List.map_cons,advance_live (by simpa using hn)]
      have hrest : advance (alternatives ys) k = [] :=
        advance_none fun z hz => mem_of_disjoint (hy z hz) hk
      simpa [alternatives] using hrest
    · have hn : k ∉ y.first := fun h => mem_of_disjoint (hy x hm) h hk
      obtain ⟨fs,hf⟩ := ih hys hm
      refine ⟨fs,?_⟩
      rw [alternatives,List.map_cons,advance_dead (by simpa using after_eq_nil_iff.mpr hn)]
      exact hf

theorem predict_single (hd : xs.Pairwise fun x y => disjoint x.first y.first) (hx : x ∈ xs)
    (hk : t.kind ∈ x.first) :
    predict 0 (alternatives xs) (t :: w) = .chosen x 1 := by
  obtain ⟨fs,hf⟩ := advance_single hd hx hk
  rw [predict_cons,hf]

/-! ## Behind comments and tag lines -/

/-- The alternatives when a comment or tag lines have been read. -/
def annotated (rs : List Rule) : List (Item × List Form) :=
  rs.map fun r => (.rule r, [r.production.drop 1])

/-- Comments and tag lines leave all alternatives open. -/
structure Alike (rs : List Rule) : Prop where
  several : 2 ≤ rs.length
  comment : advance (alternatives (rs.map .rule)) .docComment = annotated rs
  firstTag : advance (alternatives (rs.map .rule)) .tagLine = annotated rs
  nextTag : advance (annotated rs) .tagLine = annotated rs

theorem predict_several {next : List (Item × List Form)} (h : advance alts t.kind = next)
    (hn : 2 ≤ next.length) :
    predict n alts (t :: w) = predict (n + 1) next w := by
  rw [predict_cons,h]
  match next, hn with
  | _ :: _ :: _, _ => rfl

namespace Alike
variable {rs : List Rule}

theorem predict_tags (h : Alike rs) (tags : List (Word .tagLine)) (n : Nat) (w : List Token) :
    predict n (annotated rs) (tags.map (·.val) ++ w) =
      predict (n + tags.length) (annotated rs) w := by
  induction tags generalizing n with
  | nil => rfl
  | cons t tags ih =>
    have hl : 2 ≤ (annotated rs).length := by simpa [annotated] using h.several
    have ht : advance (annotated rs) t.val.kind = annotated rs := by rw [t.property,h.nextTag]
    rw [List.map_cons,List.cons_append,predict_several ht hl,ih,List.length_cons]
    congr 1
    omega

/-- Reading ahead goes past the annotations of an alternative. -/
theorem predict_annotations (h : Alike rs) (a : Annotations) (w : List Token) :
    ∃ n alts, (alts = alternatives (rs.map .rule) ∨ alts = annotated rs) ∧
      predict 0 (alternatives (rs.map .rule)) (a.tokens ++ w) = predict n alts w := by
  have hl : 2 ≤ (annotated rs).length := by simpa [annotated] using h.several
  rcases a with ⟨_ | c,_ | ⟨t,tags⟩⟩
  · exact ⟨0,_,.inl rfl,rfl⟩
  · have ht : advance (alternatives (rs.map .rule)) t.val.kind = annotated rs := by
      rw [t.property,h.firstTag]
    exact ⟨_,_,.inr rfl,(predict_several ht hl).trans (h.predict_tags tags _ w)⟩
  all_goals
    have hc : advance (alternatives (rs.map .rule)) c.val.kind = annotated rs := by
      rw [c.property,h.comment]
    exact ⟨_,_,.inr rfl,(predict_several hc hl).trans (h.predict_tags _ _ w)⟩

end Alike

/-! ## Definitions -/

def definitionRules : List Rule := [.interface,.struct,.enum]

theorem definitions_alike : Alike definitionRules where
  several := by decide
  comment := by decide
  firstTag := by decide
  nextTag := by decide

/-- The keyword that tells a definition from the others. -/
def definitionWords : Rule → List Kind
  | .interface => [.interfaceWord]
  | .struct => [.structWord]
  | .enum => [.enumWord,.flagWord]
  | _ => []

theorem advance_definition (hk : k ∈ definitionWords r)
    (ha : alts = alternatives (definitionRules.map .rule) ∨ alts = annotated definitionRules) :
    (advance alts k).map (·.1) = [.rule r] := by
  cases r with
  | interface | struct =>
    obtain rfl := List.mem_singleton.mp hk
    rcases ha with rfl | rfl <;> decide
  | enum =>
    simp only [definitionWords,List.mem_cons,List.not_mem_nil,or_false] at hk
    rcases hk with rfl | rfl <;> rcases ha with rfl | rfl <;> decide
  | _ => simp [definitionWords] at hk

theorem predict_last (h : (advance alts t.kind).map (·.1) = [x]) :
    predict n alts (t :: w) = .chosen x (n + 1) := by
  obtain ⟨a,ha,rfl⟩ := List.map_eq_singleton_iff.mp h
  rw [predict_cons,ha]

theorem definition_word (d : Phrase.Definition) (hd : d.inside = .node r cs) :
    ∃ (a : Annotations) (t : Token) (w : List Token),
      t.kind ∈ definitionWords r ∧ Tree.tokensOf cs = a.tokens ++ t :: w := by
  cases d with
  | interface i =>
    obtain ⟨rfl,rfl⟩ : .interface = r ∧ i.parts = cs := by simpa [Definition.inside] using hd
    refine ⟨i.annotations,i.word.val,?_⟩
    simp only [Interface.parts,List.append_assoc,Tree.tokensOf_append,Annotations.tokensOf_trees]
    exact ⟨_,List.mem_singleton.mpr i.word.property,rfl⟩
  | struct s =>
    obtain ⟨rfl,rfl⟩ : .struct = r ∧ s.parts = cs := by simpa [Definition.inside] using hd
    refine ⟨s.annotations,s.word.val,?_⟩
    simp only [Struct.parts,List.append_assoc,Tree.tokensOf_append,Annotations.tokensOf_trees]
    exact ⟨_,List.mem_singleton.mpr s.word.property,rfl⟩
  | enum e =>
    obtain ⟨rfl,rfl⟩ : .enum = r ∧ e.parts = cs := by simpa [Definition.inside] using hd
    refine ⟨e.annotations,e.word.val,?_⟩
    simp only [Enum.parts,List.append_assoc,Tree.tokensOf_append,Annotations.tokensOf_trees]
    exact ⟨_,e.word.property,rfl⟩

theorem predict_definition (d : Phrase.Definition) (w : List Token) (hd : d.inside = .node r cs) :
    ∃ n, predict 0 (alternatives (definitionRules.map .rule)) (Tree.tokensOf cs ++ w) =
      .chosen (.rule r) n := by
  obtain ⟨a,t,u,ht,hcs⟩ := definition_word d hd
  obtain ⟨n,alts,ha,hp⟩ := definitions_alike.predict_annotations a (t :: (u ++ w))
  refine ⟨n + 1,?_⟩
  rw [hcs,List.append_assoc]
  exact hp.trans (predict_last (advance_definition ht ha))

/-! ## Members of an interface -/

def memberRules : List Rule := [.operation,.property,.signal]

theorem members_alike : Alike memberRules where
  several := by decide
  comment := by decide
  firstTag := by decide
  nextTag := by decide

def memberWords : Rule → List Kind
  | .operation => [.voidWord]
  | .property => [.readonlyWord,.constWord]
  | .signal => [.signalWord]
  | _ => []

theorem advance_member (hk : k ∈ memberWords r)
    (ha : alts = alternatives (memberRules.map .rule) ∨ alts = annotated memberRules) :
    (advance alts k).map (·.1) = [.rule r] := by
  cases r with
  | operation | signal =>
    obtain rfl := List.mem_singleton.mp hk
    rcases ha with rfl | rfl <;> decide
  | property =>
    simp only [memberWords,List.mem_cons,List.not_mem_nil,or_false] at hk
    rcases hk with rfl | rfl <;> rcases ha with rfl | rfl <;> decide
  | _ => simp [memberWords] at hk

/-- What an operation goes on with behind its result. -/
def behindResult : Form := Rule.operation.production.drop 3

/-- What a property goes on with behind its type. -/
def behindType : Form := Rule.property.production.drop 4

/-- The alternatives when only an operation and a property are left. -/
def twoLeft (f g : Form) : List (Item × List Form) :=
  [(.rule .operation, [f]),(.rule .property, [g])]

/-- The alternatives of a member that begins with a type. -/
def typedMembers : List (Item × List Form) :=
  twoLeft (oneRule .type :: behindResult) (oneRule .type :: behindType)

/-- Members that begin with a type are operations or properties. -/
theorem advance_typed (hk : k ∈ typeFirst)
    (ha : alts = alternatives (memberRules.map .rule) ∨ alts = annotated memberRules) :
    advance alts k = advance typedMembers k ∧ 2 ≤ (advance typedMembers k).length := by
  simp only [typeFirst,List.mem_cons,List.not_mem_nil,or_false] at hk
  rcases hk with rfl | rfl | rfl | rfl | rfl | rfl | rfl | rfl | rfl <;>
    rcases ha with rfl | rfl <;> decide

theorem advance_two (hf : f.after k = [f']) (hg : g.after k = [g']) :
    advance (twoLeft f g) k = twoLeft f' g' := by
  simp [advance,twoLeft,hf,hg]

theorem predict_two (hf : f.after t.kind = [f']) (hg : g.after t.kind = [g']) :
    predict n (twoLeft f g) (t :: w) = predict (n + 1) (twoLeft f' g') w :=
  predict_several (advance_two hf hg) (Nat.le_refl 2)

theorem after_plainType (f : Form) (hk : k ∈ .identifier :: primitiveWords) :
    Form.after (oneRule .type :: f) k = [f] := by
  have hp : Rule.type.production.after k = [[]] := by
    simp only [primitiveWords,List.mem_cons,List.not_mem_nil,or_false] at hk
    rcases hk with rfl | rfl | rfl | rfl | rfl | rfl <;> decide
  simp [oneRule,hp]

theorem after_container (c : Container) (f : Form) :
    Form.after (oneRule .type :: f) c.word =
      [oneToken .less :: oneRule .type :: oneToken .greater :: f] := by
  have hp : Rule.type.production.after c.word =
      [[oneToken .less,oneRule .type,oneToken .greater]] := by
    cases c <;> decide
  simp [oneRule,hp]

/-- By induction on the type, for any two forms behind it: both alternatives go through it alike. -/
theorem predict_type (t : TypeName) (n : Nat) (f g : Form) (w : List Token) :
    predict n (twoLeft (oneRule .type :: f) (oneRule .type :: g)) (t.tokens ++ w) =
      predict (n + t.tokens.length) (twoLeft f g) w := by
  induction t generalizing n f g w with
  | primitive v =>
    have hv : v.val.kind ∈ .identifier :: primitiveWords := List.mem_cons_of_mem _ v.property
    exact predict_two (after_plainType f hv) (after_plainType g hv)
  | complex v =>
    have hv : v.val.kind ∈ .identifier :: primitiveWords := by simp [v.property]
    exact predict_two (after_plainType f hv) (after_plainType g hv)
  | container c v o t cl ih =>
    simp only [TypeName.tokens,List.cons_append,List.append_assoc]
    rw [predict_two (by rw [v.property]; exact after_container c f)
        (by rw [v.property]; exact after_container c g),
      predict_two (by rw [o.property]; exact Form.after_token _ _ _)
        (by rw [o.property]; exact Form.after_token _ _ _),ih,
      predict_two (by rw [cl.property]; exact Form.after_token _ _ _)
        (by rw [cl.property]; exact Form.after_token _ _ _)]
    congr 1
    simp only [List.length_cons,List.length_append,List.length_nil]
    omega

theorem Phrase.TypeName.tokens_eq_cons (t : TypeName) :
    ∃ v w, t.tokens = v :: w ∧ v.kind ∈ typeFirst := by
  cases t with
  | primitive v =>
    refine ⟨v.val,[],rfl,?_⟩
    have hv := v.property
    simp only [primitiveWords,typeFirst,List.mem_cons,List.not_mem_nil,or_false] at hv ⊢
    tauto
  | complex v => exact ⟨v.val,[],rfl,by simp [v.property,typeFirst]⟩
  | container c v o t cl =>
    refine ⟨v.val,_,rfl,?_⟩
    rw [v.property]
    cases c <;> decide

/-- A member that begins with a type and a name is still undecided behind the name. -/
theorem predict_typed (a : Annotations) (t : TypeName) (v : Word .identifier) (w : List Token) :
    ∃ n, predict 0 (alternatives (memberRules.map .rule)) (a.tokens ++ (t.tokens ++ v.val :: w)) =
      predict n (twoLeft (behindResult.drop 1) (behindType.drop 1)) w := by
  obtain ⟨n,alts,ha,hp⟩ := members_alike.predict_annotations a (t.tokens ++ v.val :: w)
  have ht : predict n alts (t.tokens ++ v.val :: w) =
      predict n typedMembers (t.tokens ++ v.val :: w) := by
    obtain ⟨x,xs,hx,hk⟩ := t.tokens_eq_cons
    obtain ⟨hs,hl⟩ := advance_typed hk ha
    rw [hx,List.cons_append,predict_several hs hl,predict_several rfl hl]
  refine ⟨n + t.tokens.length + 1,hp.trans (ht.trans ?_)⟩
  rw [typedMembers,predict_type]
  exact predict_two (by rw [v.property]; decide) (by rw [v.property]; decide)

theorem predict_parenthesis (ht : t.kind = .leftParen) (n : Nat) (w : List Token) :
    predict n (twoLeft (behindResult.drop 1) (behindType.drop 1)) (t :: w) =
      .chosen (.rule .operation) (n + 1) :=
  predict_last (by rw [ht]; decide)

theorem undecided_property (n : Nat) :
    predict.undecided n (twoLeft (behindResult.drop 1) (behindType.drop 1)) =
      .chosen (.rule .property) (n + 1) := rfl

/-- Anything else makes it a property, also the end of the tokens. -/
theorem predict_no_parenthesis (hw : ∀ t w', w = t :: w' → t.kind ≠ .leftParen) (n : Nat) :
    predict n (twoLeft (behindResult.drop 1) (behindType.drop 1)) w =
      .chosen (.rule .property) (n + 1) := by
  cases w with
  | nil => exact undecided_property n
  | cons t w =>
    have ht := hw t w rfl
    by_cases he : t.kind = .equals ∨ t.kind = .semicolon
    · apply predict_last
      rcases he with he | he <;> rw [he] <;> decide
    · have hn : advance (twoLeft (behindResult.drop 1) (behindType.drop 1)) t.kind = [] := by
        simp only [not_or] at he
        generalize t.kind = k at ht he
        revert ht he
        cases k <;> decide
      rw [predict_cons,hn]
      exact undecided_property n

/-- An operation without a result has the word for that behind its annotations, any other one has a
type, a name and an opening parenthesis there. -/
theorem predict_operation (o : Phrase.Operation) (w : List Token) :
    ∃ n, predict 0 (alternatives (memberRules.map .rule)) (Tree.tokensOf o.parts ++ w) =
      .chosen (.rule .operation) n := by
  obtain ⟨a,r,v,op,ps,cl,m,s⟩ := o
  simp only [Operation.parts,List.append_assoc,Tree.tokensOf_append,Annotations.tokensOf_trees]
  cases r with
  | value t =>
    simp only [Result.tree,Tree.tokensOf_cons,TypeName.tokens_tree,Tree.tokens_leaf,
      List.append_assoc]
    obtain ⟨n,hn⟩ := predict_typed a t v _
    exact ⟨n + 1,hn.trans (predict_parenthesis op.property n _)⟩
  | void u =>
    have hu : u.val.kind ∈ memberWords .operation := List.mem_singleton.mpr u.property
    obtain ⟨n,alts,ha,hp⟩ := members_alike.predict_annotations a _
    exact ⟨n + 1,hp.trans (predict_last (advance_member hu ha))⟩

theorem predict_signal (g : Phrase.Signal) (w : List Token) :
    ∃ n, predict 0 (alternatives (memberRules.map .rule)) (Tree.tokensOf g.parts ++ w) =
      .chosen (.rule .signal) n := by
  have hu : g.word.val.kind ∈ memberWords .signal := List.mem_singleton.mpr g.word.property
  simp only [Signal.parts,List.append_assoc,Tree.tokensOf_append,Annotations.tokensOf_trees]
  obtain ⟨n,alts,ha,hp⟩ := members_alike.predict_annotations g.annotations _
  exact ⟨n + 1,hp.trans (predict_last (advance_member hu ha))⟩

/-- A property without a modifier, a value and a semicolon is told by the token behind it. -/
theorem predict_property (p : Phrase.Property) (hw : ∀ t w', w = t :: w' → t.kind ≠ .leftParen) :
    ∃ n, predict 0 (alternatives (memberRules.map .rule)) (Tree.tokensOf p.parts ++ w) =
      .chosen (.rule .property) n := by
  obtain ⟨a,m,t,v,d,s⟩ := p
  cases m with
  | some u =>
    have hu : u.val.kind ∈ memberWords .property := u.property
    simp only [Property.parts,List.append_assoc,Tree.tokensOf_append,Annotations.tokensOf_trees]
    obtain ⟨n,alts,ha,hp⟩ := members_alike.predict_annotations a _
    exact ⟨n + 1,hp.trans (predict_last (advance_member hu ha))⟩
  | none =>
    obtain ⟨n,hn⟩ := predict_typed a t v (Tree.tokensOf (defaultTrees d ++ leaves s) ++ w)
    have hnext : ∀ x w', Tree.tokensOf (defaultTrees d ++ leaves s) ++ w = x :: w' →
        x.kind ≠ .leftParen := by
      intro x w' hx
      rcases d with _ | ⟨e,i⟩
      · rcases s with _ | c
        · exact hw x w' hx
        · simp only [defaultTrees,leaves,Option.toList_none,Option.toList_some,List.flatMap_nil,
            List.map_cons,List.map_nil,List.nil_append,Tree.tokensOf_cons,Tree.tokens_leaf,
            List.cons_append,List.cons.injEq] at hx
          rw [← hx.1,c.property]
          decide
      · simp only [defaultTrees,Option.toList_some,List.flatMap_cons,List.cons_append,
          Tree.tokensOf_cons,Tree.tokens_leaf,List.cons.injEq] at hx
        rw [← hx.1,e.property]
        decide
    refine ⟨n + 1,?_⟩
    rw [predict_no_parenthesis hnext] at hn
    rw [← hn]
    simp [Property.parts]

/-- The member that is there is chosen, unless a property is followed by an opening parenthesis. -/
theorem predict_member (m : Phrase.Member) (hw : ∀ t w', w = t :: w' → t.kind ≠ .leftParen)
    (hm : m.inside = .node r cs) :
    ∃ n, predict 0 (alternatives (memberRules.map .rule)) (Tree.tokensOf cs ++ w) =
      .chosen (.rule r) n := by
  cases m with
  | operation o =>
    obtain ⟨rfl,rfl⟩ : .operation = r ∧ o.parts = cs := by simpa [Member.inside] using hm
    exact predict_operation o w
  | property p =>
    obtain ⟨rfl,rfl⟩ : .property = r ∧ p.parts = cs := by simpa [Member.inside] using hm
    exact predict_property p hw
  | signal g =>
    obtain ⟨rfl,rfl⟩ : .signal = r ∧ g.parts = cs := by simpa [Member.inside] using hm
    exact predict_signal g w

end InterfaceKit.Grammar
