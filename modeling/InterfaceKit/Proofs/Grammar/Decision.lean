import InterfaceKit.Proofs.Grammar.Prediction
import InterfaceKit.Proofs.Grammar.Sentence

/-!
# Decisions

While the parser goes through a document, what is left of the input is derived from what is left of
the rule and from the stack. Each decision keeps this: at an optional part and in a repetition
because one token decides, at a choice because reading ahead finds the alternative. A modifier
behind an operation is taken even when it was meant for the property that follows, which is then a
property without one.
-/
namespace InterfaceKit.Grammar
open Lexical Phrase

/-- A stack under which the parser enters a rule. -/
structure Fits (r : Rule) (stack : Form) : Prop where
  follow : ∀ k, stack.canStart k = true → k ∈ r.follow
  members : r = .interfaceMember ∨ r = .operation → ∃ tail, stack = behindMembers ++ tail

namespace Fits
variable {r : Rule} {stack : Form}

theorem upcoming (h : Fits r stack) {rest : Form} {k : Kind}
    (hk : (rest ++ stack).canStart k = true) : k ∈ r.upcoming rest := by
  rw [Form.canStart_append,Bool.or_eq_true,Bool.and_eq_true] at hk
  rcases hk with hk | ⟨he,hk⟩
  · exact List.mem_append_left _ ((Form.canStart_iff rest k).mp hk)
  · simp [Rule.upcoming,he,h.follow k hk]

theorem enter (h : Fits r stack) {rest : Form} {q : Rule} (hq : (Item.rule q).fits r rest = true) :
    Fits q (rest ++ stack) := by
  simp only [Item.fits,Bool.and_eq_true,Bool.or_eq_true,decide_eq_true_eq,List.all_eq_true] at hq
  obtain ⟨⟨hf,hm⟩,ho⟩ := hq
  refine ⟨fun k hk => by simpa using hf k (h.upcoming hk),?_⟩
  rintro (rfl | rfl)
  · have ht : rest.take 2 = behindMembers := by simpa using hm
    exact ⟨rest.drop 2 ++ stack,by rw [← ht,← List.append_assoc,List.take_append_drop]⟩
  · obtain ⟨rfl,rfl⟩ : r = .interfaceMember ∧ rest = [] := by simpa using ho
    exact h.members (.inl rfl)

end Fits

/-! ## The modifier of an operation -/

variable {w u : List Token} {t : Token}

theorem not_first {r : Rule} {cs : List Tree} (h : Derives r.production cs)
    (ht : Tree.tokensOf cs = t :: w) (hr : t.kind ∉ r.first) : False := by
  have hk := (Form.canStart_iff _ _).mp (h.canStart ht)
  exact hr (r.first_production.1 hk)

/-- The `const` that a property begins with. -/
def Phrase.Property.opening? (p : Property) : Option (Word .constWord) :=
  match p.annotations, p.modifier with
  | ⟨none,[]⟩, some w => if h : w.val.kind = .constWord then some ⟨w.val,h⟩ else none
  | _, _ => none

/-- Of all members only a property can begin with `const`, and without it a property is left. -/
theorem member_const (m : Member) (hm : m.inside.tokens = t :: w)
    (ht : t.kind = .constWord) : ∃ p : Property, m = .property p ∧ p.opening? = some ⟨t,ht⟩ ∧
      Tree.tokensOf ({ p with modifier := none } : Property).parts = w := by
  cases m with
  | operation o =>
    exact (not_first ((operation_yields _).mpr ⟨o,rfl⟩) (by simpa [Member.inside] using hm)
      (by rw [ht]; decide)).elim
  | signal g =>
    exact (not_first ((signal_yields _).mpr ⟨g,rfl⟩) (by simpa [Member.inside] using hm)
      (by rw [ht]; decide)).elim
  | property p =>
    obtain ⟨⟨comment,tags⟩,modifier,type,name,value,semicolon⟩ := p
    simp only [Member.inside,Property.parts,Tree.tokens_node,Tree.tokensOf_append,
      Annotations.tokensOf_trees,Annotations.tokens,List.append_assoc] at hm
    have first : ∀ (v : Token) (vs : List Token), v :: vs = t :: w → v.kind = .constWord := by
      intro v vs hv
      rw [(List.cons.inj hv).1,ht]
    rcases comment with _ | c
    · rcases tags with _ | ⟨g,tags⟩
      · rcases modifier with _ | u
        · obtain ⟨x,xs,hx,hk⟩ := type.tokens_eq_cons
          have hc := first x _ (by simpa [hx] using hm)
          rw [hc] at hk
          exact absurd hk (by decide)
        · refine ⟨_,rfl,?_⟩
          simp [Property.opening?,Property.parts] at hm ⊢
          obtain ⟨rfl,hw⟩ := hm
          exact ⟨⟨ht,rfl⟩,hw⟩
      · have hc := first g.val _ (by simpa using hm)
        rw [g.property] at hc
        contradiction
    · have hc := first c.val _ (by simpa using hm)
      rw [c.property] at hc
      contradiction

/-- A modifier that stands where an operation could end can be taken as its own. -/
theorem const_modifier {tail : Form} (ht : t.kind = .constWord)
    (h : Form.Derivable (maybeToken .semicolon :: (behindMembers ++ tail)) (t :: w)) :
    Form.Derivable (oneRule .operationModifier :: maybeToken .semicolon :: (behindMembers ++ tail))
      (t :: w) := by
  have other : ∀ {k : Kind} {f : Form}, k ≠ .constWord →
      ¬ Form.Derivable (oneToken k :: f) (t :: w) := by
    intro k f hk hd
    obtain ⟨t',w',htw,rfl,-⟩ := Form.Derivable.token_iff.mp hd
    rw [← (List.cons.inj htw).1] at hk
    exact hk ht
  have hmember : Form.Derivable (oneRule .interfaceMember :: (behindMembers ++ tail)) (t :: w) := by
    rcases Form.Derivable.maybe_iff.mp h with h | h
    · rcases Form.Derivable.many_iff.mp h with h | h
      · exact (other (by decide) h).elim
      · exact h
    · exact (other (by decide) h).elim
  rw [oneRule,Form.Derivable.rule_iff,Form.Derivable.append_iff] at hmember
  obtain ⟨a,b,hab,ha,hb⟩ := hmember
  obtain ⟨ts,hts,rfl⟩ := ha
  obtain ⟨m,rfl⟩ := (member_yields ts).mp hts
  obtain ⟨t',a',ha⟩ := List.exists_cons_of_ne_nil hts.tokens_ne_nil
  rw [ha] at hab
  obtain ⟨rfl,rfl⟩ := List.cons.inj hab
  obtain ⟨p,-,-,hp⟩ := member_const m (by simpa using ha) ht
  have hrest : Form.Derivable (behindMembers ++ tail) (a' ++ b) := by
    refine Form.Derivable.many_iff.mpr (.inr (Form.Derivable.rule_iff.mpr ?_))
    refine Form.Derivable.append_iff.mpr
      ⟨a',b,rfl,
        ⟨[(Member.property { p with modifier := none }).inside],?_,by simp [Member.inside,hp]⟩,hb⟩
    exact (member_yields _).mpr ⟨_,rfl⟩
  rw [oneRule,Form.Derivable.rule_iff]
  exact Form.Derivable.token_iff.mpr
    ⟨t,_,rfl,ht,Form.Derivable.maybe_iff.mpr (.inl hrest)⟩

/-! ## Decisions -/

theorem Form.meets_maybe (x : Item) (xs : List Item) (w : List Token) :
    Form.meets [.maybe (x :: xs)] w = Form.meets [.one x] w := by
  cases w with
  | nil => rfl
  | cons t w =>
    rw [Bool.eq_iff_iff]
    simp only [meets,canStart_iff]
    simp [first,leading]

variable {f : Form}

theorem Form.meets_eq_true (h : f.meets w = true) : ∃ t v, w = t :: v ∧ t.kind ∈ f.first := by
  cases w with
  | nil => contradiction
  | cons t v => exact ⟨t,v,rfl,(canStart_iff f t.kind).mp h⟩

theorem Form.Derivable.meets_one {x : Item} (h : Derivable (.one x :: f) u) :
    Form.meets [.one x] u = true := by
  have hu : ∃ t w, u = t :: w := by
    cases x with
    | token k =>
      obtain ⟨t,w,hu,-⟩ := token_iff.mp h
      exact ⟨t,w,hu⟩
    | rule q =>
      obtain ⟨a,b,rfl,ha,-⟩ := append_iff.mp (rule_iff.mp h)
      exact List.exists_cons_of_ne_nil (by simp [rule_ne_nil ha])
  obtain ⟨t,w,rfl⟩ := hu
  exact (canStart_one t.kind x f).symm.trans h.canStart

/-- The tokens can come where the stack is. -/
def Form.reaches (stack : Form) (w : List Token) : Prop := stack.mayEnd = true ∨ stack.meets w = true

theorem Form.Derivable.reaches {stack : Form} (h : stack.Derivable u) (v : List Token) :
    stack.reaches (u ++ v) := by
  cases u with
  | nil => exact .inl h.mayEnd
  | cons t u => exact .inr h.canStart

section Decisions
variable {r : Rule} {rest stack : Form} {u : List Token} {x : Item} {xs : List Item} {w : List Token}

theorem maybe_present (hc : Form.clear r (.maybe xs :: rest) = true) (hf : Fits r stack)
    (h : Form.Derivable (.maybe xs :: (rest ++ stack)) u) (hm : Form.meets [.maybe xs] u = true) :
    Form.Derivable (xs.map .one ++ (rest ++ stack)) u := by
  rcases Form.Derivable.maybe_iff.mp h with hd | hd
  · obtain ⟨t,w,rfl,hk⟩ := Form.meets_eq_true hm
    have hup := hf.upcoming hd.canStart
    simp only [Form.clear,Bool.and_eq_true,Bool.or_eq_true,decide_eq_true_eq] at hc
    rcases hc.1.1.1 with hdis | ⟨⟨rfl,rfl⟩,rfl⟩
    · exact absurd hup (mem_of_disjoint hdis hk)
    · obtain ⟨tail,rfl⟩ := hf.members (.inr rfl)
      exact const_modifier (by simpa [Form.first,Form.leading,Item.first,Rule.first] using hk) hd
  · exact hd

theorem maybe_absent (h : Form.Derivable (.maybe xs :: (rest ++ stack)) u)
    (hm : Form.meets [.maybe xs] u = false) : Form.Derivable (rest ++ stack) u := by
  rcases Form.Derivable.maybe_iff.mp h with hd | hd
  · exact hd
  · cases xs with
    | nil => exact hd
    | cons x xs =>
      rw [Form.meets_maybe,hd.meets_one] at hm
      contradiction

theorem many_again (hc : Form.clear r (.many x :: rest) = true) (hf : Fits r stack)
    (h : Form.Derivable (.many x :: (rest ++ stack)) u) (hm : Form.meets [.one x] u = true) :
    Form.Derivable (.one x :: .many x :: (rest ++ stack)) u := by
  rcases Form.Derivable.many_iff.mp h with hd | hd
  · obtain ⟨t,w,rfl,hk⟩ := Form.meets_eq_true hm
    rw [Form.first_one] at hk
    simp only [Form.clear,Bool.and_eq_true] at hc
    exact absurd (hf.upcoming hd.canStart) (mem_of_disjoint hc.1.1.1 hk)
  · exact hd

theorem many_stop (h : Form.Derivable (.many x :: (rest ++ stack)) u)
    (hm : Form.meets [.one x] u = false) : Form.Derivable (rest ++ stack) u := by
  rcases Form.Derivable.many_iff.mp h with hd | hd
  · exact hd
  · rw [hd.meets_one] at hm
    contradiction

theorem definition_chosen (hx : x ∈ definitionRules.map Item.rule) (hd : Form.Derivable [.one x] u)
    (w : List Token) :
    ∃ n, predict 0 (alternatives (definitionRules.map .rule)) (u ++ w) = .chosen x n := by
  obtain ⟨q,-,rfl⟩ := List.mem_map.mp hx
  rw [Form.Derivable.rule_iff,List.append_nil] at hd
  obtain ⟨cs,hcs,rfl⟩ := hd
  obtain ⟨d,hin⟩ := (definition_yields [.node q cs]).mp (.pick hx (.rule hcs .nil))
  exact predict_definition d w (List.singleton_inj.mp hin).symm

theorem member_chosen (hx : x ∈ memberRules.map Item.rule) (hd : Form.Derivable [.one x] u)
    (hw : ∀ t w', w = t :: w' → t.kind ≠ .leftParen) :
    ∃ n, predict 0 (alternatives (memberRules.map .rule)) (u ++ w) = .chosen x n := by
  obtain ⟨q,-,rfl⟩ := List.mem_map.mp hx
  rw [Form.Derivable.rule_iff,List.append_nil] at hd
  obtain ⟨cs,hcs,rfl⟩ := hd
  obtain ⟨m,hin⟩ := (member_yields [.node q cs]).mp (.pick hx (.rule hcs .nil))
  exact predict_member m hw (List.singleton_inj.mp hin).symm

/-- Behind a member comes another one or the closing brace, and never a parenthesis. -/
theorem Fits.no_parenthesis (hf : Fits .interfaceMember stack) (hw : stack.reaches w) :
    ∀ t w', w = t :: w' → t.kind ≠ .leftParen := by
  rintro t w' rfl ht
  obtain ⟨tail,rfl⟩ := hf.members (.inl rfl)
  rcases hw with hw | hw
  · simp [behindMembers,oneToken] at hw
  · have hfollow := hf.follow _ hw
    rw [ht] at hfollow
    exact absurd hfollow (by decide)

theorem choice_chosen (hc : Form.clear r (.choice xs :: rest) = true) (hf : Fits r stack)
    (hx : x ∈ xs) (hd : Form.Derivable (.one x :: rest) u) (hw : stack.reaches w) :
    ∃ n, predict 0 (alternatives xs) (u ++ w) = .chosen x n := by
  simp only [Form.clear,Bool.and_eq_true,Bool.or_eq_true,decide_eq_true_eq] at hc
  rcases hc.1.1.1 with hp | ⟨rfl | rfl,hp⟩
  · obtain ⟨t,u,rfl,hk⟩ := Form.meets_eq_true hd.meets_one
    rw [Form.first_one] at hk
    exact ⟨1,predict_single hp hx hk⟩
  · obtain ⟨rfl,rfl⟩ : xs = definitionRules.map .rule ∧ rest = [] := by
      simpa [Rule.production,definitionRules] using hp
    exact definition_chosen hx hd w
  · obtain ⟨rfl,rfl⟩ : xs = memberRules.map .rule ∧ rest = [] := by
      simpa [Rule.production,memberRules] using hp
    exact member_chosen hx hd (hf.no_parenthesis hw)

end Decisions

end InterfaceKit.Grammar
