import InterfaceKit.Grammar.Form
import InterfaceKit.Grammar.Tree

/-!
# Derivations

What the grammar allows, said without the parser: a row of trees is derived from a form by taking
the parts of the form in order. A part that may be absent is left out or put in, a repetition goes
round any number of times, a choice picks one of its items, and a rule is replaced by what its
production derives.

No production derives the empty row. So every tree has a token, and a form derives the empty row
exactly by leaving out all of its parts.
-/
namespace InterfaceKit.Grammar
open Lexical

inductive Derives : Form → List Tree → Prop
  | nil : Derives [] []
  | token {rest : Form} {ts : List Tree} (t : Token) :
      Derives rest ts → Derives (.one (.token t.kind) :: rest) (.leaf t :: ts)
  | rule {r : Rule} {rest : Form} {us ts : List Tree} :
      Derives r.production us → Derives rest ts → Derives (.one (.rule r) :: rest) (.node r us :: ts)
  | absent {xs : List Item} {rest : Form} {ts : List Tree} :
      Derives rest ts → Derives (.maybe xs :: rest) ts
  | present {xs : List Item} {rest : Form} {ts : List Tree} :
      Derives (xs.map .one ++ rest) ts → Derives (.maybe xs :: rest) ts
  | stop {x : Item} {rest : Form} {ts : List Tree} :
      Derives rest ts → Derives (.many x :: rest) ts
  | again {x : Item} {rest : Form} {ts : List Tree} :
      Derives (.one x :: .many x :: rest) ts → Derives (.many x :: rest) ts
  | pick {x : Item} {xs : List Item} {rest : Form} {ts : List Tree} :
      x ∈ xs → Derives (.one x :: rest) ts → Derives (.choice xs :: rest) ts

namespace Tree

@[simp] theorem tokens_leaf (t : Token) : (leaf t).tokens = [t] := by simp [tokens]

@[simp] theorem tokens_node (r : Rule) (ts : List Tree) : (node r ts).tokens = tokensOf ts := by
  simp [tokens]

@[simp] theorem tokensOf_nil : tokensOf [] = [] := by simp [tokensOf]

@[simp] theorem tokensOf_cons (t : Tree) (ts : List Tree) :
    tokensOf (t :: ts) = t.tokens ++ tokensOf ts := by simp [tokensOf]

@[simp] theorem tokensOf_append (ts us : List Tree) :
    tokensOf (ts ++ us) = tokensOf ts ++ tokensOf us := by
  induction ts with
  | nil => rfl
  | cons t ts ih => simp [ih]

end Tree

namespace Form

@[simp] theorem mayEnd_nil : mayEnd [] = true := rfl

@[simp] theorem mayEnd_one (x : Item) (f : Form) : mayEnd (.one x :: f) = false := rfl

@[simp] theorem mayEnd_maybe (xs : List Item) (f : Form) : mayEnd (.maybe xs :: f) = f.mayEnd := rfl

@[simp] theorem mayEnd_many (x : Item) (f : Form) : mayEnd (.many x :: f) = f.mayEnd := rfl

@[simp] theorem mayEnd_choice (xs : List Item) (f : Form) : mayEnd (.choice xs :: f) = false := rfl

@[simp] theorem mayEnd_append (f g : Form) : mayEnd (f ++ g) = (f.mayEnd && g.mayEnd) := by
  simp [mayEnd]

end Form

theorem Rule.production_mayEnd (r : Rule) : r.production.mayEnd = false := by cases r <;> rfl

namespace Derives
variable {f g : Form} {ts us : List Tree}

theorem append (h : Derives f ts) (k : Derives g us) : Derives (f ++ g) (ts ++ us) := by
  induction h with
  | nil => exact k
  | token t _ ih => exact .token t ih
  | rule hr _ _ ih => exact .rule hr ih
  | absent _ ih => exact .absent ih
  | present _ ih =>
    rw [List.append_assoc] at ih
    exact .present ih
  | stop _ ih => exact .stop ih
  | again _ ih => exact .again ih
  | pick hx _ ih => exact .pick hx ih

theorem split (h : Derives (f ++ g) ts) : ∃ as bs, ts = as ++ bs ∧ Derives f as ∧ Derives g bs := by
  generalize hfg : f ++ g = form at h
  induction h generalizing f with
  | nil =>
    obtain ⟨rfl,rfl⟩ := List.append_eq_nil_iff.mp hfg
    exact ⟨[],[],rfl,.nil,.nil⟩
  | token t h ih =>
    rcases List.append_eq_cons_iff.mp hfg with ⟨rfl,rfl⟩ | ⟨f',rfl,hf⟩
    · exact ⟨[],_,rfl,.nil,.token t h⟩
    · obtain ⟨as,bs,rfl,ha,hb⟩ := ih hf.symm
      exact ⟨_ :: as,bs,rfl,.token t ha,hb⟩
  | rule hr h _ ih =>
    rcases List.append_eq_cons_iff.mp hfg with ⟨rfl,rfl⟩ | ⟨f',rfl,hf⟩
    · exact ⟨[],_,rfl,.nil,.rule hr h⟩
    · obtain ⟨as,bs,rfl,ha,hb⟩ := ih hf.symm
      exact ⟨_ :: as,bs,rfl,.rule hr ha,hb⟩
  | absent h ih =>
    rcases List.append_eq_cons_iff.mp hfg with ⟨rfl,rfl⟩ | ⟨f',rfl,hf⟩
    · exact ⟨[],_,rfl,.nil,.absent h⟩
    · obtain ⟨as,bs,rfl,ha,hb⟩ := ih hf.symm
      exact ⟨as,bs,rfl,.absent ha,hb⟩
  | @present xs rest ts h ih =>
    rcases List.append_eq_cons_iff.mp hfg with ⟨rfl,rfl⟩ | ⟨f',rfl,hf⟩
    · exact ⟨[],_,rfl,.nil,.present h⟩
    · obtain ⟨as,bs,rfl,ha,hb⟩ := ih (by rw [List.append_assoc,← hf] : xs.map .one ++ f' ++ g = _)
      exact ⟨as,bs,rfl,.present ha,hb⟩
  | stop h ih =>
    rcases List.append_eq_cons_iff.mp hfg with ⟨rfl,rfl⟩ | ⟨f',rfl,hf⟩
    · exact ⟨[],_,rfl,.nil,.stop h⟩
    · obtain ⟨as,bs,rfl,ha,hb⟩ := ih hf.symm
      exact ⟨as,bs,rfl,.stop ha,hb⟩
  | @again x rest ts h ih =>
    rcases List.append_eq_cons_iff.mp hfg with ⟨rfl,rfl⟩ | ⟨f',rfl,hf⟩
    · exact ⟨[],_,rfl,.nil,.again h⟩
    · obtain ⟨as,bs,rfl,ha,hb⟩ :=
        ih (by rw [hf]; rfl : (.one x :: .many x :: f') ++ g = .one x :: .many x :: rest)
      exact ⟨as,bs,rfl,.again ha,hb⟩
  | @pick x xs rest ts hx h ih =>
    rcases List.append_eq_cons_iff.mp hfg with ⟨rfl,rfl⟩ | ⟨f',rfl,hf⟩
    · exact ⟨[],_,rfl,.nil,.pick hx h⟩
    · obtain ⟨as,bs,rfl,ha,hb⟩ := ih (by rw [hf]; rfl : (.one x :: f') ++ g = .one x :: rest)
      exact ⟨as,bs,rfl,.pick hx ha,hb⟩

/-- Only the empty row has no tokens, and only a form that may end derives it. -/
theorem mayEnd_of_tokens (h : Derives f ts) : Tree.tokensOf ts = [] → f.mayEnd = true ∧ ts = [] := by
  induction h with
  | nil => simp
  | token t _ _ => simp
  | @rule r rest us ts _ _ ih _ =>
    intro ht
    simp only [Tree.tokensOf_cons,Tree.tokens_node,List.append_eq_nil_iff] at ht
    have he := (ih ht.1).1
    rw [r.production_mayEnd] at he
    contradiction
  | absent _ ih | stop _ ih => simpa using ih
  | @present xs rest ts _ ih =>
    intro ht
    have he := ih ht
    simp only [Form.mayEnd_append,Bool.and_eq_true] at he
    exact ⟨he.1.2,he.2⟩
  | again _ ih | pick _ _ ih => exact fun ht => absurd (ih ht).1 (by simp)

theorem tokens_ne_nil {r : Rule} (h : Derives r.production us) : Tree.tokensOf us ≠ [] := by
  intro ht
  have he := (h.mayEnd_of_tokens ht).1
  rw [r.production_mayEnd] at he
  contradiction

end Derives

end InterfaceKit.Grammar
