import InterfaceKit.Proofs.Grammar.Derivation
import Mathlib.Data.List.Basic

/-!
# First tokens

The remainders of a form behind a token are exact: what a form derives with the token `t` in front
is what one of its remainders behind `t` derives, with `t` before it. The parser opens rules up to a
fixed depth; since no rule begins with itself, the depth does not show, and the remainders obey one
equation for each part of a form.
-/
namespace InterfaceKit.Grammar
open Lexical

/-- How deep rules are nested at the beginning of what a rule derives. -/
def Rule.height : Rule → Nat
  | .complexType | .primitiveType | .listType | .mapType | .modelType => 1
  | .importLine | .operationModifier | .propertyModifier | .tag | .tagAttribute => 1
  | .enumKind | .integer => 1
  | .moduleHead | .interface | .struct | .enum | .enumMember | .signal | .type => 2
  | .header | .definition | .parameter | .operation | .property | .structField => 3
  | .document | .interfaceMember => 4

def Item.height : Item → Nat
  | .token _ => 0
  | .rule r => r.height

namespace Form

/-- The items that can come first in a form. -/
def leading : Form → List Item
  | [] => []
  | .one x :: _ => [x]
  | .maybe xs :: rest => xs.take 1 ++ leading rest
  | .many x :: rest => x :: leading rest
  | .choice xs :: _ => xs

theorem afterWith_congr {step step' : Item → List Form} (f : Form)
    (h : ∀ x ∈ f.leading, step x = step' x) : f.afterWith step = f.afterWith step' := by
  induction f with
  | nil => rfl
  | cons p f ih =>
    cases p with
    | one x => simp [afterWith,h x (by simp [leading])]
    | maybe xs =>
      have hf := ih fun x hx => h x (by simp [leading,hx])
      cases xs with
      | nil => simpa [afterWith] using hf
      | cons x xs => simp [afterWith,hf,h x (by simp [leading])]
    | many x =>
      have hf := ih fun y hy => h y (by simp [leading,hy])
      simp [afterWith,hf,h x (by simp [leading])]
    | choice xs => exact List.flatMap_congr fun x hx => by rw [h x (by simpa [leading] using hx)]

end Form

/-- No rule begins with itself. -/
theorem Rule.height_leading (r : Rule) : ∀ x ∈ r.production.leading, x.height < r.height := by
  cases r <;> decide

theorem Rule.height_le (r : Rule) : r.height ≤ 4 := by cases r <;> decide

/-- A depth that reaches the first tokens of an item is as good as any other. -/
theorem Item.after_depth (k : Kind) (d : Nat) :
    ∀ (d' : Nat) (x : Item), x.height ≤ d → x.height ≤ d' →
    Item.after k d x = Item.after k d' x := by
  induction d with
  | zero =>
    intro d' x hx _
    cases x with
    | token k' => simp [Item.after]
    | rule r =>
      have hr : r.height = 0 := Nat.le_zero.mp hx
      cases r <;> contradiction
  | succ d ih =>
    intro d' x hx hx'
    cases x with
    | token k' => simp [Item.after]
    | rule r =>
      cases d' with
      | zero =>
        have hr : r.height = 0 := Nat.le_zero.mp hx'
        cases r <;> contradiction
      | succ d' =>
        simp only [Item.after]
        apply Form.afterWith_congr
        intro y hy
        have hh := r.height_leading y hy
        simp only [Item.height] at hx hx'
        exact ih d' y (by omega) (by omega)

namespace Form

theorem after_rule (k : Kind) (r : Rule) :
    Item.after k openingDepth (.rule r) = r.production.after k := by
  change Form.afterWith (Item.after k 26) r.production =
    Form.afterWith (Item.after k 27) r.production
  apply afterWith_congr
  intro x hx
  have hh := r.height_leading x hx
  have hr := r.height_le
  exact Item.after_depth k 26 27 x (by omega) (by omega)

@[simp] theorem after_nil (k : Kind) : after [] k = [] := rfl

@[simp] theorem after_token (k k' : Kind) (f : Form) :
    after (.one (.token k') :: f) k = if k' = k then [f] else [] := by
  by_cases h : k' = k <;> simp [after,afterWith,Item.after,h]

@[simp] theorem after_one_rule (k : Kind) (r : Rule) (f : Form) :
    after (.one (.rule r) :: f) k = (r.production.after k).map (· ++ f) := by
  simp only [after,afterWith,after_rule]

@[simp] theorem after_maybe (k : Kind) (x : Item) (xs : List Item) (f : Form) :
    after (.maybe (x :: xs) :: f) k = after (.one x :: (xs.map .one ++ f)) k ++ f.after k := rfl

@[simp] theorem after_many (k : Kind) (x : Item) (f : Form) :
    after (.many x :: f) k = after (.one x :: .many x :: f) k ++ f.after k := rfl

@[simp] theorem after_choice (k : Kind) (xs : List Item) (f : Form) :
    after (.choice xs :: f) k = xs.flatMap fun x => after (.one x :: f) k := rfl

theorem after_append (k : Kind) (f g : Form) :
    after (f ++ g) k = (f.after k).map (· ++ g) ++ if f.mayEnd then g.after k else [] := by
  simp only [after]
  induction f with
  | nil => simp [afterWith]
  | cons p f ih =>
    cases p with
    | one x => simp [afterWith]
    | maybe xs =>
      cases xs with
      | nil => exact ih
      | cons x xs =>
        simp only [List.cons_append,afterWith,ih,List.map_append,List.map_map,
          Function.comp_def,List.append_assoc,mayEnd_maybe]
        rfl
    | many x =>
      simp only [List.cons_append,afterWith,ih,List.map_append,List.map_map,
        Function.comp_def,List.append_assoc,mayEnd_many]
      rfl
    | choice xs => simp [afterWith,List.map_flatMap,Function.comp_def]

theorem canStart_append (k : Kind) (f g : Form) :
    canStart (f ++ g) k = (f.canStart k || f.mayEnd && g.canStart k) := by
  simp only [canStart,after_append]
  cases f.after k <;> cases g.after k <;> cases f.mayEnd <;> simp

theorem canStart_one (k : Kind) (x : Item) (f : Form) :
    canStart (.one x :: f) k = canStart [.one x] k := by
  simpa using canStart_append k [.one x] f

theorem canStart_maybe (k : Kind) (xs : List Item) (f : Form) :
    canStart (.maybe xs :: f) k = (canStart [.maybe xs] k || f.canStart k) := by
  simpa using canStart_append k [.maybe xs] f

theorem canStart_many (k : Kind) (x : Item) (f : Form) :
    canStart (.many x :: f) k = (canStart [.one x] k || f.canStart k) := by
  rw [← canStart_one k x (.many x :: f)]
  simp only [canStart,after_many]
  cases after (.one x :: .many x :: f) k <;> simp

theorem canStart_choice (k : Kind) (xs : List Item) (f : Form) :
    canStart (.choice xs :: f) k = xs.any fun x => canStart [.one x] k := by
  induction xs with
  | nil => rfl
  | cons x xs ih =>
    rw [List.any_cons,← ih,← canStart_one k x f]
    simp only [canStart,after_choice,List.flatMap_cons]
    cases after (.one x :: f) k <;> simp

end Form

namespace Derives
variable {f : Form} {ts : List Tree} {t : Token} {w : List Token}

/-- The first token of a derived row leads to one of the remainders behind it. -/
theorem after (h : Derives f ts) (ht : Tree.tokensOf ts = t :: w) :
    ∃ g ∈ f.after t.kind, ∃ us, Derives g us ∧ Tree.tokensOf us = w := by
  induction h generalizing w with
  | nil => simp at ht
  | @token rest ts u h _ =>
    simp only [Tree.tokensOf_cons,Tree.tokens_leaf,List.singleton_append,List.cons.injEq] at ht
    obtain ⟨rfl,rfl⟩ := ht
    exact ⟨rest,by simp,ts,h,rfl⟩
  | @rule r rest us ts hr h ih _ =>
    simp only [Tree.tokensOf_cons,Tree.tokens_node] at ht
    rcases List.append_eq_cons_iff.mp ht with ⟨hu,-⟩ | ⟨w',hu,rfl⟩
    · exact absurd hu hr.tokens_ne_nil
    · obtain ⟨g,hg,vs,hv,rfl⟩ := ih hu
      exact ⟨g ++ rest,by
        rw [Form.after_one_rule]; exact List.mem_map_of_mem hg,vs ++ ts,hv.append h,by simp⟩
  | @absent xs rest ts _ ih =>
    obtain ⟨g,hg,us,hu⟩ := ih ht
    refine ⟨g,?_,us,hu⟩
    cases xs with
    | nil => exact hg
    | cons x xs => exact List.mem_append_right _ hg
  | @present xs rest ts _ ih =>
    obtain ⟨g,hg,us,hu⟩ := ih ht
    refine ⟨g,?_,us,hu⟩
    cases xs with
    | nil => exact hg
    | cons x xs => exact List.mem_append_left _ hg
  | stop _ ih =>
    obtain ⟨g,hg,us,hu⟩ := ih ht
    exact ⟨g,List.mem_append_right _ hg,us,hu⟩
  | again _ ih =>
    obtain ⟨g,hg,us,hu⟩ := ih ht
    exact ⟨g,List.mem_append_left _ hg,us,hu⟩
  | pick hx _ ih =>
    obtain ⟨g,hg,us,hu⟩ := ih ht
    exact ⟨g,List.mem_flatMap.mpr ⟨_,hx,hg⟩,us,hu⟩

theorem canStart (h : Derives f ts) (ht : Tree.tokensOf ts = t :: w) : f.canStart t.kind = true := by
  obtain ⟨g,hg,-⟩ := h.after ht
  cases hf : f.after t.kind with
  | nil => rw [hf] at hg; contradiction
  | cons _ _ => simp [Form.canStart,hf]

end Derives

end InterfaceKit.Grammar
