import InterfaceKit.Proofs.Grammar.Lookahead
import InterfaceKit.Proofs.Grammar.Phrase

/-!
# Sentences

The rows of tokens that a form derives, without the trees. A form derives a row of its parts in one
way or another; a form can begin with a token exactly when it derives a row with that token in
front.

`Ends f u v` says that `f` derives `u` and that nothing longer can be read when `v` follows: no row
that `f` derives goes on from `u` with the first token of `v`.
-/
namespace InterfaceKit.Grammar
open Lexical

def Form.Derivable (f : Form) (w : List Token) : Prop := ∃ ts, Derives f ts ∧ Tree.tokensOf ts = w

namespace Form.Derivable
variable {f g : Form} {w : List Token}

theorem nil_iff : Derivable [] w ↔ w = [] := by
  constructor
  · rintro ⟨ts,h,rfl⟩
    cases h
    rfl
  · rintro rfl
    exact ⟨[],.nil,rfl⟩

theorem token_iff {k : Kind} : Derivable (.one (.token k) :: f) w ↔
    ∃ t u, w = t :: u ∧ t.kind = k ∧ Derivable f u := by
  constructor
  · rintro ⟨ts,h,rfl⟩
    cases h with
    | @token _ us t h => exact ⟨t,Tree.tokensOf us,by simp,rfl,us,h,rfl⟩
  · rintro ⟨t,_,rfl,rfl,ts,h,rfl⟩
    exact ⟨_,.token t h,by simp⟩

theorem append_iff : Derivable (f ++ g) w ↔ ∃ u v, w = u ++ v ∧ Derivable f u ∧ Derivable g v := by
  constructor
  · rintro ⟨ts,h,rfl⟩
    obtain ⟨as,bs,rfl,ha,hb⟩ := h.split
    exact ⟨_,_,Tree.tokensOf_append as bs,⟨as,ha,rfl⟩,⟨bs,hb,rfl⟩⟩
  · rintro ⟨_,_,rfl,⟨as,ha,rfl⟩,⟨bs,hb,rfl⟩⟩
    exact ⟨as ++ bs,ha.append hb,Tree.tokensOf_append as bs⟩

variable {r : Rule}

theorem rule_iff : Derivable (.one (.rule r) :: f) w ↔ Derivable (r.production ++ f) w := by
  rw [append_iff]
  constructor
  · rintro ⟨ts,h,rfl⟩
    cases h with
    | @rule _ _ us ts hr h =>
      exact ⟨Tree.tokensOf us,Tree.tokensOf ts,by simp,⟨us,hr,rfl⟩,⟨ts,h,rfl⟩⟩
  · rintro ⟨_,_,rfl,⟨us,hr,rfl⟩,⟨ts,h,rfl⟩⟩
    exact ⟨_,.rule hr h,by simp⟩

variable {xs : List Item}

theorem maybe_iff :
    Derivable (.maybe xs :: f) w ↔ Derivable f w ∨ Derivable (xs.map .one ++ f) w := by
  simp only [Derivable,Derives.maybe_iff,or_and_right,exists_or]

theorem many_iff {x : Item} : Derivable (.many x :: f) w ↔
    Derivable f w ∨ Derivable (.one x :: .many x :: f) w := by
  constructor
  · rintro ⟨ts,h,ht⟩
    cases h with
    | stop h => exact .inl ⟨ts,h,ht⟩
    | again h => exact .inr ⟨ts,h,ht⟩
  · rintro (⟨ts,h,ht⟩ | ⟨ts,h,ht⟩)
    · exact ⟨ts,.stop h,ht⟩
    · exact ⟨ts,.again h,ht⟩

theorem choice_iff : Derivable (.choice xs :: f) w ↔ ∃ x ∈ xs, Derivable (.one x :: f) w := by
  constructor
  · rintro ⟨ts,h,ht⟩
    obtain ⟨x,hx,h⟩ := Derives.choice_iff.mp h
    exact ⟨x,hx,ts,h,ht⟩
  · rintro ⟨x,hx,ts,h,ht⟩
    exact ⟨ts,.pick hx h,ht⟩

theorem canStart {t : Token} (h : f.Derivable (t :: w)) : f.canStart t.kind = true := by
  obtain ⟨ts,h,ht⟩ := h
  exact h.canStart ht

theorem mayEnd (h : f.Derivable []) : f.mayEnd = true := by
  obtain ⟨ts,h,ht⟩ := h
  exact (h.mayEnd_of_tokens ht).1

theorem rule_ne_nil (h : r.production.Derivable w) : w ≠ [] := by
  obtain ⟨ts,h,rfl⟩ := h
  exact h.tokens_ne_nil

end Form.Derivable

/-! ## Every first token is reached -/

/-- How deep the shortest tree of a rule is nested. -/
def Rule.rank : Rule → Nat
  | .listType | .mapType | .modelType | .parameter | .property | .structField | .operation => 3
  | .document => 3
  | .interfaceMember => 4
  | .type | .enum | .definition | .header => 2
  | _ => 1

def Item.rank : Item → Nat
  | .token _ => 0
  | .rule r => r.rank

/-- A form can be filled with items of a rank below `n`. -/
def Form.fillable (n : Nat) (f : Form) : Bool :=
  f.all fun
    | .one x => x.rank < n
    | .maybe _ | .many _ => true
    | .choice xs => xs.any (·.rank < n)

theorem Rule.production_fillable (r : Rule) : r.production.fillable r.rank = true := by
  cases r <;> decide

variable {f : Form} {t : Token}

theorem Form.fillable_mono {m n : Nat} (hmn : m ≤ n) (h : f.fillable m = true) :
    f.fillable n = true := by
  simp only [fillable,List.all_eq_true] at h ⊢
  intro p hp
  have hp := h p hp
  cases p with
  | one x =>
    simp only [decide_eq_true_eq] at hp ⊢
    omega
  | maybe _ | many _ => rfl
  | choice xs =>
    obtain ⟨x,hx,hn⟩ := List.any_eq_true.mp hp
    simp only [decide_eq_true_eq] at hn
    exact List.any_eq_true.mpr ⟨x,hx,by simp only [decide_eq_true_eq]; omega⟩

theorem Form.derivable_of_fillable {n : Nat} (h : ∀ x : Item, x.rank < n → ∃ w, Derivable [.one x] w)
    (f : Form) (hf : f.fillable n = true) : ∃ w, f.Derivable w := by
  induction f with
  | nil => exact ⟨[],Derivable.nil_iff.mpr rfl⟩
  | cons p f ih =>
    simp only [fillable,List.all_cons,Bool.and_eq_true] at hf
    obtain ⟨v,hv⟩ := ih hf.2
    cases p with
    | one x =>
      obtain ⟨u,hu⟩ := h x (by simpa using hf.1)
      exact ⟨u ++ v,Derivable.append_iff.mpr ⟨u,v,rfl,hu,hv⟩⟩
    | maybe xs => exact ⟨v,Derivable.maybe_iff.mpr (.inl hv)⟩
    | many x => exact ⟨v,Derivable.many_iff.mpr (.inl hv)⟩
    | choice xs =>
      obtain ⟨x,hx,hn⟩ := List.any_eq_true.mp hf.1
      obtain ⟨u,hu⟩ := h x (by simpa using hn)
      exact ⟨u ++ v,Derivable.choice_iff.mpr
        ⟨x,hx,Derivable.append_iff.mpr ⟨u,v,rfl,hu,hv⟩⟩⟩

theorem Item.productive (n : Nat) : ∀ x : Item, x.rank < n → ∃ w, Form.Derivable [.one x] w := by
  induction n with
  | zero =>
    intro x hx
    omega
  | succ n ih =>
    intro x hx
    cases x with
    | token k => exact ⟨_,Form.Derivable.token_iff.mpr
        ⟨⟨k,"",.start,false⟩,[],rfl,rfl,Form.Derivable.nil_iff.mpr rfl⟩⟩
    | rule r =>
      have hf := Form.fillable_mono (Nat.le_of_lt_succ hx) r.production_fillable
      obtain ⟨w,hw⟩ := Form.derivable_of_fillable ih r.production hf
      exact ⟨w,Form.Derivable.rule_iff.mpr (by simpa using hw)⟩

theorem Item.rank_lt (x : Item) : x.rank < 5 := by
  cases x with
  | token k => exact Nat.zero_lt_succ 4
  | rule r => cases r <;> decide

theorem Form.productive (hf : f.fillable 5 = true) : ∃ w, f.Derivable w :=
  derivable_of_fillable (Item.productive 5) f hf

theorem Form.derivable_of_leading {x : Item} {u : List Token}
    (hf : f.fillable 5 = true) (hx : x ∈ f.leading) (h : Derivable [.one x] (t :: u)) :
    ∃ w, f.Derivable (t :: w) := by
  have put : ∀ g : Form, g.fillable 5 = true → ∃ w, Derivable (.one x :: g) (t :: w) := by
    intro g hg
    obtain ⟨v,hv⟩ := productive hg
    exact ⟨u ++ v,Derivable.append_iff.mpr ⟨t :: u,v,rfl,h,hv⟩⟩
  induction f with
  | nil => simp [leading] at hx
  | cons p f ih =>
    have hrest : Form.fillable 5 f = true := by
      simp only [fillable,List.all_cons,Bool.and_eq_true] at hf ⊢
      exact hf.2
    cases p with
    | one y =>
      obtain rfl : x = y := by simpa [leading] using hx
      exact put f hrest
    | maybe xs =>
      rcases List.mem_append.mp hx with hx | hx
      · cases xs with
        | nil => simp at hx
        | cons y ys =>
          obtain rfl : x = y := by simpa using hx
          have hys : Form.fillable 5 (ys.map .one ++ f) = true := by
            simp only [fillable,List.all_append,Bool.and_eq_true] at hrest ⊢
            exact ⟨by simp [Item.rank_lt],hrest⟩
          obtain ⟨w,hw⟩ := put _ hys
          exact ⟨w,Derivable.maybe_iff.mpr (.inr hw)⟩
      · obtain ⟨w,hw⟩ := ih hrest hx
        exact ⟨w,Derivable.maybe_iff.mpr (.inl hw)⟩
    | many y =>
      rcases List.mem_cons.mp hx with rfl | hx
      · obtain ⟨w,hw⟩ := put (.many x :: f) hf
        exact ⟨w,Derivable.many_iff.mpr (.inr hw)⟩
      · obtain ⟨w,hw⟩ := ih hrest hx
        exact ⟨w,Derivable.many_iff.mpr (.inl hw)⟩
    | choice xs =>
      obtain ⟨w,hw⟩ := put f hrest
      exact ⟨w,Derivable.choice_iff.mpr ⟨x,hx,hw⟩⟩

theorem Item.derivable_of_canStart (t : Token) (n : Nat) : ∀ x : Item, x.height ≤ n →
    Form.canStart [.one x] t.kind = true → ∃ w, Form.Derivable [.one x] (t :: w) := by
  have htoken : ∀ k, Form.canStart [.one (.token k)] t.kind = true →
      ∃ w, Form.Derivable [.one (.token k)] (t :: w) := by
    intro k hk
    have hk : t.kind = k := by simpa [Item.first] using (Form.canStart_token t.kind k).mp hk
    exact ⟨[],Form.Derivable.token_iff.mpr ⟨t,[],rfl,hk,Form.Derivable.nil_iff.mpr rfl⟩⟩
  induction n with
  | zero =>
    intro x hx hk
    cases x with
    | token k => exact htoken k hk
    | rule r =>
      have hr : r.height = 0 := Nat.le_zero.mp hx
      cases r <;> contradiction
  | succ n ih =>
    intro x hx hk
    cases x with
    | token k => exact htoken k hk
    | rule r =>
      have hp : r.production.canStart t.kind = true := by simpa [Form.canStart] using hk
      rw [Form.canStart_leading,List.any_eq_true] at hp
      obtain ⟨y,hy,hk⟩ := hp
      have hh := r.height_leading y hy
      simp only [Item.height] at hx
      obtain ⟨u,hu⟩ := ih y (by omega) hk
      have hf := Form.fillable_mono (Nat.le_of_lt (Item.rank_lt (.rule r))) r.production_fillable
      obtain ⟨w,hw⟩ := Form.derivable_of_leading hf hy hu
      exact ⟨w,Form.Derivable.rule_iff.mpr (by simpa using hw)⟩

/-- A form that may end and can begin with a token derives a row that begins with it. -/
theorem Form.derivable_of_canStart (hf : f.mayEnd = true)
    (hk : f.canStart t.kind = true) : ∃ w, f.Derivable (t :: w) := by
  rw [canStart_leading,List.any_eq_true] at hk
  obtain ⟨x,hx,hk⟩ := hk
  obtain ⟨u,hu⟩ := Item.derivable_of_canStart t _ x (Nat.le_refl _) hk
  refine derivable_of_leading ?_ hx hu
  simp only [mayEnd,fillable,List.all_eq_true] at hf ⊢
  intro p hp
  have hp := hf p hp
  cases p <;> simp_all

/-! ## Where a sentence ends -/

/-- The form derives `u`, and no row that it derives goes on from `u` as `v` does. -/
def Ends (f : Form) (u v : List Token) : Prop :=
  f.Derivable u ∧ ∀ t v', v = t :: v' → ∀ y, ¬ f.Derivable (u ++ t :: y)

namespace Ends
variable {f g : Form} {u v : List Token}

/-- A form that derives less ends where the wider one does. -/
theorem narrow (h : Ends f u v) (hg : g.Derivable u) (hle : ∀ w, g.Derivable w → f.Derivable w) :
    Ends g u v :=
  ⟨hg,fun t v' hv y hd => h.2 t v' hv y (hle _ hd)⟩

theorem token {k : Kind} (h : Ends (.one (.token k) :: f) u v) :
    ∃ t w, u = t :: w ∧ t.kind = k ∧ Ends f w v := by
  obtain ⟨t,w,rfl,hk,hw⟩ := Form.Derivable.token_iff.mp h.1
  refine ⟨t,w,rfl,hk,hw,fun t' v' hv y hd => ?_⟩
  exact h.2 t' v' hv y (Form.Derivable.token_iff.mpr ⟨t,_,rfl,hk,hd⟩)

theorem rule {r : Rule} (h : Ends (.one (.rule r) :: f) u v) : Ends (r.production ++ f) u v :=
  h.narrow (Form.Derivable.rule_iff.mp h.1) fun _ hw => Form.Derivable.rule_iff.mpr hw

/-- When nothing more is derived, the form cannot begin with what follows. -/
theorem refuses {t : Token} {v' : List Token} (h : Ends f [] (t :: v')) :
    f.canStart t.kind = false := by
  by_contra hk
  obtain ⟨w,hw⟩ := Form.derivable_of_canStart h.1.mayEnd (by simpa using hk)
  exact h.2 t v' rfl w hw

end Ends

end InterfaceKit.Grammar
