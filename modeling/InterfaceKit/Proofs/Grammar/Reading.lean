import InterfaceKit.Grammar.Parser
import InterfaceKit.Proofs.Grammar.Derivation

/-!
# What the parser reads

`Reads f w ts v` says how the parser goes through a form: it reads the trees `ts` off the tokens `w`
and leaves the tokens `v`. Each decision is taken as the parser takes it, by the next token or, at a
choice, by reading ahead. Bookkeeping is left out: the bound on the depth, the tokens that were
looked at, the remarks and the stack, which matter to complaints only.

A parse that succeeds is such a reading, and a reading is a derivation whose tokens, followed by
those that are left, are the tokens it began with.
-/
namespace InterfaceKit.Grammar
open Lexical

/-- Whether a form can begin with the next token. -/
def Form.meets (f : Form) : List Token → Bool
  | [] => false
  | t :: _ => f.canStart t.kind

/-- The alternatives of a choice, before any token is read ahead. -/
def alternatives (xs : List Item) : List (Item × List Form) := xs.map fun x => (x, [[.one x]])

inductive Reads : Form → List Token → List Tree → List Token → Prop
  | nil (w : List Token) : Reads [] w [] w
  | token {rest : Form} {w v : List Token} {ts : List Tree} (t : Token) :
      Reads rest w ts v → Reads (.one (.token t.kind) :: rest) (t :: w) (.leaf t :: ts) v
  | rule {r : Rule} {rest : Form} {w u v : List Token} {us ts : List Tree} :
      Reads r.production w us u → Reads rest u ts v →
      Reads (.one (.rule r) :: rest) w (.node r us :: ts) v
  | absent {xs : List Item} {rest : Form} {w v : List Token} {ts : List Tree} :
      Form.meets [.maybe xs] w = false → Reads rest w ts v → Reads (.maybe xs :: rest) w ts v
  | present {xs : List Item} {rest : Form} {w v : List Token} {ts : List Tree} :
      Form.meets [.maybe xs] w = true → Reads (xs.map .one ++ rest) w ts v →
      Reads (.maybe xs :: rest) w ts v
  | stop {x : Item} {rest : Form} {w v : List Token} {ts : List Tree} :
      Form.meets [.one x] w = false → Reads rest w ts v → Reads (.many x :: rest) w ts v
  | again {x : Item} {rest : Form} {w v : List Token} {ts : List Tree} :
      Form.meets [.one x] w = true → Reads (.one x :: .many x :: rest) w ts v →
      Reads (.many x :: rest) w ts v
  | pick {x : Item} {xs : List Item} {rest : Form} {w v : List Token} {ts : List Tree} {n : Nat} :
      predict 0 (alternatives xs) w = .chosen x n → Reads (.one x :: rest) w ts v →
      Reads (.choice xs :: rest) w ts v

/-! ## Reading ahead -/

/-- The alternatives that can go on with a token. -/
def advance (alts : List (Item × List Form)) (k : Kind) : List (Item × List Form) :=
  alts.filterMap fun a =>
    let forms := a.2.flatMap (·.after k)
    if forms.isEmpty then none else some (a.1, forms)

theorem predict_cons (n : Nat) (alts : List (Item × List Form)) (t : Token) (ts : List Token) :
    predict n alts (t :: ts) =
      match advance alts t.kind with
      | [] => predict.undecided n alts
      | [a] => .chosen a.1 (n + 1)
      | _ => predict (n + 1) (advance alts t.kind) ts := by
  rw [predict]
  rfl

variable {c c' : Cursor} {n m fuel : Nat} {alts : List (Item × List Form)} {x : Item} {stack : Form}
  {t : Tree}

theorem undecided_mem (h : predict.undecided n alts = .chosen x m) : x ∈ alts.map (·.1) := by
  unfold predict.undecided at h
  split at h
  · rename_i a ha
    simp only [Prediction.chosen.injEq] at h
    exact h.1 ▸ List.mem_map_of_mem (List.mem_of_find?_eq_some ha)
  · contradiction

theorem advance_subset (alts : List (Item × List Form)) (k : Kind) :
    (advance alts k).map (·.1) ⊆ alts.map (·.1) := by
  intro x hx
  obtain ⟨b,hb,rfl⟩ := List.mem_map.mp hx
  obtain ⟨a,ha,hab⟩ := List.mem_filterMap.mp hb
  simp only [Option.ite_none_left_eq_some,Option.some.injEq] at hab
  rw [← hab.2]
  exact List.mem_map_of_mem (f := (·.1)) ha

theorem predict_mem {w : List Token} (h : predict n alts w = .chosen x m) : x ∈ alts.map (·.1) := by
  induction w generalizing n alts with
  | nil => exact undecided_mem h
  | cons t w ih =>
    rw [predict_cons] at h
    have hs := advance_subset alts t.kind
    split at h
    · exact undecided_mem h
    · rename_i a ha
      simp only [Prediction.chosen.injEq] at h
      rw [ha] at hs
      exact h.1 ▸ hs (by simp)
    · exact hs (ih h)

namespace Reads
variable {w v : List Token} {ts : List Tree} {f : Form}

theorem derives (h : Reads f w ts v) : Derives f ts := by
  induction h with
  | nil w => exact .nil
  | token t _ ih => exact .token t ih
  | rule _ _ hr ih => exact .rule hr ih
  | absent _ _ ih => exact .absent ih
  | present _ _ ih => exact .present ih
  | stop _ _ ih => exact .stop ih
  | again _ _ ih => exact .again ih
  | pick hp _ ih => exact .pick (by simpa [alternatives] using predict_mem hp) ih

theorem tokens (h : Reads f w ts v) : w = Tree.tokensOf ts ++ v := by
  induction h with
  | nil w => rfl
  | token t _ ih => simp [ih]
  | rule _ _ hr ih => simp [hr,ih]
  | absent _ _ ih => exact ih
  | present _ _ ih => exact ih
  | stop _ _ ih => exact ih
  | again _ _ ih => exact ih
  | pick _ _ ih => exact ih

theorem one_append {x : Item} {rest : Form} {u : List Token} {t : Tree}
    (h : Reads [.one x] w [t] u) (k : Reads rest u ts v) : Reads (.one x :: rest) w (t :: ts) v := by
  cases h with
  | token t h =>
    cases h
    exact .token t k
  | rule hr h =>
    cases h
    exact .rule hr k

end Reads

/-! ## The parser reads -/

namespace Outcome

theorem andThen_eq_parsed {α β : Type} {o : Outcome α} {f : α → Cursor → Outcome β} {b : β}
    {c : Cursor} (h : o.andThen f = .parsed b c) :
    ∃ a c', o = .parsed a c' ∧ f a c' = .parsed b c := by
  cases o with
  | parsed a c' => exact ⟨a,c',rfl,h⟩
  | failed e c' => contradiction

end Outcome

namespace Cursor

@[simp] theorem look_rest (c : Cursor) (n : Nat) : (c.look n).rest = c.rest := rfl

@[simp] theorem advance_rest (c : Cursor) : c.advance.rest = c.rest.drop 1 := rfl

@[simp] theorem remarkModifier_rest (c : Cursor) (rest stack : Form) :
    (c.remarkModifier rest stack).rest = c.rest := by
  simp only [remarkModifier]
  split <;> rfl

variable {c c' : Cursor} {stack : Form}

theorem sync_andThen {β : Type} {looped : Bool} {form : Form} {f : Unit → Cursor → Outcome β} {b : β}
    (h : (c.sync looped form stack).andThen f = .parsed b c') : f () c = .parsed b c' := by
  unfold sync at h
  split at h
  · exact h
  · simp only [refuse] at h
    split at h
    · contradiction
    · split at h <;> contradiction

theorem expect_eq_parsed {k : Kind} {t : Tree} (h : c.expect k stack = .parsed t c') :
    ∃ tok w, c.rest = tok :: w ∧ tok.kind = k ∧ t = .leaf tok ∧ c'.rest = w := by
  have hw : ∀ t' c'', expect.wrong c k stack ≠ .parsed t' c'' := by
    intro t' c'' hp
    unfold expect.wrong at hp
    simp only [refuse] at hp
    split at hp
    · contradiction
    · split at hp <;> contradiction
  unfold expect at h
  split at h
  · rename_i tok w hr
    split at h
    · rename_i hk
      simp only [Outcome.parsed.injEq] at h
      exact ⟨tok,w,hr,hk,h.1.symm,by rw [← h.2,advance_rest,hr]; rfl⟩
    · exact absurd h (hw _ _)
  · exact absurd h (hw _ _)

theorem admits_maybe (xs : List Item) (c : Cursor) :
    (Form.admits [.maybe xs] c.peek && c.peek.isSome) = Form.meets [.maybe xs] c.rest := by
  unfold peek
  cases c.rest <;> simp [Form.admits,Form.meets]

theorem admits_one (x : Item) (c : Cursor) :
    Form.admits [.one x] c.peek = Form.meets [.one x] c.rest := by
  unfold peek
  cases c.rest <;> simp [Form.admits,Form.meets]

end Cursor

/-- With this fuel every part of a parse that succeeds is a reading. -/
structure Faithful (fuel : Nat) : Prop where
  item : ∀ {x : Item} {stack : Form} {c c' : Cursor} {t : Tree},
    parseItem fuel x stack c = .parsed t c' → Reads [.one x] c.rest [t] c'.rest
  form : ∀ {looped : Bool} {f stack : Form} {c c' : Cursor} {ts : List Tree},
    parseForm fuel looped f stack c = .parsed ts c' → Reads f c.rest ts c'.rest
  chain : ∀ {x : Item} {behind rest stack : Form} {looped : Bool} {c c' : Cursor} {ts : List Tree},
    parseThen fuel x behind rest stack looped c = .parsed ts c' →
      Reads (.one x :: rest) c.rest ts c'.rest

theorem parseItem_token_reads {k : Kind}
    (h : parseItem fuel (.token k) stack c = .parsed t c') :
    Reads [.one (.token k)] c.rest [t] c'.rest := by
  have hexpect : c.expect k stack = .parsed t c' := by
    cases fuel <;> simpa only [parseItem] using h
  obtain ⟨tok,w,hw,rfl,rfl,hc⟩ := Cursor.expect_eq_parsed hexpect
  rw [hw,← hc]
  exact .token tok (.nil _)

theorem parseForm_nil_reads {looped : Bool} {ts : List Tree}
    (h : parseForm fuel looped [] stack c = .parsed ts c') : Reads [] c.rest ts c'.rest := by
  have hnil : Outcome.parsed [] c = .parsed ts c' := by
    cases fuel <;> simpa only [parseForm] using h
  obtain ⟨rfl,rfl⟩ := Outcome.parsed.inj hnil
  exact .nil _

namespace Faithful
variable {fuel : Nat}

theorem zero : Faithful 0 where
  item {x stack c c' t} h := by
    cases x with
    | token k => exact parseItem_token_reads h
    | rule r => simp [parseItem,Cursor.refuse] at h
  form {looped f stack c c' ts} h := by
    cases f with
    | nil => exact parseForm_nil_reads h
    | cons p f => simp [parseForm,Cursor.refuse] at h
  chain h := by simp [parseThen,Cursor.refuse] at h

variable {stack : Form} {c c' : Cursor} {x : Item} {looped : Bool} {ts : List Tree}

theorem item_succ (ih : Faithful fuel) {t : Tree}
    (h : parseItem (fuel + 1) x stack c = .parsed t c') : Reads [.one x] c.rest [t] c'.rest := by
  cases x with
  | token k => exact parseItem_token_reads h
  | rule r =>
    simp only [parseItem] at h
    obtain ⟨us,c₁,hu,hc⟩ := Outcome.andThen_eq_parsed h
    obtain ⟨rfl,rfl⟩ := Outcome.parsed.inj hc
    exact .rule (ih.form hu) (.nil _)

theorem form_succ (ih : Faithful fuel) {f : Form}
    (h : parseForm (fuel + 1) looped f stack c = .parsed ts c') : Reads f c.rest ts c'.rest := by
  cases f with
  | nil => exact parseForm_nil_reads h
  | cons p rest =>
    cases p with
    | one x =>
      simp only [parseForm] at h
      exact ih.chain h
    | maybe xs =>
      simp only [parseForm] at h
      replace h := Cursor.sync_andThen h
      rw [Cursor.admits_maybe] at h
      split at h
      next hm =>
        have hr := ih.form h
        refine .present hm ?_
        split at hr <;> simpa using hr
      next hm => exact .absent (by simpa using hm) (ih.form h)
    | many x =>
      simp only [parseForm] at h
      replace h := Cursor.sync_andThen h
      rw [Cursor.admits_one] at h
      split at h
      next hm => exact .again hm (ih.chain h)
      next hm => exact .stop (by simpa using hm) (ih.form h)
    | choice xs =>
      simp only [parseForm] at h
      replace h := Cursor.sync_andThen h
      split at h
      next x n hp =>
        have hr := ih.chain h
        exact .pick hp hr
      next => simp [Cursor.refuse] at h

theorem chain_succ (ih : Faithful fuel) {behind rest : Form}
    (h : parseThen (fuel + 1) x behind rest stack looped c = .parsed ts c') :
    Reads (.one x :: rest) c.rest ts c'.rest := by
  simp only [parseThen] at h
  obtain ⟨t,c₁,ht,hr⟩ := Outcome.andThen_eq_parsed h
  obtain ⟨us,c₂,hu,hc⟩ := Outcome.andThen_eq_parsed hr
  obtain ⟨rfl,rfl⟩ := Outcome.parsed.inj hc
  exact (ih.item ht).one_append (ih.form hu)

end Faithful

theorem faithful (fuel : Nat) : Faithful fuel := by
  induction fuel with
  | zero => exact .zero
  | succ fuel ih => exact ⟨ih.item_succ,ih.form_succ,ih.chain_succ⟩

/-- A parse that succeeds reads its rule off the tokens of the source. -/
theorem parse_reads {r : Rule} {s : Source} (h : parse r s = .parsed t c) :
    Reads [.one (.rule r)] s.tokens [t] c.rest :=
  (faithful _).item h

end InterfaceKit.Grammar
