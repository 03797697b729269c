import InterfaceKit.Proofs.Grammar.Decision

/-!
# The parser accepts every sentence

What the parser does with a sentence: it succeeds, in the number of steps that it is given, and it
stops where the sentence ends. The input may go on behind the sentence, as long as no sentence goes
on that way.
-/
namespace InterfaceKit.Grammar
open Lexical

namespace Ends
variable {r : Rule} {rest stack : Form} {u v : List Token}

/-- Where the sentence ends, the form cannot begin with what follows. -/
theorem meets {f g : Form} (h : Ends f u v) (hle : ∀ k, g.canStart k = true → f.canStart k = true) :
    g.meets (u ++ v) = g.meets u := by
  cases u with
  | cons t w => rfl
  | nil =>
    cases v with
    | nil => rfl
    | cons t v' =>
      by_contra hg
      have hk : g.canStart t.kind = true := by simpa [Form.meets] using hg
      have hk := hle t.kind hk
      rw [h.refuses] at hk
      contradiction

variable {xs : List Item} {x : Item}

theorem present (h : Ends (.maybe xs :: (rest ++ stack)) u v)
    (hc : Form.clear r (.maybe xs :: rest) = true) (hf : Fits r stack)
    (hm : Form.meets [.maybe xs] (u ++ v) = true) : Ends (xs.map .one ++ (rest ++ stack)) u v := by
  rw [h.meets fun k hk => by simp [Form.canStart_maybe,hk]] at hm
  exact h.narrow (maybe_present hc hf h.1 hm) fun w hw => Form.Derivable.maybe_iff.mpr (.inr hw)

theorem absent (h : Ends (.maybe xs :: (rest ++ stack)) u v)
    (hm : Form.meets [.maybe xs] (u ++ v) = false) : Ends (rest ++ stack) u v := by
  rw [h.meets fun k hk => by simp [Form.canStart_maybe,hk]] at hm
  exact h.narrow (maybe_absent h.1 hm) fun w hw => Form.Derivable.maybe_iff.mpr (.inl hw)

theorem again (h : Ends (.many x :: (rest ++ stack)) u v)
    (hc : Form.clear r (.many x :: rest) = true) (hf : Fits r stack)
    (hm : Form.meets [.one x] (u ++ v) = true) :
    Ends (.one x :: .many x :: (rest ++ stack)) u v := by
  rw [h.meets fun k hk => by simp [Form.canStart_many,hk]] at hm
  exact h.narrow (many_again hc hf h.1 hm) fun w hw => Form.Derivable.many_iff.mpr (.inr hw)

theorem stop (h : Ends (.many x :: (rest ++ stack)) u v)
    (hm : Form.meets [.one x] (u ++ v) = false) : Ends (rest ++ stack) u v := by
  rw [h.meets fun k hk => by simp [Form.canStart_many,hk]] at hm
  exact h.narrow (many_stop h.1 hm) fun w hw => Form.Derivable.many_iff.mpr (.inl hw)

theorem pick (h : Ends (.choice xs :: (rest ++ stack)) u v)
    (hc : Form.clear r (.choice xs :: rest) = true) (hf : Fits r stack) :
    ∃ x ∈ xs, Ends (.one x :: (rest ++ stack)) u v ∧
    ∃ n, predict 0 (alternatives xs) (u ++ v) = .chosen x n := by
  obtain ⟨x,hx,hd⟩ := Form.Derivable.choice_iff.mp h.1
  refine ⟨x,hx,h.narrow hd fun w hw => Form.Derivable.choice_iff.mpr ⟨x,hx,hw⟩,?_⟩
  obtain ⟨a,b,rfl,ha,hb⟩ := (Form.Derivable.append_iff (f := .one x :: rest)).mp hd
  rw [List.append_assoc]
  exact choice_chosen hc hf hx ha (hb.reaches v)

end Ends

/-! ## The run -/

variable {c : Cursor} {u v : List Token}

theorem Cursor.sync_passes {looped : Bool} {form stack : Form}
    (h : Form.Derivable (form ++ stack) u) (hc : c.rest = u ++ v) :
    c.sync looped form stack = .parsed () c := by
  obtain ⟨a,b,rfl,ha,-⟩ := Form.Derivable.append_iff.mp h
  have hok : (form.mayEnd || form.admits c.peek) = true := by
    cases a with
    | nil => simp [ha.mayEnd]
    | cons t a =>
      have hpeek : c.peek = some t.kind := by simp [peek,hc]
      simp [hpeek,Form.admits,ha.canStart]
  simp [sync,hok]

theorem Cursor.expect_token {k : Kind} (stack : Form) {t : Token} {w : List Token}
    (hk : t.kind = k) (hc : c.rest = t :: w) :
    c.expect k stack = .parsed (.leaf t) c.advance ∧ c.advance.rest = w := by
  simp [expect,hc,hk]

/-- The items of an optional row fit one after the other. -/
theorem Form.clear_row {r : Rule} {rest : Form} {xs : List Item} (hx : Item.allFit r rest xs = true)
    (hr : rest.clear r = true) : Form.clear r (xs.map .one ++ rest) = true := by
  induction xs with
  | nil => exact hr
  | cons x xs ih =>
    simp only [Item.allFit,Bool.and_eq_true] at hx
    simp only [List.map_cons,List.cons_append,clear,Bool.and_eq_true]
    exact ⟨hx.1,ih hx.2⟩

/-- What the parts of a parse do with `fuel` steps when what is left of the sentence ends before
`v`: they succeed, and what is then left is derived from the stack. Each token pays for 64 steps,
and between two tokens the parser takes no more steps than it climbs. -/
structure Completes (v : List Token) (fuel : Nat) : Prop where
  item : ∀ {x stack c u}, (∀ q, x = .rule q → Fits q stack) → Ends (.one x :: stack) u v →
    c.rest = u ++ v → 14 * x.height + 64 * u.length ≤ fuel →
    ∃ t c' u', parseItem fuel x stack c = .parsed t c' ∧ Ends stack u' v ∧ c'.rest = u' ++ v ∧
      u'.length < u.length
  form : ∀ looped {r form stack c u}, form.clear r = true → Fits r stack → Ends (form ++ stack) u v →
    c.rest = u ++ v → form.climb + 64 * u.length ≤ fuel →
    ∃ ts c' u', parseForm fuel looped form stack c = .parsed ts c' ∧ Ends stack u' v ∧
      c'.rest = u' ++ v
  chain : ∀ looped {r x rest stack c u}, x.fits r rest = true → rest.clear r = true → Fits r stack →
    Ends (.one x :: (rest ++ stack)) u v → c.rest = u ++ v →
      14 * x.height + 1 + 64 * u.length ≤ fuel →
    ∃ ts c' u', parseThen fuel x (rest ++ stack) rest stack looped c = .parsed ts c' ∧
      Ends stack u' v ∧ c'.rest = u' ++ v

namespace Completes
variable {v : List Token} {stack : Form} {c : Cursor} {u : List Token} {r : Rule} {looped : Bool}

theorem token {k : Kind} (fuel : Nat) (h : Ends (oneToken k :: stack) u v) (hc : c.rest = u ++ v) :
    ∃ t c' u', parseItem fuel (.token k) stack c = .parsed t c' ∧ Ends stack u' v ∧
      c'.rest = u' ++ v ∧ u'.length < u.length := by
  obtain ⟨t,w,rfl,hk,hw⟩ := h.token
  obtain ⟨he,hr⟩ := Cursor.expect_token stack hk hc
  exact ⟨.leaf t,c.advance,w,by simpa only [parseItem] using he,hw,hr,by simp⟩

theorem zero : Completes v 0 where
  item := by
    intro x stack c u hx h hc hfuel
    cases x with
    | token k => exact token 0 h hc
    | rule r =>
      have hr := r.production_climb
      simp only [Item.height] at hfuel
      omega
  form := by
    intro looped r form stack c u hclear hf h hc hfuel
    cases form with
    | nil => exact ⟨[],c,u,by simp only [parseForm],h,hc⟩
    | cons p form => cases p <;> simp [Form.climb] at hfuel
  chain := by
    intro looped r x rest stack c u hx hclear hf h hc hfuel
    omega

variable {fuel : Nat}

theorem item_succ (ih : Completes v fuel) (hf : Fits r stack) (h : Ends (oneRule r :: stack) u v)
    (hc : c.rest = u ++ v) (hfuel : 14 * r.height + 64 * u.length ≤ fuel + 1) :
    ∃ t c' u', parseItem (fuel + 1) (.rule r) stack c = .parsed t c' ∧ Ends stack u' v ∧
      c'.rest = u' ++ v ∧ u'.length < u.length := by
  have hclimb := r.production_climb
  obtain ⟨ts,c',u',hp,hu,hr⟩ :=
    ih.form false r.production_clear hf h.rule hc (by omega)
  have hread := (faithful fuel).form hp
  have hlen := congrArg List.length hread.tokens
  have hpos := List.length_pos_of_ne_nil hread.derives.tokens_ne_nil
  simp only [hc,hr,List.length_append] at hlen
  exact ⟨.node r ts,c',u',by simp only [parseItem,hp,Outcome.andThen],hu,hr,by omega⟩

theorem chain_succ (ih : Completes v fuel) {x : Item} {rest : Form} (hx : x.fits r rest = true)
    (hclear : rest.clear r = true)
    (hf : Fits r stack) (h : Ends (.one x :: (rest ++ stack)) u v) (hc : c.rest = u ++ v)
    (hfuel : 14 * x.height + 1 + 64 * u.length ≤ fuel + 1) :
    ∃ ts c' u', parseThen (fuel + 1) x (rest ++ stack) rest stack looped c = .parsed ts c' ∧
      Ends stack u' v ∧ c'.rest = u' ++ v := by
  have henter : ∀ q, x = .rule q → Fits q (rest ++ stack) := by
    rintro q rfl
    exact hf.enter hx
  obtain ⟨t,c₁,u₁,hp₁,hu₁,hr₁,hlt⟩ := ih.item henter h hc (by omega)
  have hclimb := Form.clear_climb hclear
  obtain ⟨ts,c₂,u₂,hp₂,hu₂,hr₂⟩ := ih.form looped hclear hf hu₁ hr₁ (by omega)
  exact ⟨t :: ts,c₂,u₂,by simp only [parseThen,hp₁,hp₂,Outcome.andThen],hu₂,hr₂⟩

theorem form_succ (ih : Completes v fuel) {form : Form} (hclear : form.clear r = true)
    (hf : Fits r stack) (h : Ends (form ++ stack) u v)
    (hc : c.rest = u ++ v) (hfuel : form.climb + 64 * u.length ≤ fuel + 1) :
    ∃ ts c' u', parseForm (fuel + 1) looped form stack c = .parsed ts c' ∧ Ends stack u' v ∧
    c'.rest = u' ++ v := by
  cases form with
  | nil => exact ⟨[],c,u,by simp only [parseForm],h,hc⟩
  | cons p rest =>
    cases p with
    | one x =>
      simp only [Form.clear,Bool.and_eq_true] at hclear
      simp only [Form.climb] at hfuel
      simp only [parseForm]
      exact ih.chain false hclear.1 hclear.2 hf h hc (by omega)
    | maybe xs =>
      have hparts := hclear
      simp only [Form.clear,Bool.and_eq_true] at hparts
      simp only [parseForm,Cursor.sync_passes h.1 hc,Outcome.andThen,Cursor.admits_maybe]
      cases hm : Form.meets [.maybe xs] c.rest with
      | true =>
        rw [hc] at hm
        have hnext := h.present hclear hf hm
        rw [← List.append_assoc] at hnext
        refine ih.form false (Form.clear_row hparts.1.1.2 hparts.2) hf hnext ?_ ?_
        · split <;> simp [hc]
        · have hclimb := Form.climb_row xs rest
          omega
      | false =>
        rw [hc] at hm
        have hclimb := Form.climb_without xs rest
        exact ih.form false hparts.2 hf (h.absent hm) hc (by omega)
    | many x =>
      have hparts := hclear
      simp only [Form.clear,Bool.and_eq_true] at hparts
      simp only [parseForm,Cursor.sync_passes h.1 hc,Outcome.andThen,Cursor.admits_one]
      cases hm : Form.meets [.one x] c.rest with
      | true =>
        rw [hc] at hm
        have hclimb := (Form.climb_many x rest).1
        exact ih.chain true hparts.1.1.2 hclear hf (h.again hclear hf hm) hc (by omega)
      | false =>
        rw [hc] at hm
        have hclimb := (Form.climb_many x rest).2
        exact ih.form false hparts.2 hf (h.stop hm) hc (by omega)
    | choice xs =>
      have hparts := hclear
      simp only [Form.clear,Bool.and_eq_true] at hparts
      obtain ⟨x,hx,hnext,n,hp⟩ := h.pick hclear hf
      have hfit := List.all_eq_true.mp hparts.1.1.2 x hx
      have hclimb := Form.climb_choice rest hx
      rw [← hc] at hp
      simp only [parseForm,Cursor.sync_passes h.1 hc,Outcome.andThen]
      rw [show (xs.map fun x => (x, [[.one x]])) = alternatives xs from rfl,hp]
      exact ih.chain false hfit hparts.2 hf hnext hc (by omega)

end Completes

theorem completes (v : List Token) (fuel : Nat) : Completes v fuel := by
  induction fuel with
  | zero => exact .zero
  | succ fuel ih =>
    refine ⟨?_,fun looped => ih.form_succ,fun looped => ih.chain_succ⟩
    intro x stack c u hx h hc hfuel
    cases x with
    | token k => exact Completes.token (fuel + 1) h hc
    | rule r => exact ih.item_succ (hx r rfl) h hc hfuel

theorem fits_document : Fits .document [] := by
  refine ⟨fun k hk => by simp [Form.canStart] at hk,?_⟩
  rintro (h | h) <;> contradiction

theorem parse_document {s : Source} (hs : s.tokens = u ++ v)
    (h : Ends [oneRule .document] u v) : ∃ t c, parse .document s = .parsed t c ∧ c.rest = v := by
  have hfits : ∀ q, Item.rule .document = .rule q → Fits q [] := by
    rintro q ⟨⟩
    exact fits_document
  have hfuel : 14 * (Item.rule .document).height + 64 * u.length ≤ sufficientFuel s := by
    have hh : (Item.rule .document).height ≤ 4 := Rule.height_le .document
    simp only [sufficientFuel,hs,List.length_append]
    omega
  obtain ⟨t,c,u',hp,hu,hr,-⟩ := (completes v _).item (c := .start s) hfits h hs hfuel
  obtain rfl := Form.Derivable.nil_iff.mp hu.1
  exact ⟨t,c,hp,hr⟩

end InterfaceKit.Grammar
