import InterfaceKit.Proofs.Grammar.Extent
import Mathlib.Data.List.Chain

/-!
# Which derivation is read

The grammar is ambiguous in one place. An operation may end without a modifier and without a
semicolon, and a property without annotations may begin with `const`; where the one stands before
the other, `const` can be derived as the modifier of either. The parser gives it to the operation.

So a document is read as it stands when no operation draws a modifier from the property behind it,
and every document is read as the one in which all of these have been drawn.
-/
namespace InterfaceKit.Grammar
open Lexical Phrase

/-! ## Readings are unique -/

variable {ts : List Tree} {w v : List Token}

theorem Reads.tail {k : Kind} {rest : Form} {t : Token}
    (h : Reads (.one (.token k) :: rest) (t :: w) ts v) :
    ∃ us, ts = .leaf t :: us ∧ Reads rest w us v := by
  cases h with
  | token _ h => exact ⟨_,rfl,h⟩

variable {f : Form}

/-- Every decision is taken by the tokens, so they can be read in one way only. -/
theorem Reads.unique {v' : List Token} {ts' : List Tree} (h : Reads f w ts v)
    (h' : Reads f w ts' v') : ts = ts' ∧ v = v' := by
  induction h generalizing ts' v' with
  | nil w =>
    cases h'
    exact ⟨rfl,rfl⟩
  | token t _ ih =>
    obtain ⟨us,rfl,hus⟩ := h'.tail
    have heq := ih hus
    exact ⟨congrArg _ heq.1,heq.2⟩
  | rule _ _ ihr ih =>
    cases h' with
    | rule hr' h' =>
      obtain ⟨rfl,rfl⟩ := ihr hr'
      have heq := ih h'
      exact ⟨congrArg _ heq.1,heq.2⟩
  | absent hm _ ih =>
    cases h' with
    | absent _ h' => exact ih h'
    | present hm' _ => simp [hm] at hm'
  | present hm _ ih =>
    cases h' with
    | absent hm' _ => simp [hm] at hm'
    | present _ h' => exact ih h'
  | stop hm _ ih =>
    cases h' with
    | stop _ h' => exact ih h'
    | again hm' _ => simp [hm] at hm'
  | again hm _ ih =>
    cases h' with
    | stop hm' _ => simp [hm] at hm'
    | again _ h' => exact ih h'
  | pick hp _ ih =>
    cases h' with
    | pick hp' h' =>
      rw [hp] at hp'
      obtain ⟨rfl,-⟩ := Prediction.chosen.inj hp'
      exact ih h'

/-! ## Settled derivations -/

/-- The next token, or the end, can come where the form is. -/
def Form.awaits (f : Form) (w : List Token) : Prop := f.admits (w.head?.map (·.kind)) = true

namespace Form.awaits
variable {rest stack : Form} {v : List Token}

theorem reaches (h : stack.awaits v) : stack.reaches v := by
  cases v with
  | nil => exact .inl h
  | cons t v => exact .inr h

theorem append {ts : List Tree} (hd : Derives rest ts) (h : stack.awaits v) :
    Form.awaits (rest ++ stack) (Tree.tokensOf ts ++ v) := by
  cases ht : Tree.tokensOf ts with
  | nil =>
    have he := (hd.mayEnd_of_tokens ht).1
    cases v with
    | nil =>
      have hs : stack.mayEnd = true := h
      simp [awaits,Form.admits,he,hs]
    | cons t v =>
      have hs : stack.canStart t.kind = true := h
      simp [awaits,Form.admits,Form.canStart_append,he,hs]
  | cons t w => simp [awaits,Form.admits,Form.canStart_append,hd.canStart ht]

theorem meets {r : Rule} {ts : List Tree} {g : Form} (hd : Derives rest ts) (hf : Fits r stack)
    (h : stack.awaits v) (hdis : disjoint g.first (r.upcoming rest) = true) :
    g.meets (Tree.tokensOf ts ++ v) = false := by
  have haw := append hd h
  by_contra hm
  obtain ⟨t,w,hw,hk⟩ := Form.meets_eq_true (by simpa using hm)
  rw [hw] at haw
  exact mem_of_disjoint hdis hk (hf.upcoming haw)

end Form.awaits

theorem Form.meets_append {u : List Token} (h : f.meets u = true) (v : List Token) :
    f.meets (u ++ v) = true := by
  cases u with
  | nil => contradiction
  | cons t u => exact h

/-- A derivation before the tokens `v` that leaves out the modifier of an operation only where there
is none. -/
inductive Settles : Form → List Tree → List Token → Prop
  | nil (v : List Token) : Settles [] [] v
  | token {rest : Form} {ts : List Tree} {v : List Token} (t : Token) :
      Settles rest ts v → Settles (.one (.token t.kind) :: rest) (.leaf t :: ts) v
  | rule {r : Rule} {rest : Form} {us ts : List Tree} {v : List Token} :
      Settles r.production us (Tree.tokensOf ts ++ v) → Settles rest ts v →
      Settles (.one (.rule r) :: rest) (.node r us :: ts) v
  | absent {xs : List Item} {rest : Form} {ts : List Tree} {v : List Token} :
      (xs = [.rule .operationModifier] →
        Form.meets [oneRule .operationModifier] (Tree.tokensOf ts ++ v) = false) →
      Settles rest ts v → Settles (.maybe xs :: rest) ts v
  | present {xs : List Item} {rest : Form} {ts : List Tree} {v : List Token} :
      Settles (xs.map .one ++ rest) ts v → Settles (.maybe xs :: rest) ts v
  | stop {x : Item} {rest : Form} {ts : List Tree} {v : List Token} :
      Settles rest ts v → Settles (.many x :: rest) ts v
  | again {x : Item} {rest : Form} {ts : List Tree} {v : List Token} :
      Settles (.one x :: .many x :: rest) ts v → Settles (.many x :: rest) ts v
  | pick {x : Item} {xs : List Item} {rest : Form} {ts : List Tree} {v : List Token} :
      x ∈ xs → Settles (.one x :: rest) ts v → Settles (.choice xs :: rest) ts v

namespace Settles
variable {f : Form} {ts : List Tree} {v : List Token}

theorem derives (h : Settles f ts v) : Derives f ts := by
  induction h with
  | nil v => exact .nil
  | token t _ ih => exact .token t ih
  | rule _ _ ihr ih => exact .rule ihr ih
  | absent _ _ ih => exact .absent ih
  | present _ ih => exact .present ih
  | stop _ ih => exact .stop ih
  | again _ ih => exact .again ih
  | pick hx _ ih => exact .pick hx ih

theorem append {g : Form} {us : List Tree} (h : Settles f ts (Tree.tokensOf us ++ v))
    (k : Settles g us v) : Settles (f ++ g) (ts ++ us) v := by
  generalize hw : Tree.tokensOf us ++ v = w at h
  induction h with
  | nil w => exact k
  | token t _ ih => exact .token t (ih hw)
  | rule hr _ _ ih =>
    subst hw
    exact .rule (by simpa using hr) (ih rfl)
  | absent hm _ ih =>
    subst hw
    exact .absent (by simpa using hm) (ih rfl)
  | present _ ih =>
    have ih := ih hw
    rw [List.append_assoc] at ih
    exact .present ih
  | stop _ ih => exact .stop (ih hw)
  | again _ ih => exact .again (ih hw)
  | pick hx _ ih => exact .pick hx (ih hw)

theorem reads {r : Rule} {stack : Form} (h : Settles f ts v) (hc : f.clear r = true)
    (hf : Fits r stack) (hw : stack.awaits v) : Reads f (Tree.tokensOf ts ++ v) ts v := by
  induction h generalizing r stack with
  | nil v => exact .nil v
  | token t h ih =>
    simp only [Form.clear,Bool.and_eq_true] at hc
    exact .token t (ih hc.2 hf hw)
  | @rule q rest us ts v hq h ihq ih =>
    simp only [Form.clear,Bool.and_eq_true] at hc
    have hread := ihq q.production_clear (hf.enter hc.1) (.append h.derives hw)
    rw [Tree.tokensOf_cons,Tree.tokens_node,List.append_assoc]
    exact .rule hread (ih hc.2 hf hw)
  | @absent xs rest ts v hm h ih =>
    simp only [Form.clear,Bool.and_eq_true,Bool.or_eq_true,decide_eq_true_eq] at hc
    refine .absent ?_ (ih hc.2 hf hw)
    rcases hc.1.1.1 with hdis | ⟨⟨-,rfl⟩,-⟩
    · exact hw.meets h.derives hf hdis
    · rw [Form.meets_maybe]
      exact hm rfl
  | @present xs rest ts v h ih =>
    simp only [Form.clear,Bool.and_eq_true] at hc
    have hread := ih (Form.clear_row hc.1.1.2 hc.2) hf hw
    cases xs with
    | nil => exact .absent (by cases Tree.tokensOf ts ++ v <;> rfl) hread
    | cons x xs =>
      refine .present ?_ hread
      rw [Form.meets_maybe]
      exact Form.meets_append (Form.Derivable.meets_one ⟨ts,h.derives,rfl⟩) v
  | @stop x rest ts v h ih =>
    simp only [Form.clear,Bool.and_eq_true] at hc
    refine .stop (hw.meets h.derives hf ?_) (ih hc.2 hf hw)
    rw [Form.first_one]
    exact hc.1.1.1
  | @again x rest ts v h ih =>
    have hparts := hc
    simp only [Form.clear,Bool.and_eq_true] at hparts
    have hclear : Form.clear r (.one x :: .many x :: rest) = true := by
      rw [Form.clear,hparts.1.1.2,hc]
      rfl
    refine .again ?_ (ih hclear hf hw)
    exact Form.meets_append (Form.Derivable.meets_one ⟨ts,h.derives,rfl⟩) v
  | @pick x xs rest ts v hx h ih =>
    obtain ⟨n,hn⟩ := choice_chosen hc hf hx ⟨ts,h.derives,rfl⟩ hw.reaches
    simp only [Form.clear,Bool.and_eq_true] at hc
    have hclear : Form.clear r (.one x :: rest) = true := by
      rw [Form.clear,List.all_eq_true.mp hc.1.1.2 x hx,hc.2]
      rfl
    exact .pick hn (ih hclear hf hw)

end Settles

/-! ## Where nothing has to be settled -/

def Rule.isPlain (r : Rule) : Bool :=
  r ∉ [.document,.definition,.interface,.interfaceMember,.operation]

def Item.isPlain : Item → Bool
  | .token _ => true
  | .rule r => r.isPlain

def Part.isPlain : Part → Bool
  | .one x | .many x => x.isPlain
  | .maybe xs => xs ≠ [.rule .operationModifier] && xs.all Item.isPlain
  | .choice xs => xs.all Item.isPlain

def Form.isPlain (f : Form) : Bool := f.all Part.isPlain

theorem Form.isPlain_cons {p : Part} :
    Form.isPlain (p :: f) = true ↔ p.isPlain = true ∧ f.isPlain = true := by
  simp [isPlain]

variable {r : Rule}

theorem Rule.isPlain_production (h : r.isPlain = true) : r.production.isPlain = true := by
  revert h
  cases r <;> decide

theorem Settles.of_plain (h : Derives f ts) (hf : f.isPlain = true) (v : List Token) :
    Settles f ts v := by
  induction h generalizing v with
  | nil => exact .nil v
  | token t _ ih => exact .token t (ih (Form.isPlain_cons.mp hf).2 v)
  | rule _ _ ihr ih =>
    obtain ⟨hr,hf⟩ := Form.isPlain_cons.mp hf
    exact .rule (ihr (Rule.isPlain_production hr) _) (ih hf v)
  | absent _ ih =>
    obtain ⟨hxs,hf⟩ := Form.isPlain_cons.mp hf
    simp only [Part.isPlain,Bool.and_eq_true,decide_eq_true_eq] at hxs
    exact .absent (fun hx => absurd hx hxs.1) (ih hf v)
  | present _ ih =>
    obtain ⟨hxs,hf⟩ := Form.isPlain_cons.mp hf
    simp only [Part.isPlain,Bool.and_eq_true] at hxs
    refine .present (ih ?_ v)
    simp only [Form.isPlain,List.all_append,List.all_map,Bool.and_eq_true]
    exact ⟨hxs.2,hf⟩
  | stop _ ih => exact .stop (ih (Form.isPlain_cons.mp hf).2 v)
  | again _ ih => exact .again (ih (Form.isPlain_cons.mpr ⟨(Form.isPlain_cons.mp hf).1,hf⟩) v)
  | pick hx _ ih =>
    obtain ⟨hxs,hf⟩ := Form.isPlain_cons.mp hf
    exact .pick hx (ih (Form.isPlain_cons.mpr ⟨List.all_eq_true.mp hxs _ hx,hf⟩) v)

theorem Settles.pick_plain {xs : List Item} {us : List Tree} (hx : .rule r ∈ xs)
    (hr : r.isPlain = true) (h : Derives r.production us) (v : List Token) :
    Settles [.choice xs] [.node r us] v :=
  .pick hx (.rule (.of_plain h (Rule.isPlain_production hr) _) (.nil v))

/-! ## Modifiers that are drawn -/

namespace Phrase

/-- Nothing closes the operation against a modifier behind it. -/
def Operation.isOpen (o : Operation) : Bool := o.modifier.isNone && o.semicolon.isNone

/-- The modifier that a member draws from the one behind it. -/
def Member.drawn? : Member → Member → Option (Word .constWord)
  | .operation o, .property p => if o.isOpen then p.opening? else none
  | _, _ => none

/-- No member draws a modifier from the next one. -/
def Settled (ms : List Member) : Prop := ms.IsChain fun m m' => m.drawn? m' = none

/-- Puts a member before others, from the first of which it may draw its modifier. -/
def Member.attach : Member → List Member → List Member
  | .operation o, .property p :: ms =>
    match Member.drawn? (.operation o) (.property p) with
    | some w =>
      .operation { o with modifier := some w } :: .property { p with modifier := none } :: ms
    | none => .operation o :: .property p :: ms
  | m, ms => m :: ms

def settle (ms : List Member) : List Member := ms.foldr Member.attach []

def Definition.settled : Definition → Definition
  | interface i => .interface { i with members := settle i.members }
  | d => d

def Definition.Settled : Definition → Prop
  | interface i => Phrase.Settled i.members
  | _ => True

/-- The document with every modifier where it is drawn to. -/
def Document.settled (d : Document) : Document :=
  { d with definitions := d.definitions.map Definition.settled }

/-- No operation of the document draws a modifier from the property behind it. -/
def Document.Settled (d : Document) : Prop := ∀ x ∈ d.definitions, x.Settled

variable {v : List Token} {w : Word .constWord} {ms : List Member}

theorem Property.opening?_eq_some {p : Property} (h : p.opening? = some w) :
    ∃ u, p = { p with annotations := ⟨none,[]⟩, modifier := some u } ∧ u.val = w.val := by
  obtain ⟨⟨comment,tags⟩,modifier,type,name,value,semicolon⟩ := p
  unfold opening? at h
  split at h
  next u ha hm =>
    simp only at ha hm
    split at h
    · obtain rfl := Option.some.inj h
      exact ⟨u,by rw [ha,hm],rfl⟩
    · contradiction
  next => contradiction

theorem Member.drawn?_eq_some {m m' : Member} (h : m.drawn? m' = some w) :
    ∃ o p, m = .operation o ∧ m' = .property p ∧ o.isOpen = true ∧ p.opening? = some w := by
  unfold drawn? at h
  split at h
  next o p =>
    split at h
    next ho => exact ⟨o,p,rfl,rfl,ho,h⟩
    next => contradiction
  next => contradiction

/-- What attaching does: it draws the modifier if there is one to draw. -/
theorem Member.attach_cases (m : Member) (ms : List Member) :
    (m.attach ms = m :: ms ∧ ∀ m' ∈ ms.head?, m.drawn? m' = none) ∨
    ∃ o p ms' w, m = .operation o ∧ ms = .property p :: ms' ∧ o.isOpen = true ∧ p.opening? = some w ∧
      m.attach ms = .operation { o with modifier := some w } :: .property
        { p with modifier := none } :: ms' := by
  cases ms with
  | nil => exact .inl ⟨by cases m <;> rfl,by simp⟩
  | cons m' ms =>
    cases hd : m.drawn? m' with
    | none =>
      refine .inl ⟨?_,by simpa using hd⟩
      unfold attach
      split
      next o p ms' heq =>
        obtain ⟨rfl,rfl⟩ := List.cons.inj heq
        rw [hd]
      next => rfl
    | some w =>
      obtain ⟨o,p,rfl,rfl,ho,hp⟩ := drawn?_eq_some hd
      exact .inr ⟨o,p,ms,w,rfl,rfl,ho,hp,by rw [attach,hd]⟩

theorem settle_cons (m : Member) (ms : List Member) : settle (m :: ms) = m.attach (settle ms) := rfl

theorem settled_settle (ms : List Member) : Settled (settle ms) := by
  induction ms with
  | nil => exact .nil
  | cons m ms ih =>
    rw [settle_cons]
    rcases m.attach_cases (settle ms) with ⟨heq,hm⟩ | ⟨o,p,ms',w,rfl,hms,ho,hp,heq⟩
    · rw [heq]
      exact List.isChain_cons.mpr ⟨hm,ih⟩
    · rw [heq]
      rw [hms] at ih
      have htail := (List.isChain_cons.mp ih).2
      refine List.isChain_cons.mpr ⟨?_,List.isChain_cons.mpr ⟨?_,htail⟩⟩
      · simp [Member.drawn?,Operation.isOpen]
      · intro m' _
        rfl

theorem settle_eq_self (h : Settled ms) : settle ms = ms := by
  induction ms with
  | nil => rfl
  | cons m ms ih =>
    obtain ⟨hm,hms⟩ := List.isChain_cons.mp h
    rw [settle_cons,ih hms]
    rcases m.attach_cases ms with ⟨heq,-⟩ | ⟨o,p,ms',w,rfl,rfl,ho,hp,-⟩
    · exact heq
    · have hnone := hm (.property p) rfl
      simp [Member.drawn?,ho,hp] at hnone

def Member.sansConst : Member → Member
  | .operation o => .operation { o with modifier := none }
  | .property p =>
    .property { p with modifier := p.modifier.filter fun w => w.val.kind ≠ .constWord }
  | .signal s => .signal s

/-- Drawing a modifier changes nothing but the places of the words `const`. -/
theorem settle_sansConst (ms : List Member) :
    (settle ms).map Member.sansConst = ms.map Member.sansConst := by
  induction ms with
  | nil => rfl
  | cons m ms ih =>
    rw [settle_cons]
    rcases m.attach_cases (settle ms) with ⟨heq,-⟩ | ⟨o,p,ms',w,rfl,hms,ho,hp,heq⟩
    · rw [heq,List.map_cons,List.map_cons,ih]
    · obtain ⟨u,hpu,hu⟩ := Property.opening?_eq_some hp
      have hconst : u.val.kind = .constWord := by rw [hu,w.property]
      have hmodifier : p.modifier = some u := by rw [hpu]
      rw [hms,List.map_cons] at ih
      rw [heq,List.map_cons,List.map_cons,List.map_cons,← ih]
      simp [Member.sansConst,hmodifier,Option.filter,hconst]

theorem Document.settled_settled (d : Document) : d.settled.Settled := by
  intro x hx
  obtain ⟨y,-,rfl⟩ := List.mem_map.mp hx
  cases y with
  | interface i => exact settled_settle i.members
  | _ => trivial

/-- A document in which nothing is drawn is its own settled form, and only such a one is. -/
theorem Document.settled_eq_self_iff (d : Document) : d.settled = d ↔ d.Settled := by
  constructor
  · intro h
    rw [← h]
    exact d.settled_settled
  · intro h
    have hdefs : d.definitions.map Definition.settled = d.definitions := by
      refine (List.map_congr_left ?_).trans (List.map_id _)
      intro x hx
      have hs := h x hx
      cases x with
      | interface i =>
        change Definition.interface _ = _
        rw [settle_eq_self hs]
        rfl
      | _ => rfl
    rw [settled,hdefs]

/-! ### Drawing moves no token -/

def memberTrees (ms : List Member) : List Tree := ms.map fun m => .node .interfaceMember [m.inside]

@[simp] theorem tokensOf_memberTrees_cons (m : Member) (ms : List Member) :
    Tree.tokensOf (memberTrees (m :: ms)) = m.inside.tokens ++ Tree.tokensOf (memberTrees ms) := by
  simp [memberTrees]

theorem tokensOf_attach (m : Member) (ms : List Member) :
    Tree.tokensOf (memberTrees (m.attach ms)) = Tree.tokensOf (memberTrees (m :: ms)) := by
  rcases m.attach_cases ms with ⟨heq,-⟩ | ⟨o,p,ms',w,rfl,rfl,ho,hp,heq⟩
  · rw [heq]
  · obtain ⟨u,hpu,hu⟩ := Property.opening?_eq_some hp
    obtain ⟨a,r,n,l,ps,c,modifier,semicolon⟩ := o
    simp only [Operation.isOpen,Bool.and_eq_true,Option.isNone_iff_eq_none] at ho
    obtain ⟨rfl,rfl⟩ := ho
    rw [heq,hpu]
    simp [Member.inside,Operation.parts,Property.parts,Annotations.tokens,leaves,hu]

theorem tokensOf_settle (ms : List Member) :
    Tree.tokensOf (memberTrees (settle ms)) = Tree.tokensOf (memberTrees ms) := by
  induction ms with
  | nil => rfl
  | cons m ms ih =>
    rw [settle_cons,tokensOf_attach,tokensOf_memberTrees_cons,ih,← tokensOf_memberTrees_cons]

theorem Definition.tokens_settled (x : Definition) : x.settled.inside.tokens = x.inside.tokens := by
  cases x with
  | interface i =>
    have hms := tokensOf_settle i.members
    simp only [memberTrees] at hms
    simp only [settled,inside,Interface.parts,Tree.tokens_node,Tree.tokensOf_append,hms]
  | _ => rfl

theorem Document.tokens_settled (d : Document) : d.settled.tree.tokens = d.tree.tokens := by
  have hdefs : ∀ xs : List Definition,
      Tree.tokensOf ((xs.map Definition.settled).map fun x => .node .definition [x.inside]) =
        Tree.tokensOf (xs.map fun x => .node .definition [x.inside]) := by
    intro xs
    induction xs with
    | nil => rfl
    | cons x xs ih =>
      simp only [List.map_cons,Tree.tokensOf_cons,Tree.tokens_node,x.tokens_settled,ih]
  simp only [tree,parts,settled,Tree.tokens_node,Tree.tokensOf_cons,hdefs]

/-! ### What is settled is read -/

theorem not_meets_modifier {t : Token} (h : t.kind ≠ .constWord) :
    Form.meets [oneRule .operationModifier] (t :: v) = false := by
  rw [← Bool.not_eq_true]
  intro hm
  obtain ⟨_,_,ht,hk⟩ := Form.meets_eq_true hm
  obtain ⟨rfl,-⟩ := List.cons.inj ht
  exact h (by simpa [Form.first,Form.leading,oneRule,Item.first,Rule.first] using hk)

theorem Operation.settles (o : Operation)
    (hv : o.isOpen = true → Form.meets [oneRule .operationModifier] v = false) :
    Settles Rule.operation.production o.parts v := by
  obtain ⟨a,r,n,l,ps,c,modifier,semicolon⟩ := o
  have hfront :=
    ((annotations_yield.append <| result_yields.append <| .append .token <| .append .token <|
    .append (.many parameter_yields) .token) _).mpr ⟨(a, r, n, l, ps, c),rfl⟩
  have hclose : Settles [maybeToken .semicolon] (leaves semicolon) v := by
    refine .of_plain ?_ (by decide) v
    exact (Form.Yields.optional _).mpr ⟨semicolon,rfl⟩
  have hback : Settles [.maybe [.rule .operationModifier],maybeToken .semicolon]
      ((modifier.toList.map fun w => Tree.node .operationModifier [.leaf w.val]) ++ leaves
        semicolon) v := by
    cases modifier with
    | some w =>
      refine .present (.rule ?_ hclose)
      refine .of_plain ?_ (by decide) _
      exact (operationModifier_yields _).mpr ⟨w,rfl⟩
    | none =>
      refine .absent (fun _ => ?_) hclose
      cases semicolon with
      | none => exact hv rfl
      | some w => exact not_meets_modifier (by simp [w.property])
  have happ := Settles.append (.of_plain hfront (by decide) _) hback
  simpa [parts,Rule.production] using happ

theorem Member.settles (m : Member)
    (hv : ∀ o, m = .operation o → o.isOpen = true →
      Form.meets [oneRule .operationModifier] v = false) :
    Settles Rule.interfaceMember.production [m.inside] v := by
  cases m with
  | operation o =>
    exact .pick (x := .rule .operation) (by simp) (.rule (o.settles (hv o rfl)) (.nil v))
  | property p => exact .pick_plain (by simp) (by decide) ((property_yields _).mpr ⟨p,rfl⟩) v
  | signal g => exact .pick_plain (by simp) (by decide) ((signal_yields _).mpr ⟨g,rfl⟩) v

/-- The members of an interface are settled one after the other, before a token that is not a
modifier. -/
theorem Settled.settles (h : Settled ms) {rest : Form} {us : List Tree}
    (hr : Settles rest us v)
    (hv : Form.meets [oneRule .operationModifier] (Tree.tokensOf us ++ v) = false) :
    Settles (.many (.rule .interfaceMember) :: rest) (memberTrees ms ++ us) v := by
  induction ms with
  | nil => exact .stop hr
  | cons m ms ih =>
    obtain ⟨hm,hms⟩ := List.isChain_cons.mp h
    have hfree : ∀ o, m = .operation o → o.isOpen = true →
        Form.meets [oneRule .operationModifier] (Tree.tokensOf (memberTrees ms ++ us) ++ v) =
          false := by
      rintro o rfl ho
      cases ms with
      | nil => exact hv
      | cons m' ms =>
        have hne : m'.inside.tokens ≠ [] := by
          simpa using ((member_yields _).mpr ⟨m',rfl⟩).tokens_ne_nil
        obtain ⟨t,w,htw⟩ := List.exists_cons_of_ne_nil hne
        simp only [Tree.tokensOf_append,tokensOf_memberTrees_cons,htw,List.cons_append]
        refine not_meets_modifier fun ht => ?_
        obtain ⟨p,rfl,hp,-⟩ := member_const m' htw ht
        have hnone := hm (.property p) rfl
        simp [Member.drawn?,ho,hp] at hnone
    exact .again (.rule (m.settles hfree) (ih hms))

theorem Interface.settles {i : Interface} (h : Phrase.Settled i.members) (v : List Token) :
    Settles Rule.interface.production i.parts v := by
  obtain ⟨a,w,n,base,l,ms,c,semicolon⟩ := i
  have hfront := ((annotations_yield.append <| .append .token <| .append .token <|
    .append (.maybe [_,_] (.append .token .token)) .token) _).mpr ⟨(a, w, n, base, l),rfl⟩
  have hclose :
      Settles [oneToken .rightBrace,maybeToken .semicolon] (.leaf c.val :: leaves semicolon) v := by
    refine .of_plain ?_ (by decide) v
    exact (Form.Yields.append .token .optional _).mpr ⟨(c, semicolon),rfl⟩
  have hbrace : Form.meets [oneRule .operationModifier]
      (Tree.tokensOf (.leaf c.val :: leaves semicolon) ++ v) = false :=
        not_meets_modifier (by simp [c.property])
  have happ := Settles.append (.of_plain hfront (by decide) _) (h.settles hclose hbrace)
  simpa [parts,Rule.production,memberTrees] using happ

theorem Definition.settles {x : Definition} (h : x.Settled) (v : List Token) :
    Settles Rule.definition.production [x.inside] v := by
  cases x with
  | interface i =>
    exact .pick (x := .rule .interface) (by simp) (.rule (Interface.settles h _) (.nil v))
  | struct s => exact .pick_plain (by simp) (by decide) ((struct_yields _).mpr ⟨s,rfl⟩) v
  | enum e => exact .pick_plain (by simp) (by decide) ((enum_yields _).mpr ⟨e,rfl⟩) v

theorem definitions_settle {xs : List Definition} (h : ∀ x ∈ xs, x.Settled) :
    Settles [.many (.rule .definition)] (xs.map fun x => .node .definition [x.inside]) [] := by
  induction xs with
  | nil => exact .stop (.nil [])
  | cons x xs ih =>
    have hrest := ih fun y hy => h y (by simp [hy])
    exact .again (.rule (Definition.settles (h x (by simp)) _) hrest)

theorem Document.Settled.reads {d : Document} (h : d.Settled) :
    Reads [oneRule .document] d.tree.tokens [d.tree] [] := by
  have hheader := Settles.of_plain ((header_yields _).mpr ⟨d.header,rfl⟩) (by decide)
    (Tree.tokensOf (d.definitions.map fun x => .node .definition [x.inside]) ++ [])
  have hdoc : Settles Rule.document.production d.parts [] := .rule hheader (definitions_settle h)
  have hread :=
    hdoc.reads Rule.document.production_clear fits_document (show Form.awaits [] [] from rfl)
  rw [List.append_nil] at hread
  exact .rule hread (.nil [])

end Phrase

/-- Tokens that a document has are read completely, as the settled form of that document. -/
theorem parse_settled {s : Source} {d : Document} (h : s.tokens = d.tree.tokens) :
    ∃ c, parse .document s = .parsed d.settled.tree c ∧ c.rest = [] := by
  have hends : Ends [oneRule .document] d.tree.tokens [] := by
    refine ⟨⟨[d.tree],?_,by simp⟩,by simp⟩
    exact (Form.Yields.rule document_yields _).mpr ⟨d,rfl⟩
  obtain ⟨t,c,hp,hc⟩ := parse_document (h.trans (List.append_nil _).symm) hends
  have hread := parse_reads hp
  rw [hc,h,← d.tokens_settled] at hread
  have heq := hread.unique d.settled_settled.reads
  rw [List.singleton_inj.mp heq.1] at hp
  exact ⟨c,hp,hc⟩

end InterfaceKit.Grammar
