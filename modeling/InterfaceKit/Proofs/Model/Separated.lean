import InterfaceKit.Proofs.Grammar.Separator
import InterfaceKit.Proofs.Grammar.Settled
import InterfaceKit.Proofs.Model.InterfaceWalk
import InterfaceKit.Proofs.Model.Parallel

/-!
# Separators and the model

A walk does not ask for separators, so two documents that differ in separators only have the same
model. The parser reads a document from which separators have been taken as its settled form. So the
model stays the same where no operation comes to stand, without a semicolon, before a property that
begins with `const`; elsewhere all of it stays the same but for the words `const` that change their
owner.
-/
namespace InterfaceKit.Model
open Data Grammar Lexical

/-! ## Rows that correspond -/

namespace Corresponds
variable {K : Bool → Bool → Prop}

theorem append {ts us ts' us' : List Tree} (h : Corresponds K ts us) (h' : Corresponds K ts' us') :
    Corresponds K (ts ++ ts') (us ++ us') := by
  induction h with
  | nil => exact h'
  | left ht _ ih => exact .left ht ih
  | right ht _ ih => exact .right ht ih
  | node hr hinner _ _ ih => exact .node hr hinner ih

end Corresponds

/-! ### Without separators -/

theorem wordsIn_bareOf {k : Kind} (hk : k.separates = false) (ts : List Tree) :
    wordsIn k (Tree.bareOf ts) = wordsIn k ts := by
  induction ts with
  | nil => rfl
  | cons t ts ih =>
    cases t with
    | leaf t =>
      rw [Tree.bareOf_leaf,wordsIn_leaf]
      split
      next ht =>
        have hne : t.kind ≠ k := by
          rintro rfl
          rw [ht] at hk
          contradiction
        rw [if_neg hne,ih]
        rfl
      next => rw [wordsIn_leaf,ih]
    | node r us => rw [Tree.bareOf_node,wordsIn_node,wordsIn_node,ih]

variable {K : Bool → Bool → Prop} {q : Rule}

theorem nodesIn_bareOf (hq : q.separated = false) (ts : List Tree) :
    nodesIn q (Tree.bareOf ts) = nodesIn q ts := by
  induction ts with
  | nil => rfl
  | cons t ts ih =>
    cases t with
    | leaf t =>
      rw [Tree.bareOf_leaf,nodesIn_leaf]
      split
      · exact ih
      · rw [nodesIn_leaf,ih]
    | node r us =>
      rw [Tree.bareOf_node,nodesIn_node,nodesIn_node,ih]
      by_cases hr : r = q
      · simp [hr,hq]
      · simp [hr]

theorem TreesAlike.bareOf (hK : ∀ b, K b b) (r : Rule) (ts : List Tree) :
    TreesAlike K (.node r (Tree.bareOf ts)) (.node r ts) := by
  have hwords : ∀ k ∈ askedKinds, k.separates = false := by decide
  have hmodifier : ∀ k, hasModifier (.node r (Tree.bareOf ts)) k = hasModifier (.node r ts) k := by
    intro k
    simp only [hasModifier,Tree.node?_node,nodesIn_bareOf (q := .propertyModifier) rfl]
  constructor
  · intro k hk
    exact wordsIn_bareOf (hwords k hk) ts
  · exact nodesIn_bareOf (q := .tag) rfl ts
  · rw [Tree.node?_node,Tree.node?_node,nodesIn_bareOf (q := .type) rfl]
  · rw [Tree.node?_node,Tree.node?_node,nodesIn_bareOf (q := .integer) rfl]
  · exact hmodifier _
  · rw [hmodifier]
    exact hK _
  · rw [Tree.node?_node,Tree.node?_node,nodesIn_bareOf (q := .operationModifier) rfl]
    exact hK _

theorem Corresponds.bareOf (hK : ∀ b, K b b) : (ts : List Tree) → Corresponds K (Tree.bareOf ts) ts
  | [] => .nil
  | .leaf t :: ts => by
      rw [Tree.bareOf_leaf]
      split
      · exact .right (Drafting.walk_leaf t) (Corresponds.bareOf hK ts)
      · exact .left (Drafting.walk_leaf t) (.right (Drafting.walk_leaf t) (Corresponds.bareOf hK ts))
  | .node r us :: ts => by
      rw [Tree.bareOf_node]
      split
      · exact .node (.bareOf hK r us) (Corresponds.bareOf hK us) (Corresponds.bareOf hK ts)
      · exact .node (.refl hK _) (.refl hK us) (Corresponds.bareOf hK ts)

/-! ### With another modifier -/

/-- Both may have the word `const` or not. -/
abbrev anyConst : Bool → Bool → Prop := fun _ _ => True

theorem anyConst_refl (b : Bool) : anyConst b b := trivial

/-- A row with the node of a modifier, or without one, between others. -/
def modified (q : Rule) (ts : List Tree) (modifier : Option Token) (us : List Tree) : List Tree :=
  ts ++ (modifier.toList.map fun w => Grammar.Tree.node q [.leaf w]) ++ us

section
variable {q : Rule} {ts us : List Tree} {modifier modifier' : Option Token}

theorem wordsIn_modified (k : Kind) :
    wordsIn k (modified q ts modifier us) = wordsIn k ts ++ wordsIn k us := by
  simp [modified]

theorem nodesIn_modified {p : Rule} (hp : q ≠ p) :
    nodesIn p (modified q ts modifier us) = nodesIn p ts ++ nodesIn p us := by
  simp [modified,hp]

theorem TreesAlike.modified (r : Rule) (htag : q ≠ .tag) (htype : q ≠ .type) (hint : q ≠ .integer)
    (hro : hasModifier (.node r (modified q ts modifier us)) .readonlyWord =
      hasModifier (.node r (modified q ts modifier' us)) .readonlyWord) :
    TreesAlike anyConst (.node r (modified q ts modifier us))
      (.node r (modified q ts modifier' us)) where
  words k _ := (wordsIn_modified k).trans (wordsIn_modified k).symm
  tags := (nodesIn_modified htag).trans (nodesIn_modified htag).symm
  type := by rw [Tree.node?_node,Tree.node?_node,nodesIn_modified htype,nodesIn_modified htype]
  integer := by rw [Tree.node?_node,Tree.node?_node,nodesIn_modified hint,nodesIn_modified hint]
  readonly := hro
  const := trivial
  isConst := trivial

theorem Corresponds.modified (hq : ∀ w, Drafting.walk (.node q [.leaf w]) = pure ()) :
    Corresponds anyConst (modified q ts modifier us) (modified q ts modifier' us) := by
  refine .append (.append (.refl anyConst_refl ts) ?_) (.refl anyConst_refl us)
  have hnil : Corresponds anyConst [] [] := .nil
  cases modifier with
  | none =>
    cases modifier' with
    | none => exact hnil
    | some w' => exact .right (hq w') hnil
  | some w =>
    cases modifier' with
    | none => exact .left (hq w) hnil
    | some w' => exact .left (hq w) (.right (hq w') hnil)

end

theorem operation_corresponds {o o' : Phrase.Operation}
    (h : ({ o with modifier := none } : Phrase.Operation) = { o' with modifier := none }) :
    TreesAlike anyConst (.node .operation o.parts) (.node .operation o'.parts) ∧
      Corresponds anyConst o.parts o'.parts := by
  obtain ⟨a,r,n,l,ps,c,modifier,semicolon⟩ := o
  obtain ⟨a',r',n',l',ps',c',modifier',semicolon'⟩ := o'
  simp only [Phrase.Operation.mk.injEq] at h
  obtain ⟨rfl,rfl,rfl,rfl,rfl,rfl,-,rfl⟩ := h
  have hparts : ∀ modifier, (⟨a,r,n,l,ps,c,modifier,semicolon⟩ : Phrase.Operation).parts =
      modified .operationModifier (a.trees ++ [r.tree,.leaf n.val,.leaf l.val]
        ++ ps.map (fun p => Grammar.Tree.node .parameter p.parts) ++ [Tree.leaf c.val])
          (modifier.map (·.val)) (leaves semicolon) := by
    intro modifier
    cases modifier <;> simp [Phrase.Operation.parts,modified]
  rw [hparts,hparts]
  refine ⟨.modified .operation (by decide) (by decide) (by decide) ?_,.modified ?_⟩
  · simp only [hasModifier,Tree.node?_node]
    rw [nodesIn_modified (by decide),nodesIn_modified (by decide)]
  · intro w
    simp [Drafting.walk,Drafting.enter,Drafting.exit]

theorem property_corresponds {p p' : Phrase.Property}
    (h : ({ p with modifier := p.modifier.filter fun w => w.val.kind ≠ .constWord } :
      Phrase.Property) =
      { p' with modifier := p'.modifier.filter fun w => w.val.kind ≠ .constWord }) :
    TreesAlike anyConst (.node .property p.parts) (.node .property p'.parts) ∧
      Corresponds anyConst p.parts p'.parts := by
  have hro : ∀ p : Phrase.Property, hasModifier (.node .property p.parts) .readonlyWord =
      (p.modifier.filter fun w => w.val.kind ≠ .constWord).any (·.val.kind = .readonlyWord) := by
    intro p
    rw [hasModifier,Drafting.modifier_property]
    cases p.modifier with
    | none => rfl
    | some w => by_cases hk : w.val.kind = .constWord <;> simp [Option.filter,hk]
  have heq : hasModifier (.node .property p.parts) .readonlyWord =
      hasModifier (.node .property p'.parts) .readonlyWord := by
    rw [hro,hro]
    exact congrArg (fun x : Phrase.Property => x.modifier.any (·.val.kind = .readonlyWord)) h
  obtain ⟨a,modifier,t,n,v,semicolon⟩ := p
  obtain ⟨a',modifier',t',n',v',semicolon'⟩ := p'
  simp only [Phrase.Property.mk.injEq] at h
  obtain ⟨rfl,-,rfl,rfl,rfl,rfl⟩ := h
  have hparts : ∀ modifier, (⟨a,modifier,t,n,v,semicolon⟩ : Phrase.Property).parts =
      modified .propertyModifier a.trees (modifier.map (·.val))
        ([t.tree,.leaf n.val] ++ Phrase.defaultTrees v ++ leaves semicolon) := by
    intro modifier
    cases modifier <;> simp [Phrase.Property.parts,modified]
  rw [hparts,hparts] at heq ⊢
  refine ⟨.modified .property (by decide) (by decide) (by decide) heq,.modified ?_⟩
  intro w
  simp [Drafting.walk,Drafting.enter,Drafting.exit]

def askedRules : List Rule := [.tag,.type,.integer,.propertyModifier,.operationModifier]

/-- Rows of other nodes between the parts of a declaration do not tell it from another one. -/
theorem TreesAlike.filled (hK : ∀ b, K b b) (r : Rule) (hq : q ∉ askedRules)
    (ts us : List Tree) (css dss : List (List Tree)) :
    TreesAlike K (.node r (ts ++ css.map (.node q) ++ us))
      (.node r (ts ++ dss.map (.node q) ++ us)) := by
  have hwords : ∀ k, ∀ css : List (List Tree),
      wordsIn k (ts ++ css.map (.node q) ++ us) = wordsIn k ts ++ wordsIn k us := by
    intro k css
    have hnil : wordsIn k (css.map (.node q)) = [] := wordsIn_nodes css fun cs => cs
    simp [hnil]
  have hnodes : ∀ p ∈ askedRules, ∀ css : List (List Tree),
      nodesIn p (ts ++ css.map (.node q) ++ us) = nodesIn p ts ++ nodesIn p us := by
    intro p hp css
    have hne : q ≠ p := by
      rintro rfl
      exact hq hp
    have hnil : nodesIn p (css.map (.node q)) = [] :=
      (nodesIn_nodes css fun cs => cs).trans (if_neg hne)
    simp [hnil]
  have hnode : ∀ p ∈ askedRules, (Grammar.Tree.node r (ts ++ css.map (.node q) ++ us)).node? p =
      (Grammar.Tree.node r (ts ++ dss.map (.node q) ++ us)).node? p := by
    intro p hp
    rw [Tree.node?_node,Tree.node?_node,hnodes p hp,hnodes p hp]
  have hmodifier : ∀ k, hasModifier (.node r (ts ++ css.map (.node q) ++ us)) k =
      hasModifier (.node r (ts ++ dss.map (.node q) ++ us)) k := by
    intro k
    rw [hasModifier,hasModifier,hnode .propertyModifier (by decide)]
  constructor
  · intro k _
    exact (hwords k css).trans (hwords k dss).symm
  · exact (hnodes .tag (by decide) css).trans (hnodes .tag (by decide) dss).symm
  · exact hnode .type (by decide)
  · exact hnode .integer (by decide)
  · exact hmodifier _
  · rw [hmodifier]
    exact hK _
  · rw [hnode .operationModifier (by decide)]
    exact hK _

theorem member_corresponds {m m' : Phrase.Member} (h : m.sansConst = m'.sansConst) :
    Corresponds anyConst [.node .interfaceMember [m.inside]]
      [.node .interfaceMember [m'.inside]] := by
  have hshell : ∀ {q : Rule} {cs ds : List Tree}, q ∉ askedRules →
      TreesAlike anyConst (.node q cs) (.node q ds) ∧ Corresponds anyConst cs ds →
      Corresponds anyConst [.node .interfaceMember [.node q cs]]
        [.node .interfaceMember [.node q ds]] := by
    intro q cs ds hq hcs
    exact .node (.filled anyConst_refl .interfaceMember hq [] [] [cs] [ds])
      (.node hcs.1 hcs.2 .nil) .nil
  cases m with
  | operation o =>
    cases m' with
    | operation o' =>
      exact hshell (by decide) (operation_corresponds (Phrase.Member.operation.inj h))
    | _ => contradiction
  | property p =>
    cases m' with
    | property p' => exact hshell (by decide) (property_corresponds (Phrase.Member.property.inj h))
    | _ => contradiction
  | signal s =>
    cases m' with
    | signal s' =>
      obtain rfl := Phrase.Member.signal.inj h
      exact .refl anyConst_refl _
    | _ => contradiction

theorem members_correspond {ms ms' : List Phrase.Member}
    (h : ms.map Phrase.Member.sansConst = ms'.map Phrase.Member.sansConst) :
    Corresponds anyConst (Phrase.memberTrees ms) (Phrase.memberTrees ms') := by
  induction ms generalizing ms' with
  | nil =>
    obtain rfl := List.map_eq_nil_iff.mp h.symm
    exact .nil
  | cons m ms ih =>
    cases ms' with
    | nil => contradiction
    | cons m' ms' =>
      obtain ⟨hm,hms⟩ := List.cons.inj h
      exact .append (member_corresponds hm) (ih hms)

theorem definition_corresponds (x : Phrase.Definition) :
    Corresponds anyConst [.node .definition [x.settled.inside]] [.node .definition [x.inside]] := by
  cases x with
  | struct | enum => exact .refl anyConst_refl _
  | interface i =>
    have hrow := members_correspond (Phrase.settle_sansConst i.members)
    have hfilled : ∀ ms : List Phrase.Member, ({ i with members := ms } : Phrase.Interface).parts =
        (i.annotations.trees ++ [Tree.leaf i.word.val,.leaf i.name.val]
          ++ (i.base.toList.flatMap fun b => [Tree.leaf b.1.val,.leaf b.2.val]) ++
            [Tree.leaf i.opening.val])
        ++ (ms.map fun m => [m.inside]).map (Grammar.Tree.node .interfaceMember)
        ++ ([Tree.leaf i.closing.val] ++ leaves i.semicolon) := by
      intro ms
      simp [Phrase.Interface.parts]
    have hparts : Corresponds anyConst ({ i with members := Phrase.settle i.members } :
        Phrase.Interface).parts i.parts := by
      rw [hfilled,hfilled i.members,List.map_map,List.map_map]
      exact .append (.append (.refl anyConst_refl _) hrow) (.refl anyConst_refl _)
    have halike : TreesAlike anyConst
      (.node .interface ({ i with members := Phrase.settle i.members } : Phrase.Interface).parts)
        (.node .interface i.parts) := by
      rw [hfilled,hfilled i.members]
      exact .filled anyConst_refl .interface (by decide) _ _ _ _
    exact .node (.filled anyConst_refl .definition (by decide) [] [] [_] [_])
      (.node halike hparts .nil) .nil

theorem settled_corresponds (d : Phrase.Document) :
    Corresponds anyConst [d.settled.tree] [d.tree] := by
  have hrow : ∀ xs : List Phrase.Definition,
      Corresponds anyConst
        ((xs.map Phrase.Definition.settled).map fun x => .node .definition [x.inside])
        (xs.map fun x => .node .definition [x.inside]) := by
    intro xs
    induction xs with
    | nil => exact .nil
    | cons x xs ih => exact .append (definition_corresponds x) ih
  have hparts : ∀ d : Phrase.Document, d.parts =
      [Grammar.Tree.node .header d.header.parts]
        ++ (d.definitions.map fun x => [x.inside]).map (Grammar.Tree.node .definition) ++ [] := by
    intro d
    simp [Phrase.Document.parts]
  have halike : TreesAlike anyConst (.node .document d.settled.parts) (.node .document d.parts) := by
    rw [hparts,hparts]
    exact .filled anyConst_refl .document (by decide) _ _ _ _
  exact .node halike (.append (.refl anyConst_refl [_]) (hrow d.definitions)) .nil

/-! ## Models -/

/-- The same but for the words `const`. -/
def constAside : Tandem := .exact anyConst

theorem Draft.Like.eq {d d' : Draft} (h : d.Like (.exact Eq) d') : d = d' := by
  have hmodule : d.module = d'.module := by
    rcases rel_cases h.module with ⟨hm,hm'⟩ | ⟨m,m',hm,hm',hlike⟩
    · rw [hm,hm']
    · have hexact : m.Like .exact m' :=
        hlike.imp (fun _ _ => id) id id fun ho => (ho.trans (Origin.renumber_id _)).symm
      rw [hm,hm',hexact.eq]
  obtain ⟨hnumber,-,hfocus,hlog,hstore⟩ := h
  cases d
  cases d'
  simp_all [Tandem.exact]

/-- Trees that differ in separators only have the same model. -/
theorem ofDocument_eq_of_bare {t t' : Tree} (h : t.bare = t'.bare) (number : Nat) (store : Store) :
    Draft.ofDocument number t store = Draft.ofDocument number t' store := by
  have hbare : ∀ t : Tree, Draft.ofDocument number t.bare store =
      Draft.ofDocument number t store := by
    intro t
    have hrow : Corresponds Eq [t.bare] [t] := by
      cases t with
      | leaf t => exact .refl (fun _ => rfl) _
      | node r ts =>
        have hnode := Corresponds.bareOf (K := Eq) (fun _ => rfl) [.node r ts]
        rwa [Tree.bareOf_node] at hnode
    have heq := Corresponds.ofDocument (T := .exact Eq) hrow (s := store) rfl number
    exact Prod.ext heq.1 heq.2.eq
  rw [← hbare t,h,hbare t']

/-- Separators are taken from the tokens of a document that is read completely. What is left is read
completely, as the settled form of a document that has the same model; the settled form has the same
model but for words `const`, and it is the document itself unless an operation draws a modifier from
the property behind it. -/
theorem parse_thinned {s s' : Source} {t : Tree} {c : Cursor} (h : parse .document s = .parsed t c)
    (hc : c.rest = []) (hs : Thins s.tokens s'.tokens) :
    ∃ (d : Phrase.Document) (c' : Cursor),
      (parse .document s' = .parsed d.settled.tree c' ∧ c'.rest = []) ∧
      (d.tree.tokens = s'.tokens ∧ d.tree.bare = t.bare) ∧
      (∀ number store, Draft.ofDocument number d.tree store = Draft.ofDocument number t store) ∧
      (∀ number store,
        (Draft.ofDocument number d.settled.tree store).1 = (Draft.ofDocument number t store).1 ∧
        (Draft.ofDocument number d.settled.tree store).2.Like constAside
          (Draft.ofDocument number t store).2) ∧
      (d.settled = d ↔ d.Settled) := by
  have htokens : s.tokens = t.tokens := by simpa [hc] using (parse_reads h).tokens
  obtain ⟨d₀,rfl⟩ := exists_document h
  rw [htokens] at hs
  obtain ⟨d,hd,hbare⟩ := Phrase.Document.thinned hs
  obtain ⟨c',hp,hrest⟩ := parse_settled hd.symm
  have hmodel := ofDocument_eq_of_bare hbare
  refine ⟨d,c',⟨hp,hrest⟩,⟨hd,hbare⟩,hmodel,?_,d.settled_eq_self_iff⟩
  intro number store
  rw [← hmodel number store]
  exact (settled_corresponds d).ofDocument (T := constAside) rfl number

/-- Whether the operation `f` and the property `x` of the interface `I` are constant. -/
def constants (t : Tree) : Option (Bool × Bool) := do
  let i ← ((Draft.ofDocument 0 t {}).2.module.bind (·.interfaces.get? "I"))
  return ((← i.operations.get? "f").isConst, (← i.properties.get? "x").const)

/-- Without its semicolon the operation `f` is constant, and the property `x` is not. -/
theorem semicolon_keeps_const :
    let s := Source.ofText "module a 1.0 interface I \x7b void f(); const int x \x7d".toList
    let s' : Source := { s with tokens := s.tokens.filter fun t => !t.kind.separates }
    ∃ t c, parse .document s = .parsed t c ∧ c.rest = [] ∧ Thins s.tokens s'.tokens ∧
      constants t = some (false, true) ∧
      ∃ (d : Phrase.Document) (c' : Cursor), parse .document s' = .parsed d.settled.tree c' ∧
        constants d.settled.tree = some (true, false) ∧
        (∀ number store, Draft.ofDocument number d.tree store = Draft.ofDocument number t store) ∧
        (Draft.ofDocument 0 d.settled.tree {}).2.Like constAside (Draft.ofDocument 0 t {}).2 := by
  intro s s'
  have hread : (match parse .document s, parse .document s' with
      | .parsed t c, .parsed t' _ => some (c.rest, constants t, constants t')
      | _, _ => none) = some ([], some (false, true), some (true, false)) := by decide +kernel
  have hthins : Thins s.tokens s'.tokens := by
    dsimp only [s']
    exact .all s.tokens
  clear_value s' s
  cases h : parse .document s with
  | failed e c =>
      rw [h] at hread
      contradiction
  | parsed t c =>
      cases h' : parse .document s' with
      | failed e c' =>
          rw [h,h'] at hread
          contradiction
      | parsed t' c' =>
          rw [h,h'] at hread
          simp only [Option.some.injEq,Prod.mk.injEq] at hread
          obtain ⟨d,c',hparse,-,hmodel,hlike,-⟩ := parse_thinned h hread.1 hthins
          rw [h'] at hparse
          obtain ⟨rfl,rfl⟩ := Outcome.parsed.inj hparse.1
          exact ⟨t,c,rfl,hread.1,hthins,hread.2.1,d,_,rfl,hread.2.2,hmodel,(hlike 0 {}).2⟩

end InterfaceKit.Model
