import InterfaceKit.Proofs.Documents.Reading
import InterfaceKit.Proofs.Lexical.Layout

/-!
# Documents with the same tokens

The parser goes by the kinds of the tokens and the reader by their texts as well; where they stand
in the text matters to complaints only. So two texts with the same tokens have the same tree, but
for the places, and give the same module.
-/
namespace InterfaceKit.Grammar
open Lexical

/-! ## Trees -/

namespace Tree

mutual
/-- The tree without the places of its tokens. -/
def unplaced : Tree → Tree
  | leaf t => leaf t.unplaced
  | node r children => node r (unplacedAll children)

def unplacedAll : List Tree → List Tree
  | [] => []
  | t :: ts => t.unplaced :: unplacedAll ts
end

theorem unplacedAll_eq_map (ts : List Tree) : unplacedAll ts = ts.map unplaced := by
  induction ts with
  | nil => rfl
  | cons t ts ih => rw [unplacedAll,ih,List.map_cons]

@[simp] theorem unplaced_node (r : Rule) (ts : List Tree) :
    (node r ts).unplaced = node r (ts.map unplaced) := by
  rw [unplaced,unplacedAll_eq_map]

@[simp] theorem children_unplaced (t : Tree) : t.unplaced.children = t.children.map unplaced := by
  cases t with
  | leaf t => rfl
  | node r ts => simp [children]

@[simp] theorem rule?_unplaced (t : Tree) : t.unplaced.rule? = t.rule? := by
  cases t <;> rfl

@[simp] theorem isA_unplaced (t : Tree) (x : Item) : t.unplaced.isA x = t.isA x := by
  cases t <;> cases x <;> rfl

mutual
theorem tokens_unplaced : ∀ t : Tree, t.unplaced.tokens = t.tokens.map Token.unplaced
  | leaf _ => rfl
  | node _ ts => tokensOf_unplaced ts

theorem tokensOf_unplaced :
    ∀ ts : List Tree, tokensOf (unplacedAll ts) = (tokensOf ts).map Token.unplaced
  | [] => rfl
  | t :: ts => by
    simp only [unplacedAll,tokensOf,List.map_append,tokens_unplaced t,tokensOf_unplaced ts]
end

mutual
theorem depth_unplaced : ∀ t : Tree, t.unplaced.depth = t.depth
  | leaf _ => rfl
  | node _ ts => congrArg (· + 1) (depthOf_unplaced ts)

theorem depthOf_unplaced : ∀ ts : List Tree, depthOf (unplacedAll ts) = depthOf ts
  | [] => rfl
  | t :: ts => by
    simp only [unplacedAll,depthOf,depth_unplaced t,depthOf_unplaced ts]
end

@[simp] theorem text_unplaced (t : Tree) : t.unplaced.text = t.text := by
  simp only [text,tokens_unplaced,List.map_map]
  rfl

@[simp] theorem hasSurrogate_unplaced (t : Tree) : t.unplaced.hasSurrogate = t.hasSurrogate := by
  simp only [hasSurrogate,tokens_unplaced,List.any_map]
  rfl

@[simp] theorem tokensOfKind_unplaced (t : Tree) (k : Kind) :
    t.unplaced.tokensOfKind k = (t.tokensOfKind k).map Token.unplaced := by
  rw [tokensOfKind,children_unplaced,List.filterMap_map,tokensOfKind,List.map_filterMap]
  congr 1
  funext u
  cases u with
  | leaf u =>
    change (if u.kind = k then some u.unplaced else none) =
      Option.map _ (if u.kind = k then some u else none)
    split <;> rfl
  | node r ts => rfl

@[simp] theorem token?_unplaced (t : Tree) (k : Kind) :
    t.unplaced.token? k = (t.token? k).map Token.unplaced := by
  rw [token?,tokensOfKind_unplaced,List.head?_map,token?]

@[simp] theorem nodesOfRule_unplaced (t : Tree) (r : Rule) :
    t.unplaced.nodesOfRule r = (t.nodesOfRule r).map unplaced := by
  simp only [nodesOfRule,parts,children_unplaced,List.filter_map,Function.comp_def,isA_unplaced]

@[simp] theorem node?_unplaced (t : Tree) (r : Rule) :
    t.unplaced.node? r = (t.node? r).map unplaced := by
  simp only [node?,part?,children_unplaced,List.find?_map,Function.comp_def,isA_unplaced]

end Tree

/-! ## Parsing -/

theorem predict_unplaced (n : Nat) (alts : List (Item × List Form)) (ts : List Token) :
    predict n alts (ts.map Token.unplaced) = predict n alts ts := by
  induction ts generalizing n alts with
  | nil => rfl
  | cons t ts ih => simp only [List.map_cons,predict,ih,Token.unplaced]

theorem agreement_unplaced (n : Nat) (first second : List Form) (ts : List Token) :
    agreement n first second (ts.map Token.unplaced) = agreement n first second ts := by
  induction ts generalizing n first second with
  | nil => rfl
  | cons t ts ih => simp only [List.map_cons,agreement,ih,Token.unplaced]

def SyntaxError.unplaced (e : SyntaxError) : SyntaxError :=
  ⟨e.complaint,e.found.map Token.unplaced,.start⟩

def Cursor.unplaced (c : Cursor) : Cursor :=
  { c with rest := c.rest.map Token.unplaced, finish := .start }

namespace Outcome
variable {α β : Type}

/-- The outcome without the places in the text; `f` is what that means to the value. -/
def unplaced (f : α → α) : Outcome α → Outcome α
  | parsed a c => parsed (f a) c.unplaced
  | failed e c => failed e.unplaced c.unplaced

theorem andThen_unplaced {f : α → α} {g : β → β} {o o' : Outcome α} {k k' : α → Cursor → Outcome β}
    (ho : o' = o.unplaced f) (hk : ∀ a c, k' (f a) c.unplaced = (k a c).unplaced g) :
    o'.andThen k' = (o.andThen k).unplaced g := by
  subst ho
  cases o with
  | parsed a c => exact hk a c
  | failed e c => rfl

end Outcome

namespace Cursor
variable (c : Cursor)

@[simp] theorem rest_unplaced : c.unplaced.rest = c.rest.map Token.unplaced := rfl

@[simp] theorem peek_unplaced : c.unplaced.peek = c.peek := by
  cases h : c.rest <;> simp [peek,h,Token.unplaced]

@[simp] theorem peekSecond_unplaced : c.unplaced.peekSecond = c.peekSecond := by
  simp only [peekSecond,rest_unplaced,← List.map_drop,List.head?_map,Option.map_map]
  rfl

@[simp] theorem look_unplaced (n : Nat) : c.unplaced.look n = (c.look n).unplaced := rfl

theorem advance_unplaced : c.unplaced.advance = c.advance.unplaced := by
  simp only [advance,unplaced,look,List.map_drop]

theorem refuse_unplaced {α : Type} (f : α → α) (ahead : Nat) (complaint : Complaint) :
    c.unplaced.refuse ahead complaint = (c.refuse ahead complaint : Outcome α).unplaced f := by
  have hfound :
      (c.unplaced.rest.drop ahead).head? = (c.rest.drop ahead).head?.map Token.unplaced := by
    rw [rest_unplaced,← List.map_drop,List.head?_map]
  simp only [refuse,Outcome.unplaced,SyntaxError.unplaced,hfound]
  cases (c.rest.drop ahead).head? <;> rfl

theorem wrong_unplaced (k : Kind) (stack : Form) :
    expect.wrong c.unplaced k stack = (expect.wrong c k stack).unplaced Tree.unplaced := by
  simp only [expect.wrong,look_unplaced,peekSecond_unplaced,peek_unplaced,
    refuse_unplaced _ Tree.unplaced]
  split
  · rfl
  · split <;> rfl

theorem expect_unplaced (k : Kind) (stack : Form) :
    c.unplaced.expect k stack = (c.expect k stack).unplaced Tree.unplaced := by
  unfold expect
  rw [wrong_unplaced,advance_unplaced,rest_unplaced]
  cases c.rest with
  | nil => rfl
  | cons t ts =>
    change (if t.kind = k then _ else _) = Outcome.unplaced _ (if t.kind = k then _ else _)
    split <;> rfl

theorem sync_unplaced (looped : Bool) (form stack : Form) :
    c.unplaced.sync looped form stack = (c.sync looped form stack).unplaced id := by
  simp only [sync,look_unplaced,peekSecond_unplaced,peek_unplaced,refuse_unplaced _ id]
  split
  · rfl
  · split
    · rfl
    · split <;> rfl

theorem remarkModifier_unplaced (rest stack : Form) :
    c.unplaced.remarkModifier rest stack = (c.remarkModifier rest stack).unplaced := by
  simp only [remarkModifier,rest_unplaced,agreement_unplaced,peek_unplaced]
  split <;> rfl

end Cursor

/-- With this fuel the parser does not mind the places of the tokens. -/
structure Placeless (fuel : Nat) : Prop where
  item : ∀ (x : Item) (stack : Form) (c : Cursor),
    parseItem fuel x stack c.unplaced = (parseItem fuel x stack c).unplaced Tree.unplaced
  form : ∀ (looped : Bool) (f stack : Form) (c : Cursor),
    parseForm fuel looped f stack c.unplaced = (parseForm fuel looped f stack c).unplaced
      (List.map Tree.unplaced)
  chain : ∀ (x : Item) (behind rest stack : Form) (looped : Bool) (c : Cursor),
    parseThen fuel x behind rest stack looped c.unplaced =
      (parseThen fuel x behind rest stack looped c).unplaced (List.map Tree.unplaced)

namespace Placeless
variable {fuel : Nat}

theorem zero : Placeless 0 where
  item x stack c := by
    cases x with
    | token k => simpa only [parseItem] using c.expect_unplaced k stack
    | rule r => simpa only [parseItem] using c.refuse_unplaced _ _ _
  form looped f stack c := by
    cases f with
    | nil => simp only [parseForm,Outcome.unplaced,List.map_nil]
    | cons p f => simpa only [parseForm] using c.refuse_unplaced _ _ _
  chain x behind rest stack looped c := by simpa only [parseThen] using c.refuse_unplaced _ _ _

theorem item_succ (ih : Placeless fuel) (x : Item) (stack : Form) (c : Cursor) :
    parseItem (fuel + 1) x stack c.unplaced =
      (parseItem (fuel + 1) x stack c).unplaced Tree.unplaced := by
  cases x with
  | token k => simpa only [parseItem] using c.expect_unplaced k stack
  | rule r =>
    simp only [parseItem]
    exact Outcome.andThen_unplaced (ih.form ..) fun ts c => by
      simp only [Outcome.unplaced,Tree.unplaced_node]

theorem form_succ (ih : Placeless fuel) (looped : Bool) (f stack : Form) (c : Cursor) :
    parseForm (fuel + 1) looped f stack c.unplaced =
      (parseForm (fuel + 1) looped f stack c).unplaced (List.map Tree.unplaced) := by
  cases f with
  | nil => simp only [parseForm,Outcome.unplaced,List.map_nil]
  | cons p rest =>
    cases p with
    | one x => simpa only [parseForm] using ih.chain ..
    | maybe xs =>
      simp only [parseForm]
      refine Outcome.andThen_unplaced (c.sync_unplaced ..) fun _ c => ?_
      rw [c.peek_unplaced,c.remarkModifier_unplaced]
      split
      · split <;> exact ih.form ..
      · exact ih.form ..
    | many x =>
      simp only [parseForm]
      refine Outcome.andThen_unplaced (c.sync_unplaced ..) fun _ c => ?_
      rw [c.peek_unplaced]
      split
      · exact ih.chain ..
      · exact ih.form ..
    | choice xs =>
      simp only [parseForm]
      refine Outcome.andThen_unplaced (c.sync_unplaced ..) fun _ c => ?_
      rw [c.rest_unplaced,predict_unplaced]
      split
      · rw [c.look_unplaced]
        exact ih.chain ..
      · rename_i n _
        have htexts : ((c.rest.map Token.unplaced).take (n + 1)).map (·.text) =
            (c.rest.take (n + 1)).map (·.text) := by
          rw [← List.map_take,List.map_map]
          rfl
        rw [htexts,List.length_map,c.look_unplaced]
        exact Cursor.refuse_unplaced _ _ _ _

theorem chain_succ (ih : Placeless fuel) (x : Item) (behind rest stack : Form) (looped : Bool)
    (c : Cursor) :
    parseThen (fuel + 1) x behind rest stack looped c.unplaced =
      (parseThen (fuel + 1) x behind rest stack looped c).unplaced (List.map Tree.unplaced) := by
  simp only [parseThen]
  exact Outcome.andThen_unplaced (ih.item ..) fun t c =>
    Outcome.andThen_unplaced (ih.form ..) fun ts c => rfl

end Placeless

theorem placeless (fuel : Nat) : Placeless fuel := by
  induction fuel with
  | zero => exact .zero
  | succ fuel ih => exact ⟨ih.item_succ,ih.form_succ,ih.chain_succ⟩

/-- What is parsed depends on the tokens without their places. -/
theorem parse_unplaced (r : Rule) {s s' : Source}
    (h : s'.tokens.map Token.unplaced = s.tokens.map Token.unplaced) :
    (parse r s').unplaced Tree.unplaced = (parse r s).unplaced Tree.unplaced := by
  have hstart : (Cursor.start s').unplaced = (Cursor.start s).unplaced := by
    simp only [Cursor.unplaced,Cursor.start,h]
  have hlength : s'.tokens.length = s.tokens.length := by simpa using congrArg List.length h
  rw [parse,parse,← (placeless _).item,← (placeless _).item,hstart,sufficientFuel,sufficientFuel,
    hlength]

end InterfaceKit.Grammar

namespace InterfaceKit.Model
open Grammar Lexical

/-! ## Reading trees -/

namespace Draft

theorem layers_unplaced (fuel : Nat) (t : Tree) : layers fuel t.unplaced = layers fuel t := by
  induction fuel generalizing t with
  | zero => rfl
  | succ fuel ih =>
    simp only [layers,Tree.children_unplaced]
    cases t.children with
    | nil => rfl
    | cons kind ts =>
      simp only [List.map_cons,Tree.tokens_unplaced,List.head?_map,Tree.node?_unplaced,
        Option.map_map,Tree.rule?_unplaced,Function.comp_def,ih]
      rfl

@[simp] theorem typeOf_unplaced (t : Tree) : typeOf t.unplaced = typeOf t := by
  simp only [typeOf,Tree.node?_unplaced]
  cases t.node? .type with
  | none => rfl
  | some x => simp only [Option.map_some,Tree.depth_unplaced,layers_unplaced]

end Draft

namespace Drafting
variable (t : Tree)

@[simp] theorem textOf_unplaced (k : Kind) : textOf t.unplaced k = textOf t k := by
  simp only [textOf,Tree.token?_unplaced,Option.map_map]
  rfl

@[simp] theorem nameOf_unplaced : nameOf t.unplaced = nameOf t := textOf_unplaced t _

@[simp] theorem annotate_unplaced (p : Place) : annotate p t.unplaced = annotate p t := by
  simp only [annotate,readComment,readTags,Tree.token?_unplaced,Tree.nodesOfRule_unplaced,
    List.map_map,List.any_map,Function.comp_def,Tree.text_unplaced,Tree.hasSurrogate_unplaced]
  cases t.token? .docComment <;> rfl

@[simp] theorem giveType_unplaced (p : Place) : giveType p t.unplaced = giveType p t := by
  simp only [giveType,Draft.typeOf_unplaced]

@[simp] theorem defaultValue_unplaced : defaultValue t.unplaced = defaultValue t := by
  simp only [defaultValue,Tree.token?_unplaced]
  cases t.token? .string <;> rfl

@[simp] theorem memberNumber_unplaced : memberNumber t.unplaced = memberNumber t := by
  simp only [memberNumber,Tree.node?_unplaced]
  cases t.node? .integer with
  | none => rfl
  | some i => simp only [Option.map_some,Tree.text_unplaced]

theorem enter_unplaced (r : Rule) : enter r t.unplaced = enter r t := by
  cases r <;> simp [enter,enterModule,enterImport,enterInterface,enterStruct,enterEnum,
    enterEnumKind,enterOperation,enterSignal,enterParameter,enterProperty,enterField,enterMember,
      Option.bind_map,Option.isSome_bind,Function.comp_def,Token.unplaced]

theorem exit_unplaced (r : Rule) : exit r t.unplaced = exit r t := by
  cases r <;> simp [exit,exitParameter,exitField]

mutual
theorem walk_unplaced : ∀ t : Tree, walk t.unplaced = walk t
  | .leaf _ => rfl
  | .node r ts => by
    have henter := enter_unplaced (.node r ts) r
    have hexit := exit_unplaced (.node r ts) r
    rw [Tree.unplaced] at henter hexit ⊢
    rw [walk,walk,henter,hexit,walkAll_unplaced ts]

theorem walkAll_unplaced : ∀ ts : List Tree, walkAll (Tree.unplacedAll ts) = walkAll ts
  | [] => rfl
  | t :: ts => by rw [Tree.unplacedAll,walkAll,walkAll,walk_unplaced t,walkAll_unplaced ts]
end

end Drafting

theorem Draft.ofDocument_unplaced {t t' : Tree} (h : t'.unplaced = t.unplaced) (number : Nat) :
    Draft.ofDocument number t' = Draft.ofDocument number t := by
  funext store
  rw [Draft.ofDocument,Draft.ofDocument,← Drafting.walk_unplaced t',h,Drafting.walk_unplaced]

end InterfaceKit.Model

namespace InterfaceKit
open Grammar Lexical Model

/-! ## Reading texts -/

/-- Two readings do the same to a workspace, but for what they print. Their answers are the same, or
both refuse and differ in the place which they name at most. -/
def ReadAlike (document : String) (a a' : Except Failure Unit × Workspace) : Prop :=
  a'.2 = { a.2 with log := a'.2.log } ∧
    (a'.1 = a.1 ∨ ∃ e e' : SyntaxError, e'.unplaced = e.unplaced ∧
      a.1 = .error (.rejectedText (e.report document)) ∧
        a'.1 = .error (.rejectedText (e'.report document)))

theorem readSource_alike {text text' : List Char}
    (h : (Source.ofText text').tokens.map Token.unplaced =
      (Source.ofText text).tokens.map Token.unplaced)
    (n : Nat) (profile : Profile) (document : String) (w : Workspace) :
    ReadAlike document ((Act.readSource n profile document text).run w)
      ((Act.readSource n profile document text').run w) := by
  have hparse := parse_unplaced .document h
  cases ho : parse .document (Source.ofText text) with
  | failed e c =>
    cases ho' : parse .document (Source.ofText text') with
    | failed e' c' =>
      rw [ho,ho'] at hparse
      rw [Act.run_readSource_failed ho,Act.run_readSource_failed ho']
      exact ⟨rfl,.inr ⟨e,e',(Outcome.failed.inj hparse).1,rfl,rfl⟩⟩
    | parsed t' c' =>
      rw [ho,ho'] at hparse
      cases hparse
  | parsed t c =>
    cases ho' : parse .document (Source.ofText text') with
    | failed e' c' =>
      rw [ho,ho'] at hparse
      cases hparse
    | parsed t' c' =>
      rw [ho,ho'] at hparse
      have hdraft := Draft.ofDocument_unplaced (Outcome.parsed.inj hparse).1
      by_cases hprofile : profile = .full
      · subst hprofile
        rw [Act.readSource_parsed ho,Act.readSource_parsed ho']
        simp only [Act.readTree,ExceptT.run,Act.nextModule_log,hdraft]
        exact ⟨rfl,.inl rfl⟩
      · rw [Act.run_readSource_other ho hprofile,Act.run_readSource_other ho' hprofile]
        exact ⟨rfl,.inl rfl⟩

/-- The tokens of a text, written each with a line feed behind it, are read as the same tokens
without a fault. Texts with the same tokens have the same tree for every rule, but for places, and
do the same to a system. -/
theorem layout_immaterial (text : List Char) :
    (Source.ofText (laidOut (Source.ofText text).tokens)).tokens.map Token.unplaced =
        (Source.ofText text).tokens.map Token.unplaced ∧
      (Source.ofText (laidOut (Source.ofText text).tokens)).faults = [] ∧
      ∀ text', (Source.ofText text').tokens.map Token.unplaced =
        (Source.ofText text).tokens.map Token.unplaced →
        (∀ r, (parse r (Source.ofText text')).unplaced Tree.unplaced =
          (parse r (Source.ofText text)).unplaced Tree.unplaced) ∧
        ∀ n profile document w, ReadAlike document ((Act.readSource n profile document text).run w)
          ((Act.readSource n profile document text').run w) := by
  obtain ⟨htokens,hfaults⟩ := Source.ofText_laidOut (Source.handed_ofText text)
  exact ⟨htokens,hfaults,fun text' h => ⟨fun r => parse_unplaced r h,readSource_alike h⟩⟩

theorem layout_with_faults :
    let text := "module a 1.0 ? struct S \x7b int x=-5 string y='a\nb' \x7d".toList
    let text' := "/* b */ module\n\ta 1.0struct S\x7bint x = -5string y='a\nb'\x7d // c".toList
    (Source.ofText text').tokens.map Token.unplaced =
      (Source.ofText text).tokens.map Token.unplaced ∧
      (parse .document (Source.ofText text')).unplaced Tree.unplaced =
        (parse .document (Source.ofText text)).unplaced Tree.unplaced := by
  intro text text'
  have h : (Source.ofText text').tokens.map Token.unplaced =
      (Source.ofText text).tokens.map Token.unplaced := by
    decide +kernel
  exact ⟨h,((layout_immaterial text).2.2 text' h).1 .document⟩

end InterfaceKit
