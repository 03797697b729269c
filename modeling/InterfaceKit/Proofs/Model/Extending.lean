import InterfaceKit.Proofs.Model.DocumentWalk
import InterfaceKit.Proofs.Model.Steps

/-!
# What a walk leaves alone

A walk adds cells and leaves the cells that were there. The head of a document begins a module, and
what follows gives it contents, but neither another name nor another version. This also holds of a
walk that ends early.
-/
namespace InterfaceKit

/-! ## Rules below a rule -/

namespace Grammar

def Item.rules : Item → List Rule
  | .token _ => []
  | .rule r => [r]

def Form.rules (f : Form) : List Rule :=
  f.flatMap fun
    | .one x | .many x => x.rules
    | .maybe xs | .choice xs => xs.flatMap Item.rules

variable {f : Form}

theorem Form.mem_rules_cons {p : Rule} {x : Part} (h : p ∈ f.rules) : p ∈ Form.rules (x :: f) :=
  List.mem_append_right _ h

variable {r : Rule}

/-- What productions pass on from a rule to the rules that they mention holds of all rules below. -/
theorem Derives.rule_below {P : Rule → Prop} (hP : ∀ r, P r → ∀ q ∈ r.production.rules, P q)
    {ts : List Tree} (h : Derives f ts) (hf : ∀ q ∈ f.rules, P q) {us : List Tree}
    (hn : .node r us ∈ Tree.nodesOf ts) : P r := by
  induction h with
  | nil => cases hn
  | token t _ ih => exact ih hf (by simpa [Tree.nodesOf,Tree.nodes] using hn)
  | @rule q rest vs ts _ _ ihq ih =>
    have hq : P q := hf q (by simp [Form.rules,Item.rules])
    have hcases : q = r ∨ .node r us ∈ Tree.nodesOf vs ∨ .node r us ∈ Tree.nodesOf ts := by
      have hcons : (r = q ∧ us = vs) ∨ .node r us ∈ Tree.nodesOf vs ∨
          .node r us ∈ Tree.nodesOf ts := by
        simpa [Tree.nodesOf,Tree.nodes,or_assoc] using hn
      exact hcons.imp_left fun h => h.1.symm
    rcases hcases with hsame | hn | hn
    · rwa [← hsame]
    · exact ihq (hP q hq) hn
    · exact ih (fun p hp => hf p (Form.mem_rules_cons hp)) hn
  | absent _ ih | stop _ ih => exact ih (fun p hp => hf p (Form.mem_rules_cons hp)) hn
  | @present xs rest ts _ ih =>
    apply ih _ hn
    intro p hp
    apply hf p
    simpa [Form.rules,List.flatMap_map] using hp
  | again _ ih => exact ih (fun p hp => hf p (by simpa [Form.rules] using hp)) hn
  | @pick x xs rest ts hx _ ih =>
    apply ih _ hn
    intro p hp
    apply hf p
    simp only [Form.rules,List.flatMap_cons,List.mem_append,List.mem_flatMap] at hp ⊢
    exact hp.imp_left fun h => ⟨x,hx,h⟩

def Rule.IsInner (r : Rule) : Prop := r ≠ .document ∧ r ≠ .header ∧ r ≠ .moduleHead

instance : DecidablePred Rule.IsInner :=
  fun r => inferInstanceAs (Decidable (r ≠ .document ∧ r ≠ .header ∧ r ≠ .moduleHead))

theorem Rule.IsInner.production (h : r.IsInner) : ∀ q ∈ r.production.rules, q.IsInner := by
  revert h
  cases r <;> decide

end Grammar

namespace Model
open Data Grammar Lexical

/-- What the head of a document says of its module. -/
def Module.head (m : Module) : String × String := (m.name, m.version)

theorem Module.head_modifyCommon {f : Common → Common} (h : ∀ c, (f c).name = c.name) (m : Module)
    (p : Place) :
    (m.modifyCommon p f).head = m.head := by
  cases p with
  | module => exact Prod.ext (h m.common) rfl
  | _ => rfl

/-- Old cells are kept, and the module has the same head. -/
structure Draft.Extends (d d' : Draft) : Prop where
  cells : ∀ i c, d.store.get? i = some c → d'.store.get? i = some c
  head : d'.module.map Module.head = d.module.map Module.head

protected theorem Draft.Extends.refl (d : Draft) : d.Extends d := ⟨fun _ _ h => h,rfl⟩

variable {d d' : Draft} {r : Rule} {t : Tree}

protected theorem Draft.Extends.trans {d'' : Draft} (h : d.Extends d') (h' : d'.Extends d'') :
    d.Extends d'' :=
  ⟨fun i c hi => h'.cells i c (h.cells i c hi),h'.head.trans h.head⟩

theorem Module.head_change {m m' : Module} (h : Change r t m m') : m'.head = m.head := by
  cases h with
  | comment | tags | type =>
    apply Module.head_modifyCommon
    intro c
    rfl
  | parameter hr owner tags => cases owner <;> rfl
  | _ => rfl

/-- A step extends the draft unless it begins a module. -/
theorem Draft.Step.extends (hr : r ≠ .moduleHead) (h : d.Step r t d') : d.Extends d' := by
  cases h with
  | aside _ hmodule hcells => exact ⟨hcells,congrArg _ hmodule⟩
  | begin hr' tags => exact absurd hr' hr
  | edit hm hc =>
    refine ⟨fun _ _ hi => hi,?_⟩
    rw [hm]
    exact congrArg some (Module.head_change hc)

theorem Draft.Reaches.extends {N : Rule → Tree → Prop} (hN : ∀ r t, N r t → r ≠ .moduleHead)
    (h : d.Reaches N d') : d.Extends d' := by
  induction h with
  | refl => exact .refl d
  | tail _ hstep ih =>
    obtain ⟨r,t,hn,hs⟩ := hstep
    exact ih.trans (hs.extends (hN r t hn))

namespace Drafting

/-! ## Documents -/

theorem head_begins [Yaml.Readers] (y : Phrase.ModuleHead) {d : Draft} (hd : d.focus.OnParts) :
    (∀ i c, d.store.get? i = some c → ((walk (.node .moduleHead y.parts)).run d).2.store.get? i =
      some c) ∧
      ((walk (.node .moduleHead y.parts)).run d).2.module.map Module.head =
        some (y.name.val.text, y.version.val.text) ∧
      ((walk (.node .moduleHead y.parts)).run d).2.focus.OnParts := by
  obtain ⟨hsteps,hfocus⟩ := annotate_stepwise (N := fun r _ => r ≠ .moduleHead) (r := .type)
    (t := .node .moduleHead y.parts) (by decide) .module
    { d with
      store := (d.store.alloc (.map [])).2
      module := some
        { common :=
            { name := y.name.val.text
              tags := .ref (d.store.alloc (.map [])).1
              origin := .root d.number }
          version := y.version.val.text } } hd
  have hannotate := hsteps.extends fun _ _ hr => hr
  rw [walk_head]
  exact ⟨fun i c hi => hannotate.cells i c (Store.get?_alloc hi _),hannotate.head,hfocus⟩

end Drafting

/-- A walk through a document leaves a module of the name and the version that its head gives. -/
theorem ofDocument_begins [Yaml.Readers] (doc : Phrase.Document) (number : Nat) (store : Store) :
    (∀ i c, store.get? i = some c → (Draft.ofDocument number doc.tree store).2.store.get? i =
      some c) ∧
      (Draft.ofDocument number doc.tree store).2.module.map Module.head =
        some (doc.header.head.name.val.text, doc.header.head.version.val.text) := by
  have himports := (Form.Yields.many Phrase.import_yields _).mpr ⟨doc.header.imports,rfl⟩
  have hdefinitions := (Form.Yields.many Phrase.definition_yields _).mpr ⟨doc.definitions,rfl⟩
  have hinner : ∀ r : Rule, r.IsInner → ∀ {ts : List Tree}, Derives [.many (.rule r)] ts →
      Stepwise (fun q _ => q.IsInner) (Drafting.walkAll ts) := by
    intro r hr ts hts
    apply Drafting.walkAll_stepwise
    intro q us hn
    apply hts.rule_below (fun r hr => Rule.IsInner.production hr) _ hn
    simpa [Form.rules,Item.rules] using hr
  have hrest := (hinner .importLine (by decide) himports).bind fun _ =>
    hinner .definition (by decide) hdefinitions
  obtain ⟨hcells,hhead,hfocus⟩ :=
    Drafting.head_begins doc.header.head (d := { number, store }) ⟨nofun,nofun⟩
  rw [Draft.ofDocument,Drafting.walk_document,run_bind]
  revert hcells hhead hfocus
  rcases (Drafting.walk (.node .moduleHead doc.header.head.parts)).run { number, store } with ⟨r,d⟩
  intro hcells hhead hfocus
  cases r with
  | error o => exact ⟨hcells,hhead⟩
  | ok u =>
    have hextends : d.Extends _ := (hrest d hfocus).1.extends fun _ _ hr => hr.2.2
    exact ⟨fun i c hi => hextends.cells i c (hcells i c hi),hextends.head.trans hhead⟩

end Model

end InterfaceKit
