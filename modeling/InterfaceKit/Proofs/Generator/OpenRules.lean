import InterfaceKit.Proofs.Documents.Loading
import InterfaceKit.Proofs.Generator.RuleDocument

/-!
# Opening a rule document

A generator is ready for rules when its bindings are a mapping that has each name once, as they are
when it is made. Reading a rule document then leaves it following the document, which lies in new
cells.
-/
namespace InterfaceKit
open Data Model Files

/-- A mapping that may hold the bindings of a generator: it has each name once. The shared bindings
of texts are there as well. -/
structure Workspace.Binds (w : Workspace) (mapping : Value) : Prop where
  entries : ∃ b es, mapping = .ref b ∧ w.store.get? b = some (.map es) ∧ (textEntries es).names.Nodup
  texts : ∃ t c, w.shared.texts = .ref t ∧ w.store.get? t = some c

namespace Workspace.Binds
variable {w w' : Workspace} {mapping : Value}

theorem alloc (h : w.Binds mapping) (c : Cell) :
    ({ w with store := (w.store.alloc c).2 } : Workspace).Binds mapping := by
  obtain ⟨⟨b,es,hb,hes,hnodup⟩,t,d,ht,hd⟩ := h
  exact ⟨⟨b,es,hb,Store.get?_alloc hes c,hnodup⟩,t,d,ht,Store.get?_alloc hd c⟩

theorem setItem (h : w.Binds mapping) {k x : Value}
    (hrun : (Act.setItem mapping k x).run w = (.ok (), w')) :
    w'.Binds mapping := by
  obtain ⟨⟨b,es,rfl,hes,hnodup⟩,t,c,ht,hc⟩ := h
  rw [Act.setItem_run] at hrun
  split at hrun
  · rename_i s hs
    cases hrun
    obtain ⟨es',hes',hnodup',-⟩ := Store.setItem_map hes hnodup hs
    obtain ⟨d,rfl⟩ := Store.setItem_put hs
    refine ⟨⟨b,es',rfl,hes',hnodup'⟩,t,if b = t then d else c,ht,?_⟩
    split
    · rename_i hbt
      subst hbt
      exact Store.get?_put_self hc d
    · rename_i hbt
      exact (Store.get?_put_of_ne hbt d).trans hc
  · cases hrun

end Workspace.Binds

/-- A generator that may follow rules; its features are plain. -/
structure Run.Ready (r : Run) : Prop where
  binds : r.workspace.Binds r.generator.bindings
  features : ∀ f ∈ r.generator.features.getD [], ∀ i, f ≠ .ref i

/-- A generator that is made for rules is ready for them. -/
theorem Act.ruleGenerator_ready {w w' : Workspace} {folders : List String}
    {destination bindings : Value} {features : List Value} {force : Bool} {g : Generator}
    (hw : w.Binds bindings) (hfeatures : ∀ f ∈ features, ∀ i, f ≠ .ref i)
    (h : (ruleGenerator folders destination bindings features force).run w = (.ok g, w')) :
    Run.Ready ⟨g,w'⟩ := by
  unfold ruleGenerator at h
  obtain ⟨set,w₁,halloc,h₁⟩ := ok_of_bind h
  obtain ⟨_,w₂,hdestination,h₂⟩ := ok_of_bind h₁
  obtain ⟨_,w₃,hproject,h₃⟩ := ok_of_bind h₂
  obtain ⟨_,w₄,hset,h₄⟩ := ok_of_bind h₃
  cases halloc
  cases h₄
  refine ⟨(((hw.alloc _).setItem hdestination).setItem hproject).setItem hset,fun f hf => ?_⟩
  exact hfeatures f (List.mem_eraseDups.mp hf)

namespace Run.Ready
variable {r r₀ : Run}

theorem follows (hr : r.Ready) (hfeatures : r.generator.features.isSome) :
    ∃ o : Opening, o.start = r.workspace.store.cells.size ∧ r.Follows o := by
  obtain ⟨b,es,hb,hes,hnodup⟩ := hr.binds.entries
  obtain ⟨t,c,ht,hc⟩ := hr.binds.texts
  obtain ⟨features,hf⟩ := Option.isSome_iff_exists.mp hfeatures
  have hplain : ∀ f ∈ features, ∀ i, f ≠ .ref i := by
    have h := hr.features
    rw [hf] at h
    exact h
  let o : Opening :=
    { own := b
      texts := t
      start := r.workspace.store.cells.size
      store := r.workspace.store
      features
      visits := r.workspace.visits
      own_lt := (Array.getElem?_eq_some_iff.mp hes).1
      texts_lt := (Array.getElem?_eq_some_iff.mp hc).1
      closed := r.workspace.store.closed_size
      plain := hplain }
  exact ⟨o,rfl,hb,⟨es,hes,hnodup⟩,ht,hf,fun _ => rfl,fun _ _ _ h => h⟩

/-- Once its rules are open, a generator follows them. -/
theorem openRules {path : Path} {n : Nat} {document : Value} (hr : r.Ready)
    (h : (Generate.openRules path n).run r = (.ok document, r₀)) :
    ∃ o : Opening, o.store = r₀.workspace.store ∧ r₀.Follows o ∧ o.Reaches document ∧
      r₀.generator = r.generator ∧ r₀.workspace.systems = r.workspace.systems := by
  unfold Generate.openRules at h
  rw [Generate.run_generator_bind] at h
  dsimp only at h
  split at h
  · cases h
  · rename_i hfeatures
    obtain ⟨o,hstart,hfollows⟩ := hr.follows (by simpa [Option.isSome_iff_ne_none] using hfeatures)
    obtain ⟨_,r₁,hbind,hload⟩ := ok_of_bind h
    obtain ⟨s,hs,rfl⟩ := Generate.ok_of_bindOne hfollows hbind
    have hfollows₁ := (Generate.bindOne_spec hfollows hbind).1.follows
    rw [Generate.run_liftM] at hload
    rcases hyaml : (Act.loadYaml path true).run { r.workspace with store := s } with ⟨v,w⟩
    rw [hyaml] at hload
    cases hload
    have hadds := Act.loadYaml_adds path true { r.workspace with store := s }
    rw [hyaml] at hadds
    obtain ⟨hvalue,hclosed⟩ := Act.loadYaml_fresh hyaml
    have hsize : s.cells.size = o.start := (Store.size_setItem hs).trans hstart.symm
    obtain ⟨es,hes,hnodup⟩ := hfollows₁.entries
    let o' : Opening :=
      { o with
        store := w.store
        start := s.cells.size
        own_lt := hsize ▸ o.own_lt
        texts_lt := hsize ▸ o.texts_lt
        closed := hclosed }
    have hfollows' : ({ r with workspace := w } : Run).Follows o' :=
      { bindings := hfollows.bindings
        entries := ⟨es,hadds.cells _ _ hes,hnodup⟩
        texts := (congrArg _ hadds.shared).trans hfollows.texts
        features := hfollows.features
        visits := fun n =>
          (Workspace.visits_eq (by rw [Workspace.systemAt,hadds.systems]; rfl)).trans
            (hfollows.visits n)
        document := fun _ _ _ h => h }
    exact ⟨o',rfl,hfollows',hvalue,rfl,hadds.systems⟩

end Run.Ready

end InterfaceKit
