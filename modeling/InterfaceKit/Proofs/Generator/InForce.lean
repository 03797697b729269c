import InterfaceKit.Proofs.Generator.RuleWalk

/-!
# What documents are written with

Whatever a generator writes while it follows a rule document, it writes for the rule that it has
entered last, with the bindings, the path and the source that the walk so far has left. A rule that
is passed over leaves nothing, and what a rule sets stays when the rule is done.
-/
namespace InterfaceKit
open Data Model Files Generate

/-! ## A sample -/

/-- A generator next to rules of one target. The interface has a path, the structure has none, and
there is no rule for the module that contains both. -/
def sampleRun : Run where
  generator := { folders := [], bindings := .ref 1, features := some [] }
  workspace :=
    { store := ⟨#[.map [],.map []]⟩
      systems :=
        [{ archive :=
            [{ common := { name := "m" }
               interfaces := [("I", { common := { name := "I" } })]
               structs := [("S", { common := { name := "S" } })] }]
           directory := [("m", 0)] }]
      files :=
        { files := [(["rules"],
            "t: \x7binterface: \x7bpath: p, documents: [a]\x7d, struct: \x7bdocuments: [b]\x7d\x7d".toUTF8.toList)] }
      shared := { texts := .ref 0 } }

def sampleInterface : Visit := ⟨"interface",.entity 0 (.symbol ⟨0,.interface "I"⟩)⟩

def sampleStruct : Visit := ⟨"struct",.entity 0 (.symbol ⟨0,.struct "S"⟩)⟩

theorem sampleRun_ready : sampleRun.Ready := by
  refine ⟨⟨⟨1,[],rfl,rfl,List.nodup_nil⟩,0,.map [],rfl,rfl⟩,fun f hf => ?_⟩
  cases hf

def succeedsWith {α σ : Type} (test : α → σ → Bool) : Except Failure α × σ → Bool
  | (.ok a, s) => test a s
  | (.error _, _) => false

theorem succeedsWith_iff {α σ : Type} {test : α → σ → Bool} {x : Except Failure α × σ} :
    succeedsWith test x = true ↔ ∃ a s, x = (.ok a, s) ∧ test a s = true := by
  obtain ⟨_ | a,s⟩ := x <;> simp [succeedsWith]

/-- Whether these are the events of the sample, with the rules and the settings that belong to
them. -/
def sampleEvents (r₀ : Run) : List Event → Bool
  | [.entered none rules entry,.entered (some v) rule r₁,.issued v' _ _,.entered (some u) rule' _,
      .issued u' _ _] =>
    let s := r₀.workspace.store
    [v,v',u,u'] = [sampleInterface,sampleInterface,sampleStruct,sampleStruct] ∧
      entry.bindings.get? "module" = none ∧
        s.followsModules (r₀.generator.features.getD []) rules = false ∧
      s.setting? rules "path" = none ∧ (s.setting? rule "path").isSome ∧
        r₁.generator.path = .ofString "p" ∧
      s.setting? rule' "path" = none
  | _ => false

def SampleWalk (r₀ : Run) (events : List Event) : Prop :=
  ∃ rules entry rule r₁ q₁ r₁' rule' r₂ q₂ r₂',
    events = [.entered none rules entry,.entered (some sampleInterface) rule r₁,
      .issued sampleInterface q₁ r₁',.entered (some sampleStruct) rule' r₂,
        .issued sampleStruct q₂ r₂'] ∧
    entry.bindings.get? "module" = none ∧
    r₀.workspace.store.followsModules (r₀.generator.features.getD []) rules = false ∧
    r₀.workspace.store.setting? rules "path" = none ∧
      (r₀.workspace.store.setting? rule "path").isSome ∧
    r₁.generator.path = .ofString "p" ∧ r₀.workspace.store.setting? rule' "path" = none

theorem sampleWalk_of_sampleEvents {r₀ : Run} {events : List Event}
    (h : sampleEvents r₀ events = true) :
    SampleWalk r₀ events := by
  unfold sampleEvents at h
  split at h
  · rename_i rules entry v rule r₁ v' q₁ r₁' u rule' r₂ u' q₂ r₂'
    simp only [decide_eq_true_eq,List.cons.injEq,and_true] at h
    obtain ⟨⟨rfl,rfl,rfl,rfl⟩,hfacts⟩ := h
    exact ⟨rules,entry,rule,r₁,q₁,r₁',rule',r₂,q₂,r₂',rfl,hfacts⟩
  · cases h

theorem sampleRun_walk : ∃ r₀, (openRules (.ofString "rules") 0).run sampleRun = (.ok (.ref 2), r₀) ∧
    (∀ target ∈ r₀.workspace.store.targets (.ref 2), r₀.workspace.store.LeavesSymbols target.2) ∧
    SampleWalk r₀
      ((Watched.processRules (.ofString "rules") 0).run { run := sampleRun }).2.events := by
  have hread : succeedsWith (fun document r₀ => decide (document = .ref 2 ∧
        (∀ target ∈ r₀.workspace.store.targets (.ref 2), r₀.workspace.store.LeavesSymbols target.2) ∧
        sampleEvents r₀
          ((Watched.processRules (.ofString "rules") 0).run { run := sampleRun }).2.events = true))
      ((openRules (.ofString "rules") 0).run sampleRun) = true := by
    decide +kernel
  obtain ⟨document,r₀,hopen,hread⟩ := succeedsWith_iff.mp hread
  obtain ⟨rfl,hleaves,hsample⟩ := of_decide_eq_true hread
  exact ⟨r₀,hopen,hleaves,sampleWalk_of_sampleEvents hsample⟩

/-! ## What is bound and what is in force -/

namespace Run.Ready
variable {r r₀ : Run} {path : Path} {n : Nat} {document : Value}

/-- Unless a context binds the names of symbols, documents are written for a symbol while its kind
is bound to it. The name of the module is bound to the module that contains the symbol if the rule
for modules is followed in the target, and otherwise to what it was bound to when the target was
entered. -/
theorem symbol_bound (hr : r.Ready) (hopen : (Generate.openRules path n).run r = (.ok document, r₀))
    (hleaves : ∀ target ∈ r₀.workspace.store.targets document,
      r₀.workspace.store.LeavesSymbols target.2) :
    let walk := (Watched.processRules path n).run { run := r }
    (Generate.processRules path n).run r = (walk.1, walk.2.run) ∧
      Recorded (SymbolBound r₀.workspace.store (r₀.generator.features.getD [])) walk.2.events :=
  ⟨Watched.processRules_erases path n { run := r },
    (Watched.processRules_recorded hr hopen).2.2 hleaves⟩

/-- The interface is written while no module is bound. -/
theorem module_unbound_without_rule :
    sampleRun.Ready ∧ ∃ r₀, (Generate.openRules (.ofString "rules") 0).run sampleRun =
      (.ok (.ref 2), r₀) ∧
      (∀ target ∈ r₀.workspace.store.targets (.ref 2), r₀.workspace.store.LeavesSymbols target.2) ∧
      ∃ before q r' after,
        ((Watched.processRules (.ofString "rules") 0).run { run := sampleRun }).2.events =
          before ++ .issued sampleInterface q r' :: after ∧
        r'.bindings.get? "interface" = some sampleInterface.symbol ∧
          r'.bindings.get? "module" = none := by
  obtain ⟨r₀,hopen,hleaves,rules,entry,rule,r₁,q₁,r₁',rule',r₂,q₂,r₂',hevents,hentry,hfollows,-⟩ :=
    sampleRun_walk
  refine ⟨sampleRun_ready,r₀,hopen,hleaves,[_,_],q₁,r₁',[_,_],hevents,?_⟩
  obtain ⟨_,_,htarget,hsymbol,hmodule⟩ :=
    (symbol_bound sampleRun_ready hopen hleaves).2 [_,_] _ [_,_] hevents
  cases htarget
  refine ⟨hsymbol,?_⟩
  rw [hmodule (by decide),hfollows,← hentry]
  rfl

/-- A walk enters what the document plans. Documents are written for the rule that was entered last,
with the path of the last target or rule that set one, whatever it was, and with the source of the
last one of the same target. -/
theorem path_in_force (hr : r.Ready)
    (hopen : (Generate.openRules path n).run r = (.ok document, r₀)) :
    let s := r₀.workspace.store
    let plan := s.plan (r₀.generator.features.getD []) (r₀.workspace.visits n) document
    let walk := (Watched.processRules path n).run { run := r }
    (Generate.processRules path n).run r = (walk.1, walk.2.run) ∧
      (walk.1 = .ok () → entries walk.2.events = plan) ∧
      Recorded (InForce s r.generator.path plan) walk.2.events :=
  ⟨Watched.processRules_erases path n { run := r },(Watched.processRules_recorded hr hopen).1,
    (Watched.processRules_recorded hr hopen).2.1⟩

/-- The structure is written with the path of the interface, though neither its rule nor its target
sets one. -/
theorem path_of_other_rule :
    sampleRun.Ready ∧ ∃ r₀, (Generate.openRules (.ofString "rules") 0).run sampleRun =
      (.ok (.ref 2), r₀) ∧
      ∃ before q r' after rules entry,
        ((Watched.processRules (.ofString "rules") 0).run { run := sampleRun }).2.events =
          before ++ .issued sampleStruct q r' :: after ∧
        targetAfter before = some (rules, entry) ∧ r₀.workspace.store.setting? rules "path" = none ∧
        r₀.workspace.store.setting? (r₀.workspace.store.ruleFor rules sampleStruct) "path" = none ∧
        r'.generator.path = .ofString "p" := by
  obtain ⟨r₀,hopen,-,rules,entry,rule,r₁,q₁,r₁',rule',r₂,q₂,r₂',hevents,-,-,htarget,hset,hpath,
    hnone⟩ := sampleRun_walk
  refine ⟨sampleRun_ready,r₀,hopen,[_,_,_,_],q₂,r₂',[],rules,entry,hevents,rfl,htarget,?_⟩
  obtain ⟨_,_,hfollowed,hlast,hforce,-⟩ :=
    (path_in_force sampleRun_ready hopen).2.2 [_,_,_,_] _ [] hevents
  cases hfollowed
  obtain ⟨-,rfl⟩ := Prod.mk.inj (Option.some.inj hlast)
  refine ⟨hnone,?_⟩
  rw [hforce,← hpath]
  simp [pathAfter,hset,hnone]

end Run.Ready

end InterfaceKit
