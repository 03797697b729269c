import InterfaceKit.Proofs.Generator.RuleDocument
import InterfaceKit.Proofs.Generator.Watch

/-!
# What a record tells

What a walk is going to enter can be read off the document: each target that applies, and in it the
rules that are followed for the symbols of the system, which come in the order of their modules.
What is in force when a document is written can be read off the record: the path is that of the last
target or rule that set one, and the source is that of the last one that set one since its target
was entered.
-/
namespace InterfaceKit
open Data Model Files Generate

/-! ## What is going to be entered -/

namespace Data.Store

def ruleFor (s : Store) (rules : Value) (v : Visit) : Value := (s.given rules v.kind).getD .null

def followsModules (s : Store) (features : List Value) (rules : Value) : Bool :=
  s.isFollowed features ((s.given rules "module").getD .null)

/-- The rules of a target that are followed for some symbols. -/
def followed (s : Store) (features : List Value) (rules : Value) (visits : List Visit) :
    List (Option Visit × Value) :=
  visits.filterMap fun v =>
    if s.isFollowed features (s.ruleFor rules v) then some (some v, s.ruleFor rules v) else none

theorem followed_cons (s : Store) (features : List Value) (rules : Value) (v : Visit)
    (visits : List Visit) :
    s.followed features rules (v :: visits) =
      if s.isFollowed features (s.ruleFor rules v) then
        (some v, s.ruleFor rules v) :: s.followed features rules visits
      else s.followed features rules visits := by
  unfold followed
  rw [List.filterMap_cons]
  split <;> simp_all

/-- A target that applies is entered itself, and then its rules. -/
def entering (s : Store) (features : List Value) (visits : List Visit) (rules : Value) :
    List (Option Visit × Value) :=
  if s.applies features rules then (none, rules) :: s.followed features rules visits else []

/-- The targets and rules that a walk through a document enters, with the symbols that the rules are
entered for. -/
def plan (s : Store) (features : List Value) (visits : List Visit) (document : Value) :
    List (Option Visit × Value) :=
  (s.targets document).flatMap fun target => s.entering features visits target.2

end Data.Store

/-! ## What is in force -/

/-- The targets and rules that were entered, with the symbols that the rules were entered for. -/
def entries (events : List Event) : List (Option Visit × Value) :=
  events.filterMap fun e => match e with
    | .entered visit rule _ => some (visit, rule)
    | .issued _ _ _ => none

/-- The path in force after some events: that of the last target or rule that sets one. -/
def pathAfter (s : Store) (start : Path) (events : List Event) : Path :=
  events.foldl (fun path e => match e with
    | .entered _ rule run => if (s.setting? rule "path").isSome then run.generator.path else path
    | .issued _ _ _ => path) start

/-- The source in force after some events: that of the last target or rule that sets one, and none
at first in a target. -/
def sourceAfter (s : Store) (events : List Event) : Value :=
  events.foldl (fun source e => match e with
    | .entered none rules _ => (s.setting? rules "source").getD .null
    | .entered (some _) rule _ => (s.setting? rule "source").getD source
    | .issued _ _ _ => source) .null

/-- The target that is being followed after some events, with the state in which it was entered. -/
def targetAfter (events : List Event) : Option (Value × Run) :=
  events.foldl (fun target e => match e with
    | .entered none rules run => some (rules, run)
    | _ => target) none

section
variable (s : Store) (start : Path) (events : List Event) (visit : Option Visit) (v : Visit)
  (rule : Value) (request : Request) (run : Run)

@[simp] theorem entries_entered :
    entries (events ++ [.entered visit rule run]) = entries events ++ [(visit, rule)] := by
  simp [entries]

@[simp] theorem entries_issued : entries (events ++ [.issued v request run]) = entries events := by
  simp [entries]

@[simp] theorem pathAfter_entered : pathAfter s start (events ++ [.entered visit rule run]) =
    if (s.setting? rule "path").isSome then run.generator.path else pathAfter s start events := by
  simp [pathAfter]

@[simp] theorem pathAfter_issued :
    pathAfter s start (events ++ [.issued v request run]) = pathAfter s start events := by
  simp [pathAfter]

@[simp] theorem sourceAfter_target :
    sourceAfter s (events ++ [.entered none rule run]) = (s.setting? rule "source").getD .null := by
  simp [sourceAfter]

@[simp] theorem sourceAfter_rule : sourceAfter s (events ++ [.entered (some v) rule run]) =
    (s.setting? rule "source").getD (sourceAfter s events) := by
  simp [sourceAfter]

@[simp] theorem sourceAfter_issued :
    sourceAfter s (events ++ [.issued v request run]) = sourceAfter s events := by
  simp [sourceAfter]

@[simp] theorem targetAfter_target :
    targetAfter (events ++ [.entered none rule run]) = some (rule, run) := by
  simp [targetAfter]

@[simp] theorem targetAfter_rule :
    targetAfter (events ++ [.entered (some v) rule run]) = targetAfter events := by
  simp [targetAfter]

@[simp] theorem targetAfter_issued :
    targetAfter (events ++ [.issued v request run]) = targetAfter events := by
  simp [targetAfter]

end

/-! ## The order of visits -/

def symbolNames : List String := ["system","module","interface","struct","enum"]

def contentKinds : List String := ["interface","struct","enum"]

/-- What the rules of a target leave alone: the names of symbols. -/
def Data.Store.LeavesSymbols (s : Store) (rules : Value) : Prop :=
  ∀ name ∈ symbolNames, s.leaves rules name ∧
    ∀ kind ∈ symbolNames, s.leaves ((s.given rules kind).getD .null) name

instance (s : Store) (rules : Value) : Decidable (s.LeavesSymbols rules) :=
  inferInstanceAs (Decidable (∀ name ∈ symbolNames, s.leaves rules name ∧
    ∀ kind ∈ symbolNames, s.leaves ((s.given rules kind).getD .null) name))

namespace Visit

def module? (v : Visit) : Option Value :=
  match v.symbol with
  | .entity n (.symbol h) => some (.entity n (.symbol ⟨h.module,.module⟩))
  | _ => none

/-- What a module contains comes while it is the module `m` whose symbols come. -/
def Within (v : Visit) (m : Option Value) : Prop :=
  v.kind ∈ contentKinds → ∃ x, v.module? = some x ∧ m = some x

/-- The module whose symbols come next, after a visit. -/
def next (m : Option Value) (v : Visit) : Option Value :=
  if v.kind = "module" then some v.symbol else m

theorem next_of_content {v : Visit} (h : v.kind ∈ contentKinds) (m : Option Value) :
    v.next m = m := by
  have hne : v.kind ≠ "module" := by
    intro hkind
    rw [hkind] at h
    exact absurd h (by decide)
  rw [next,if_neg hne]

theorem Within.next {v : Visit} {m : Option Value} (h : v.Within m) : v.Within (v.next m) := by
  intro hkind
  rw [next_of_content hkind]
  exact h hkind

end Visit

/-- Symbols follow the module that contains them. -/
def Escorted : Option Value → List Visit → Prop
  | _, [] => True
  | m, v :: vs => v.kind ∈ symbolNames ∧ v.Within m ∧ Escorted (v.next m) vs

theorem Escorted.append {x : Value} {vs ws : List Visit}
    (hvs : ∀ v ∈ vs, v.kind ∈ contentKinds ∧ v.module? = some x) (hws : Escorted (some x) ws) :
    Escorted (some x) (vs ++ ws) := by
  induction vs with
  | nil => exact hws
  | cons v vs ih =>
    obtain ⟨⟨hkind,hmodule⟩,hvs⟩ := List.forall_mem_cons.mp hvs
    have hname : v.kind ∈ symbolNames := List.mem_cons_of_mem _ (List.mem_cons_of_mem _ hkind)
    refine ⟨hname,fun _ => ⟨x,hmodule,rfl⟩,?_⟩
    rw [Visit.next_of_content hkind]
    exact ih hvs

theorem Workspace.module_of_mem_symbolsIn {w : Workspace} {n : Nat} {owner h : Handle}
    {part : Section} (hh : h ∈ w.symbolsIn n (.symbol owner) part) : h.module = owner.module := by
  unfold symbolsIn at hh
  dsimp only at hh
  split at hh
  · obtain ⟨p,-,rfl⟩ := List.mem_map.mp hh
    rfl
  · cases hh

theorem Workspace.visits_escorted (w : Workspace) (n : Nat) : Escorted none (w.visits n) := by
  have hpart : ∀ (owner : Handle) (kind : String) (part : Section), kind ∈ contentKinds →
      ∀ v ∈ (w.symbolsIn n (.symbol owner) part).map fun h => (⟨kind,.entity n (.symbol h)⟩ : Visit),
        v.kind ∈ contentKinds ∧ v.module? = some (.entity n (.symbol ⟨owner.module,.module⟩)) := by
    intro owner kind part hkind v hv
    obtain ⟨h,hh,rfl⟩ := List.mem_map.mp hv
    refine ⟨hkind,?_⟩
    rw [← module_of_mem_symbolsIn hh]
    rfl
  have hmodules : ∀ (hs : List Handle) (m : Option Value), (∀ h ∈ hs, h.place = .module) →
      Escorted m (hs.flatMap fun m => ⟨"module",.entity n (.symbol m)⟩ ::
        ((w.symbolsIn n (.symbol m) .interfaces).map (fun h => ⟨"interface",.entity n (.symbol h)⟩)
          ++
          (w.symbolsIn n (.symbol m) .structs).map (fun h => ⟨"struct",.entity n (.symbol h)⟩) ++
          (w.symbolsIn n (.symbol m) .enums).map fun h => ⟨"enum",.entity n (.symbol h)⟩)) := by
    intro hs
    induction hs with
    | nil => exact fun _ _ => trivial
    | cons h hs ih =>
      intro m hplace
      obtain ⟨hh,hhs⟩ := List.forall_mem_cons.mp hplace
      obtain ⟨id,place⟩ := h
      cases hh
      rw [List.flatMap_cons,List.cons_append]
      refine ⟨by simp [symbolNames],fun hkind => by simp [contentKinds] at hkind,
        Escorted.append (fun v hv => ?_) (ih _ hhs)⟩
      rw [List.mem_append,List.mem_append] at hv
      obtain (hv | hv) | hv := hv
      · exact hpart _ _ _ (by decide) v hv
      · exact hpart _ _ _ (by decide) v hv
      · exact hpart _ _ _ (by decide) v hv
  refine ⟨by simp [symbolNames],fun hkind => by simp [contentKinds] at hkind,
    hmodules _ _ fun h hh => ?_⟩
  obtain ⟨id,-,rfl⟩ := List.mem_map.mp hh
  rfl

end InterfaceKit
