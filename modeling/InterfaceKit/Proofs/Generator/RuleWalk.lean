import InterfaceKit.Proofs.Generator.OpenRules
import InterfaceKit.Proofs.Generator.RuleRecord

/-!
# What holds along a walk

A walk enters what the document plans, one after the other. When a document is written, path and
source are those that are in force. The kind of the symbol is bound to the symbol, and the name of
the module is bound to its module if the rule for modules is followed in the target; otherwise it is
bound to whatever it was bound to when the target was entered.
-/
namespace InterfaceKit
open Data Model Files Generate

/-! ## What holds of each event -/

/-- With respect to the events before: what is entered is the next of the plan, and its path is
written out; what is written is written for the last rule that was entered, with the path and the
source in force. -/
def InForce (s : Store) (start : Path) (plan : List (Option Visit × Value)) (before : List Event) :
    Event → Prop
  | .entered visit rule run => entries before ++ [(visit, rule)] <+: plan ∧
      ∀ template, s.setting? rule "path" = some template → WrittenOut template run
  | .issued v _ run => ∃ rules entry, targetAfter before = some (rules, entry) ∧
      (entries before).getLast? = some (some v, s.ruleFor rules v) ∧
      run.generator.path = pathAfter s start before ∧ run.generator.source = sourceAfter s before

/-- With respect to the events before: what is written for a symbol is written while its kind is
bound to it. The name of the module is bound to the module of the symbol where modules have a rule
that is followed, and else to what it was bound to when the target was entered. -/
def SymbolBound (s : Store) (features : List Value) (before : List Event) : Event → Prop
  | .entered _ _ _ => True
  | .issued v _ run => ∃ rules entry, targetAfter before = some (rules, entry) ∧
      run.bindings.get? v.kind = some v.symbol ∧
      (v.kind ∈ contentKinds → run.bindings.get? "module" =
        if s.followsModules features rules then v.module? else entry.bindings.get? "module")

/-- A walk from a path along a plan. Symbols are only looked after if `leaves` says that nothing
else binds their names. -/
structure Walk extends Opening where
  path : Path
  plan : List (Option Visit × Value)
  leaves : Prop

namespace Watched

section
variable (k : Walk)

def Right (before : List Event) (e : Event) : Prop :=
  InForce k.store k.path k.plan before e ∧ (k.leaves → SymbolBound k.store k.features before e)

/-- What the name of the module is bound to while the symbols of `m` come, in a target that was
entered in the state `entry`. -/
def ModuleBound (rules : Value) (entry : Run) (m : Option Value) (r : Run) : Prop :=
  if k.store.followsModules k.features rules then ∀ x, m = some x → r.bindings.get? "module" = some x
  else r.bindings.get? "module" = entry.bindings.get? "module"

/-- Between targets, while `rest` is still to be entered. -/
structure AtTarget (rest : List (Option Visit × Value)) (s : Watch) : Prop where
  follows : s.run.Follows k.toOpening
  path : s.run.generator.path = pathAfter k.store k.path s.events
  plan : k.plan = entries s.events ++ rest

/-- Between the rules of a target, while the symbols of `m` come. -/
structure InTarget (rules : Value) (m : Option Value) (rest : List (Option Visit × Value))
    (s : Watch) : Prop
    extends AtTarget k rest s where
  source : s.run.generator.source = sourceAfter k.store s.events
  target : ∃ entry, targetAfter s.events = some (rules, entry) ∧
    (k.leaves → ModuleBound k rules entry m s.run)

structure InRule (rules : Value) (m : Option Value) (v : Visit) (rest : List (Option Visit × Value))
    (s : Watch) : Prop
    extends InTarget k rules m rest s where
  latest : (entries s.events).getLast? = some (some v, k.store.ruleFor rules v)
  symbol : k.leaves → s.run.bindings.get? v.kind = some v.symbol

end

variable {k : Walk} {rules : Value} {m : Option Value} {v : Visit}
  {rest : List (Option Visit × Value)} {s : Watch}

/-! ## Bindings of the module -/

namespace ModuleBound
variable {entry r r' : Run}

protected theorem congr (h : ModuleBound k rules entry m r)
    (hsame : r'.bindings.get? "module" = r.bindings.get? "module") :
    ModuleBound k rules entry m r' := by
  unfold ModuleBound at h ⊢
  rw [hsame]
  exact h

/-- A symbol is bound to its kind; only modules change what the name of the module is bound to. -/
theorem bound (h : ModuleBound k rules entry m r) (hsymbol : r'.bindings.get? v.kind = some v.symbol)
    (hother : "module" ≠ v.kind → r'.bindings.get? "module" = r.bindings.get? "module")
    (hfollowed : v.kind = "module" → k.store.followsModules k.features rules = true) :
    ModuleBound k rules entry (v.next m) r' := by
  unfold Visit.next
  by_cases hkind : v.kind = "module"
  · unfold ModuleBound
    rw [if_pos hkind,if_pos (hfollowed hkind)]
    intro x hx
    rw [← hkind,hsymbol,hx]
  · rw [if_neg hkind]
    exact h.congr (hother (Ne.symm hkind))

/-- A rule for modules is passed over in the whole target. -/
theorem passed (h : ModuleBound k rules entry m r)
    (hpassed : v.kind = "module" → k.store.followsModules k.features rules = false) :
    ModuleBound k rules entry (v.next m) r := by
  unfold Visit.next
  by_cases hkind : v.kind = "module"
  · unfold ModuleBound at h ⊢
    rw [hpassed hkind] at h ⊢
    exact h
  · rw [if_neg hkind]
    exact h

theorem start (k : Walk) (rules : Value) (r : Run) : ModuleBound k rules r none r := by
  unfold ModuleBound
  split
  · exact nofun
  · rfl

end ModuleBound

/-! ## Steps that change nothing of this -/

variable {r : Run} {Good : List Event → Prop} {document : Value}

theorem AtTarget.steady (hs : AtTarget k rest s) (hr : s.run.Steady k.toOpening (fun _ => False) r) :
    AtTarget k rest { s with run := r } :=
  ⟨hr.follows,hr.path.trans hs.path,hs.plan⟩

theorem InTarget.steady (hs : InTarget k rules m rest s)
    (hr : s.run.Steady k.toOpening (fun _ => False) r) :
    InTarget k rules m rest { s with run := r } := by
  obtain ⟨entry,htarget,hmodule⟩ := hs.target
  exact
    { hs.toAtTarget.steady hr with
      source := hr.source.trans hs.source
      target := ⟨entry,htarget,fun hL => (hmodule hL).congr (hr.bindings _ not_false)⟩ }

theorem InRule.steady (hs : InRule k rules m v rest s)
    (hr : s.run.Steady k.toOpening (fun _ => False) r) :
    InRule k rules m v rest { s with run := r } :=
  { hs.toInTarget.steady hr with
    latest := hs.latest
    symbol := fun hL => (hr.bindings _ not_false).trans (hs.symbol hL) }

theorem Meets.steady {α : Type} {A : Watch → Prop} {y : Generate α}
    (hA : ∀ s, A s → s.run.Follows k.toOpening)
    (hsteady : ∀ s r, A s → s.run.Steady k.toOpening (fun _ => False) r → A { s with run := r })
      (hy : Generate.Steady k.toOpening (fun _ => False) y) : Meets Good A (liftM y) fun _ => A :=
  .lift fun s _ r hs hrun => hsteady s r hs (hy.leads_of_run hrun (hA s hs))

/-! ## Writing the documents of a rule -/

section
variable (hv : v.Within m)
include hv

/-- A document is written as its rule, its target and the walk so far want it. -/
theorem InRule.right (hs : InRule k rules m v rest s) (q : Request) :
    Right k s.events (.issued v q s.run) := by
  obtain ⟨entry,htarget,hmodule⟩ := hs.target
  refine ⟨⟨rules,entry,htarget,hs.latest,hs.path,hs.source⟩,fun hL => ?_⟩
  refine ⟨rules,entry,htarget,hs.symbol hL,fun hkind => ?_⟩
  have hbound := hmodule hL
  unfold ModuleBound at hbound
  split
  · rename_i hfollowed
    rw [if_pos hfollowed] at hbound
    obtain ⟨x,hx,hm⟩ := hv hkind
    rw [hx,hbound x hm]
  · rename_i hfollowed
    rw [if_neg hfollowed] at hbound
    exact hbound

theorem write_meets {q : Request} (hq : q.bindings = none) :
    Meets (Recorded (Right k)) (InRule k rules m v rest) (follower.write v q) fun _ =>
    InRule k rules m v rest := by
  refine Meets.bind (B := fun _ => InRule k rules m v rest) (.note fun s hgood hs => ?_) fun _ => ?_
  · refine ⟨hgood.snoc (hs.right hv q),?_⟩
    obtain ⟨⟨⟨hfollows,hpath,hplan⟩,hsource,htarget⟩,hlatest,hsymbol⟩ := hs
    exact ⟨⟨⟨hfollows,by simpa using hpath,by simpa using hplan⟩,by
      simpa using hsource,by simpa using htarget⟩,by simpa using hlatest,hsymbol⟩
  · exact .steady (fun s hs => hs.follows) (fun s r hs hr => hs.steady hr) (write_steady hq)

theorem writeListed_meets (rule : Value) (name : String) (preserve : Bool) :
    Meets (Recorded (Right k)) (InRule k rules m v rest)
      (writeListed (follower.write v) rule name preserve)
      fun _ => InRule k rules m v rest := by
  have hsteady : ∀ {α : Type} (y : Generate α), Generate.Steady k.toOpening (fun _ => False) y →
      Meets (Recorded (Right k)) (InRule k rules m v rest) (liftM y) fun _ =>
        InRule k rules m v rest :=
    fun y hy => .steady (fun s hs => hs.follows) (fun s r hs hr => hs.steady hr) hy
  unfold writeListed
  refine (hsteady _ (listed_obeys lenient_steady rule name)).bind fun documents => ?_
  refine Meets.bind (.forIn (I := fun _ => InRule k rules m v rest) (fun entry _ => ?_) documents)
    fun _ => .pure fun _ hs => hs
  refine (hsteady _ (documentOf_obeys entry)).bind fun e => ?_
  exact (write_meets hv rfl).bind fun _ => .pure fun s hs => ⟨rfl,hs⟩

end

/-! ## Entering targets and rules -/

theorem Meets.enter {A B : Watch → Prop} {visit : Option Visit} {rule : Value}
    (h : ∀ s r, Good s.events → A s → (Generate.enter rule).run s.run = (.ok (), r) →
      Good (s.events ++ [.entered visit rule r]) ∧ B ⟨r,s.events ++ [.entered visit rule r]⟩) :
    Meets Good A (follower.enter visit rule) fun _ => B := by
  refine Meets.bind (B := fun _ s => ∃ r, A { s with run := r } ∧
    (Generate.enter rule).run r = (.ok (), s.run))
    (.lift fun s _ r hs hrun => ⟨s.run,hs,hrun⟩) fun _ => .note fun s hgood hs => ?_
  obtain ⟨r,hs,hrun⟩ := hs
  exact h { s with run := r } s.run hgood hs hrun

section
variable {visit : Option Visit} {rule : Value} {r : Run} (hreach : k.Reaches rule)
  (hs : AtTarget k ((visit, rule) :: rest) s) (hrun : (Generate.enter rule).run s.run = (.ok (), r))
include hreach hs hrun

theorem AtTarget.right_entered : Right k s.events (.entered visit rule r) := by
  refine ⟨⟨⟨rest,?_⟩,(enter_spec hreach hs.follows hrun).written⟩,fun _ => trivial⟩
  rw [hs.plan,List.append_assoc,List.singleton_append]

theorem AtTarget.enter : AtTarget k rest ⟨r,s.events ++ [.entered visit rule r]⟩ := by
  have hentered := enter_spec hreach hs.follows hrun
  refine ⟨hentered.follows,?_,?_⟩
  · rw [pathAfter_entered]
    split
    · rfl
    · rename_i hnone
      rw [hentered.path (by simpa using hnone),hs.path]
  · rw [entries_entered,hs.plan,List.append_assoc,List.singleton_append]

end

theorem enterTarget_meets (hreach : k.Reaches rules) :
    Meets (Recorded (Right k)) (fun s => s.run.generator.source = .null ∧
      AtTarget k ((none, rules) :: rest) s)
      (follower.enter none rules) fun _ => InTarget k rules none rest := by
  refine .enter fun s r hgood hs hrun => ?_
  obtain ⟨hnull,hs⟩ := hs
  refine ⟨hgood.snoc (hs.right_entered hreach hrun),?_⟩
  exact
    { hs.enter hreach hrun with
      source := by rw [sourceAfter_target,(enter_spec hreach hs.follows hrun).source,hnull]
      target := ⟨r,targetAfter_target ..,fun _ => .start k rules r⟩ }

theorem enterRule_meets (hreach : k.Reaches (k.store.ruleFor rules v)) (hname : v.kind ∈ symbolNames)
    (hleaves : k.leaves → ∀ name ∈ symbolNames, k.store.leaves (k.store.ruleFor rules v) name) :
    Meets (Recorded (Right k))
      (fun s => s.run.bindings.get? v.kind = some v.symbol ∧
        InTarget k rules m ((some v, k.store.ruleFor rules v) :: rest) s)
      (follower.enter (some v) (k.store.ruleFor rules v)) fun _ => InRule k rules m v rest := by
  refine .enter fun s r hgood hs hrun => ?_
  obtain ⟨hsymbol,hs⟩ := hs
  have hentered := enter_spec hreach hs.follows hrun
  obtain ⟨entry,htarget,hmodule⟩ := hs.target
  refine ⟨hgood.snoc (hs.toAtTarget.right_entered hreach hrun),?_⟩
  exact
    { hs.toAtTarget.enter hreach hrun with
      source := by rw [sourceAfter_rule,hentered.source,hs.source]
      target := ⟨entry,by simpa using htarget,fun hL =>
        (hmodule hL).congr (hentered.bindings _ (hleaves hL _ (by simp [symbolNames])))⟩
      latest := by rw [entries_entered,List.getLast?_concat]
      symbol := fun hL => (hentered.bindings _ (hleaves hL _ hname)).trans hsymbol }

/-! ## The walk -/

theorem bindOne_meets
    (hfollowed : v.kind = "module" → k.store.followsModules k.features rules = true) :
    Meets (Recorded (Right k)) (InTarget k rules m rest) (liftM (bindOne v.kind v.symbol)) fun _ s =>
      s.run.bindings.get? v.kind = some v.symbol ∧ InTarget k rules (v.next m) rest s := by
  refine .lift fun s _ r hs hrun => ?_
  obtain ⟨hsteady,hsymbol⟩ := bindOne_spec hs.follows hrun
  obtain ⟨entry,htarget,hmodule⟩ := hs.target
  exact ⟨hsymbol,⟨hsteady.follows,hsteady.path.trans hs.path,hs.plan⟩,
    hsteady.source.trans hs.source,entry,htarget,fun hL =>
      (hmodule hL).bound hsymbol (hsteady.bindings _) hfollowed⟩

theorem followRule_meets {vs : List Visit} (hreach : k.Reaches (k.store.ruleFor rules v))
    (hname : v.kind ∈ symbolNames)
    (hleaves : k.leaves → ∀ name ∈ symbolNames, k.store.leaves (k.store.ruleFor rules v) name)
    (hv : v.Within m) :
    Meets (Recorded (Right k))
      (InTarget k rules m (k.store.followed k.features rules (v :: vs) ++ rest))
      (followRule follower (k.store.ruleFor rules v) v)
      fun _ => InTarget k rules (v.next m) (k.store.followed k.features rules vs ++ rest) := by
  have hmodules : v.kind = "module" →
      k.store.followsModules k.features rules =
        k.store.isFollowed k.features (k.store.ruleFor rules v) := by
    intro hkind
    rw [Store.followsModules,Store.ruleFor,hkind]
  rw [Store.followed_cons]
  unfold followRule
  refine Meets.read (P := (· = k.store.isFollowed k.features (k.store.ruleFor rules v)))
    (fun s proceed r hs hrun => ?_) fun proceed hproceed => ?_
  · obtain ⟨hproceed,rfl⟩ := (isFollowed_reads _).eq_of_ok hrun
    refine ⟨rfl,?_⟩
    rw [hproceed,hs.follows.features]
    exact hs.follows.isFollowed_eq hreach
  rw [← hproceed]
  split
  · rename_i htrue
    refine (bindOne_meets fun hkind => ?_).bind fun _ => ?_
    · rw [hmodules hkind,← hproceed,htrue]
    refine (enterRule_meets hreach hname hleaves).bind fun _ => ?_
    refine (writeListed_meets hv.next _ _ _).bind fun _ => ?_
    exact (writeListed_meets hv.next _ _ _).mono (fun _ hs => hs) fun _ _ hs => hs.toInTarget
  · rename_i hfalse
    refine .pure fun s hs => ?_
    obtain ⟨entry,htarget,hmodule⟩ := hs.target
    refine { hs with target := ⟨entry,htarget,fun hL => (hmodule hL).passed fun hkind => ?_⟩ }
    rw [hmodules hkind,← hproceed]
    simpa using hfalse

section
variable (hreach : k.Reaches rules) (hleaves : k.leaves → k.store.LeavesSymbols rules)
include hreach hleaves

theorem visit_meets {vs : List Visit} (hname : v.kind ∈ symbolNames) (hv : v.Within m) :
    Meets (Recorded (Right k))
      (InTarget k rules m (k.store.followed k.features rules (v :: vs) ++ rest)) (do
      let rule ← (given? rules v.kind : Generate (Option Value))
      followRule follower (rule.getD .null) v)
      fun _ => InTarget k rules (v.next m) (k.store.followed k.features rules vs ++ rest) := by
  refine Meets.read (P := fun x => x = k.store.given rules v.kind ∧ k.Reaches (x.getD .null))
    (fun s x r hs hrun => ?_) fun x hx => ?_
  · obtain ⟨hx,hsame,hrule⟩ := given?_spec hreach hs.follows hrun
    exact ⟨hsame,hx,hrule⟩
  · obtain ⟨rfl,hrule⟩ := hx
    exact followRule_meets hrule hname
      (fun hL name hname' => (hleaves hL name hname').2 v.kind hname) hv

omit hleaves in
/-- Before a target is entered, the source is forgotten. -/
theorem openTarget_meets :
    Meets (Recorded (Right k)) (AtTarget k rest) (liftM (openTarget rules)) fun proceed s =>
      proceed = k.store.applies k.features rules ∧ s.run.generator.source = .null ∧
      AtTarget k rest s := by
  refine .lift fun s proceed r hs hrun => ?_
  unfold openTarget at hrun
  obtain ⟨_,r₁,hforget,happlies⟩ := ok_of_bind hrun
  obtain ⟨hproceed,rfl⟩ := (applies_reads rules).eq_of_ok happlies
  cases hforget
  have hfollows :=
    (hs.follows.setGenerator (g := { s.run.generator with source := .null }) rfl rfl).1
  refine ⟨?_,rfl,hfollows,hs.path,hs.plan⟩
  rw [hproceed,hfollows.features]
  exact hfollows.applies_eq hreach

theorem followTarget_meets (n : Nat) :
    Meets (Recorded (Right k)) (AtTarget k (k.store.entering k.features (k.visits n) rules ++ rest))
      (followTarget follower rules n) fun _ => AtTarget k rest := by
  unfold followTarget Store.entering
  refine (openTarget_meets hreach).bind fun proceed => .assume fun hproceed => ?_
  rw [← hproceed]
  split
  · refine (enterTarget_meets hreach).bind fun _ => ?_
    refine Meets.read (P := fun w => w.visits n = k.visits n) (fun s w r hs hrun => ?_)
      fun w hw => ?_
    · cases hrun
      exact ⟨rfl,hs.follows.visits n⟩
    rw [← hw]
    refine Meets.bind (.mono (.forIn (I := fun vs s => ∃ m, Escorted m vs ∧
      InTarget k rules m (k.store.followed k.features rules vs ++ rest) s) (fun v vs => ?_)
        (w.visits n))
      (fun s hs => ⟨none,w.visits_escorted n,hs⟩) fun _ _ hs => hs)
      fun _ => .pure fun s hs => hs.elim fun _ hs => hs.2.toAtTarget
    refine .choose fun m => .assume fun hescorted => ?_
    obtain ⟨hname,hv,hrest⟩ := hescorted
    rw [← bind_assoc]
    exact (visit_meets hreach hleaves hname hv).bind fun _ => .pure fun s hs =>
      ⟨rfl,v.next m,hrest,hs⟩
  · exact .pure fun s hs => hs.2

end

theorem followDocument_meets (hreach : k.Reaches document)
    (hleaves : k.leaves → ∀ target ∈ k.store.targets document, k.store.LeavesSymbols target.2)
    (n : Nat) :
    Meets (Recorded (Right k)) (AtTarget k (k.store.plan k.features (k.visits n) document))
      (followDocument follower document n) fun _ => AtTarget k [] := by
  unfold followDocument Store.plan
  refine Meets.read (P := (· = k.store.targets document))
    (fun s targets r hs hrun => ?_) fun targets htargets => ?_
  · obtain ⟨htargets,hsame⟩ := (targetsOf_reads document).eq_of_ok hrun
    rw [Store.targets,hs.follows.mapping?_eq hreach] at htargets
    exact ⟨hsame,htargets⟩
  rw [← htargets]
  refine Meets.bind (.mono (.forIn (I := fun targets s =>
    (∀ target ∈ targets, k.Reaches target.2 ∧ (k.leaves → k.store.LeavesSymbols target.2)) ∧
      AtTarget k (targets.flatMap fun target => k.store.entering k.features (k.visits n) target.2) s)
    (fun target rest => ?_) targets) (fun s hs => ⟨fun target htarget => ?_,?_⟩) fun _ _ hs => hs)
    fun _ => .pure fun _ hs => hs.2
  · refine .assume fun hall => ?_
    obtain ⟨⟨hreach,hleaves⟩,hrest⟩ := List.forall_mem_cons.mp hall
    refine Meets.bind (.steady (fun s hs => hs.follows) (fun s r hs hr => hs.steady hr)
      (announce_obeys lenient_steady target.1))
      fun _ => ?_
    rw [List.flatMap_cons]
    exact (followTarget_meets hreach hleaves n).bind fun _ => .pure fun s hs => ⟨rfl,hrest,hs⟩
  · rw [htargets] at htarget
    exact ⟨hreach.target target htarget,fun hL => hleaves hL target htarget⟩
  · exact hs

/-- A walk goes along the plan of its document, to the end if it succeeds, and all its events are
right. -/
theorem processRules_recorded {r₀ : Run} (hr : r.Ready) {path : Path} {n : Nat}
    (hopen : (openRules path n).run r = (.ok document, r₀)) : let s := r₀.workspace.store
    let features := r₀.generator.features.getD []
    let plan := s.plan features (r₀.workspace.visits n) document
    let walk := (processRules path n).run { run := r }
    (walk.1 = .ok () → entries walk.2.events = plan) ∧
      Recorded (InForce s r.generator.path plan) walk.2.events ∧
      ((∀ target ∈ s.targets document, s.LeavesSymbols target.2) →
        Recorded (SymbolBound s features) walk.2.events) := by
  intro s features plan walk
  obtain ⟨o,hstore,hfollows,hreach,hgenerator,-⟩ := hr.openRules hopen
  let k : Walk :=
    { o with
      path := r.generator.path
      plan
      leaves := ∀ target ∈ s.targets document, s.LeavesSymbols target.2 }
  have hfeatures : features = o.features := by
    change r₀.generator.features.getD [] = _
    rw [hfollows.features,Option.getD_some]
  have hplan : k.plan = k.store.plan k.features (k.visits n) document := by
    change s.plan features (r₀.workspace.visits n) document =
      o.store.plan o.features (o.visits n) document
    rw [hfeatures,hstore,hfollows.visits]
  have hmeets := followDocument_meets (k := k) hreach (by rw [hstore]; exact id) n { run := r₀ } .nil
    ⟨hfollows,congrArg (·.path) hgenerator,hplan⟩
  rw [show walk = _ from processRules_run hopen]
  refine ⟨fun hok => ?_,fun before e after he => ?_,fun hleaves before e after he => ?_⟩
  · have h := (hmeets.2 _ hok).plan
    rw [List.append_nil] at h
    exact h.symm
  · have h := (hmeets.1 before e after he).1
    rw [hstore] at h
    exact h
  · have h := (hmeets.1 before e after he).2 hleaves
    rw [hstore,← hfeatures] at h
    exact h

end Watched

end InterfaceKit
