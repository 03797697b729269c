import InterfaceKit.Proofs.Generator.Confined

/-!
# Generators beside each other

A process makes generators and uses them. Each generator has bindings of its own, but a text that is
written out without bindings of its own sees those of one mapping that all generators share, and
generators that are made without bindings share theirs. What other generators have done shows in a
text exactly where a name is not bound by the generator itself.
-/
namespace InterfaceKit
open Data Model Files Generate

/-- Bindings with each name once. -/
structure Context where
  entries : Table Value
  nodup : entries.names.Nodup

/-- What a caller may hand over: bindings that are new, or the mapping of a generator. -/
inductive Given where
  | fresh (c : Context)
  | of (h : Nat)

def Given.mapping (generators : List Generator) : Option Given → Act (Option Value)
  | none => return none
  | some (.fresh c) => do return some (← Act.newMap c.entries)
  | some (.of h) => return generators[h]?.map (·.bindings)

inductive Plan where
  | plain (folders : List String) (force : Bool)
  | rules (folders : List String) (destination : Value) (features : List Value) (force : Bool)

/-- The mapping that all generators of a kind share which are handed none. -/
def Plan.common (s : SharedBindings) : Plan → Value
  | .plain _ _ => s.generators
  | .rules _ _ _ _ => s.ruleGenerators

def Plan.build (bindings : Value) : Plan → Act Generator
  | .plain folders force => return { folders, bindings, force }
  | .rules folders destination features force =>
    Act.ruleGenerator folders destination bindings features force

def Plan.make (plan : Plan) (generators : List Generator) (given : Option Given) :
    Act Generator := do
  let mapping ← Given.mapping generators given
  plan.build (mapping.getD (plan.common (← get).shared))

inductive Deed where
  | apply (template : Value)
  | write (target template : Value) (preserve force : Bool)
  | setPath (path : Value)
  | processRules (path : Path) (n : Nat)

/-- Writes out a text with the mapping that is handed over, if there is one. -/
def Generate.applyTo (template : Value) : Option Value → Generate String
  | some mapping => applyWith mapping template
  | none => apply template

def Deed.run (given : Option Value) : Deed → Generate Unit
  | .apply template => do
    let _ ← Generate.applyTo template given
    return
  | .write target template preserve force =>
    Generate.write { target, template, bindings := given, preserve, force }
  | .setPath path => Generate.setPath path
  | .processRules path n => Generate.processRules path n

def Deed.perform (deed : Deed) (generators : List Generator) (given : Option Given) :
    Generate Unit := do
  let mapping ← Given.mapping generators given
  deed.run mapping

inductive Call where
  | make (plan : Plan) (given : Option Given)
  | use (h : Nat) (deed : Deed) (given : Option Given)

def Call.user? : Call → Option Nat
  | .make _ _ => none
  | .use h _ _ => some h

def Call.given? : Call → Option Given
  | .make _ given => given
  | .use _ _ given => given

/-- The generators that have been made, and what they work on. -/
structure Process where
  generators : List Generator
  workspace : Workspace

namespace Process

def start (w : Workspace) : Process := ⟨[],(Act.shareBindings.run w).2⟩

/-- One call. What fails leaves its changes. -/
def step (p : Process) : Call → Process
  | .make plan given =>
    match (plan.make p.generators given).run p.workspace with
    | (.ok g, workspace) => { generators := p.generators ++ [g], workspace }
    | (.error _, workspace) => { p with workspace }
  | .use h deed given =>
    match p.generators[h]? with
    | some g =>
      let r := (deed.perform p.generators given).run ⟨g,p.workspace⟩
      { generators := p.generators.set h r.2.generator, workspace := r.2.workspace }
    | none => p

def run (p : Process) (calls : List Call) : Process := calls.foldl step p

def own (p : Process) (g : Generator) : Table Value := p.workspace.store.bindings g.bindings

def texts (p : Process) : Table Value := p.workspace.store.bindings p.workspace.shared.texts

def seen (p : Process) (g : Generator) : Table Value := p.texts.setAll (p.own g)

/-- No other generator has the bindings of this one, nor will one that is handed none. -/
structure Alone (p : Process) (k : Nat) (g : Generator) : Prop where
  generators : g.bindings ≠ p.workspace.shared.generators
  ruleGenerators : g.bindings ≠ p.workspace.shared.ruleGenerators
  others : ∀ h g', h ≠ k → p.generators[h]? = some g' → g'.bindings ≠ g.bindings

end Process

/-! ## What one call changes -/

section
variable {t : Nat} {w w' : Workspace} {p p' p'' : Process} {e : Call} {v : Value}

/-- A mapping that a generator may have as its own. -/
def Workspace.Serves (t : Nat) (w : Workspace) (v : Value) : Prop :=
  ∃ i, v = .ref i ∧ i ≠ t ∧ w.store.HasMapping i

theorem Workspace.Serves.fills (h : w.Serves t v) {C : Nat → Prop}
    (hfills : w.store.Fills C w'.store) :
    w'.Serves t v := by
  obtain ⟨i,hi,hne,hmapping⟩ := h
  exact ⟨i,hi,hne,(hfills.maps i hmapping).1⟩

namespace Process

/-- The texts share one mapping, which is none of those that generators have. -/
structure Sound (t : Nat) (p : Process) : Prop where
  shared : p.workspace.shared.texts = .ref t
  texts : p.workspace.store.HasMapping t
  generators : p.workspace.Serves t p.workspace.shared.generators
  ruleGenerators : p.workspace.Serves t p.workspace.shared.ruleGenerators
  each : ∀ g ∈ p.generators, p.workspace.Serves t g.bindings

theorem Sound.fills (hp : p.Sound t) (hshared : w.shared = p.workspace.shared) {C : Nat → Prop}
    (hfills : p.workspace.store.Fills C w.store) {gs : List Generator}
    (hgs : ∀ g ∈ gs, w.Serves t g.bindings) :
    Sound t ⟨gs,w⟩ where
  shared := by
    dsimp only
    rw [hshared,hp.shared]
  texts := (hfills.maps t hp.texts).1
  generators := by
    dsimp only
    rw [hshared]
    exact hp.generators.fills hfills
  ruleGenerators := by
    dsimp only
    rw [hshared]
    exact hp.ruleGenerators.fills hfills
  each := hgs

theorem workspace_start (w : Workspace) : ∃ s₁ s₂ s₃ : Store, s₁ = (w.store.alloc (.map [])).2 ∧
    s₂ = (s₁.alloc (.map [])).2 ∧ s₃ = (s₂.alloc (.map [])).2 ∧ (start w).workspace.store = s₃ ∧
    (start w).workspace.shared =
      { texts := .ref w.store.cells.size
        generators := .ref s₁.cells.size
        ruleGenerators := .ref s₂.cells.size } :=
  ⟨_,_,_,rfl,rfl,rfl,rfl,rfl⟩

theorem sound_start (w : Workspace) : (start w).Sound w.store.cells.size := by
  obtain ⟨s₁,s₂,s₃,h₁,h₂,h₃,hstore,hshared⟩ := workspace_start w
  have hmapping : ∀ {s s' : Store}, s' = (s.alloc (.map [])).2 → s'.HasMapping s.cells.size := by
    rintro s _ rfl
    exact .of_alloc (t := []) List.nodup_nil s
  have hgrow : ∀ {s s' : Store}, s' = (s.alloc (.map [])).2 → s.Fills (fun _ => False) s' := by
    rintro s _ rfl
    exact .grow fun _ _ hi => Store.get?_alloc hi _
  have hsize₁ : s₁.cells.size = w.store.cells.size + 1 := by rw [h₁,Store.size_alloc]
  have hsize₂ : s₂.cells.size = s₁.cells.size + 1 := by rw [h₂,Store.size_alloc]
  refine ⟨by rw [hshared],?_,?_,?_,fun _ hg => absurd hg List.not_mem_nil⟩
  · rw [hstore]
    exact (((hgrow h₂).trans (hgrow h₃)).maps _ (hmapping h₁)).1
  · rw [hshared,Workspace.Serves,hstore]
    exact ⟨_,rfl,by omega,((hgrow h₃).maps _ (hmapping h₂)).1⟩
  · rw [hshared,Workspace.Serves,hstore]
    exact ⟨_,rfl,by omega,hmapping h₃⟩

/-- The mappings that a call may work with: those that are shared, those of the generators that it
names, and new ones. -/
inductive Reaches (p : Process) (e : Call) : Value → Prop
  | generators : p.Reaches e p.workspace.shared.generators
  | ruleGenerators : p.Reaches e p.workspace.shared.ruleGenerators
  | held {h : Nat} {g : Generator} (hh : e.user? = some h ∨ e.given? = some (.of h))
      (hg : p.generators[h]? = some g) : p.Reaches e g.bindings
  | fresh {i : Nat} (hi : p.workspace.store.get? i = none) : p.Reaches e (.ref i)

/-- What a call changes. A name that is new in the bindings of texts is bound by the generator that
is used. -/
structure Turn (t : Nat) (e : Call) (p p' : Process) : Prop where
  sound : p'.Sound t
  shared : p'.workspace.shared = p.workspace.shared
  fills : p.workspace.store.Fills (fun i => i = t ∨ p.Reaches e (.ref i)) p'.workspace.store
  kept : ∀ h g, p.generators[h]? = some g →
    ∃ g', p'.generators[h]? = some g' ∧ g'.bindings = g.bindings ∧ (e.user? ≠ some h → g' = g)
  made : ∀ (h : Nat) (g' : Generator), p'.generators[h]? = some g' →
    p.Reaches e g'.bindings ∨ ∃ g, p.generators[h]? = some g ∧ g'.bindings = g.bindings
  told : ∀ n ∈ p'.workspace.store.namesAt t, n ∈ p.workspace.store.namesAt t ∨
    ∃ h g', e.user? = some h ∧ p'.generators[h]? = some g' ∧ n ∈ (p'.own g').names

namespace Turn

theorem quiet (hp : p.Sound t) (hshared : w.shared = p.workspace.shared) {j : Nat}
    (hj : p.Reaches e (.ref j)) (hne : j ≠ t) (hfills : p.workspace.store.Fills (· = j) w.store) :
    p.Turn t e ⟨p.generators,w⟩ where
  sound := hp.fills hshared hfills fun g hg => (hp.each g hg).fills hfills
  shared := hshared
  fills := hfills.mono fun i hi => .inr (hi ▸ hj)
  kept _ g hg := ⟨g,hg,rfl,fun _ => rfl⟩
  made _ g hg := .inr ⟨g,hg,rfl⟩
  told n hn := by
    rw [Store.namesAt,hfills.bindings_eq hp.texts (Ne.symm hne)] at hn
    exact .inl hn

theorem push (h : p.Turn t e p') {g : Generator} (hreach : p.Reaches e g.bindings)
    (hserves : p'.workspace.Serves t g.bindings) :
    p.Turn t e ⟨p'.generators ++ [g],p'.workspace⟩ where
  sound :=
    { h.sound with
      each := fun g' hg' => by
        rcases List.mem_append.mp hg' with hold | hnew
        · exact h.sound.each g' hold
        · rwa [List.mem_singleton.mp hnew] }
  shared := h.shared
  fills := h.fills
  kept k g₀ hg₀ := by
    obtain ⟨g',hg',hrest⟩ := h.kept k g₀ hg₀
    exact ⟨g',(List.getElem?_append_left (List.getElem?_eq_some_iff.mp hg').1).trans hg',hrest⟩
  made k g' hg' := by
    dsimp only at hg'
    rw [List.getElem?_append] at hg'
    split at hg'
    · exact h.made k g' hg'
    · rw [List.mem_singleton.mp (List.mem_of_getElem? hg')]
      exact .inl hreach
  told n hn := by
    rcases h.told n hn with hold | ⟨k,g',hk,hg',hn⟩
    · exact .inl hold
    · exact .inr ⟨k,g',hk,(List.getElem?_append_left (List.getElem?_eq_some_iff.mp hg').1).trans
        hg',hn⟩

theorem used (hp : p.Sound t) {h : Nat} {g : Generator} (hg : p.generators[h]? = some g) {r : Run}
    (hbindings : r.generator.bindings = g.bindings)
    (hshared : r.workspace.shared = p.workspace.shared) (huser : e.user? = some h)
    (hfills : p.workspace.store.Fills (fun i => i = t ∨ p.Reaches e (.ref i)) r.workspace.store)
    (htold : ∀ n ∈ r.workspace.store.namesAt t, n ∈ p.workspace.store.namesAt t ∨
      n ∈ (r.workspace.store.bindings g.bindings).names) :
    p.Turn t e ⟨p.generators.set h r.generator,r.workspace⟩ := by
  have hlt : h < p.generators.length := (List.getElem?_eq_some_iff.mp hg).1
  have hself : (p.generators.set h r.generator)[h]? = some r.generator := List.getElem?_set_self hlt
  have hother : ∀ k, h ≠ k → (p.generators.set h r.generator)[k]? = p.generators[k]? :=
    fun k hk => List.getElem?_set_ne hk
  refine ⟨hp.fills hshared hfills fun g' hg' => ?_,hshared,hfills,fun k g₀ hg₀ => ?_,
    fun k g' hg' => ?_,fun n hn => ?_⟩
  · rcases List.mem_or_eq_of_mem_set hg' with hold | rfl
    · exact (hp.each g' hold).fills hfills
    · rw [hbindings]
      exact (hp.each g (List.mem_of_getElem? hg)).fills hfills
  · by_cases hk : h = k
    · subst hk
      obtain rfl := Option.some.inj (hg.symm.trans hg₀)
      exact ⟨r.generator,hself,hbindings,fun hne => absurd huser hne⟩
    · exact ⟨g₀,(hother k hk).trans hg₀,rfl,fun _ => rfl⟩
  · by_cases hk : h = k
    · subst hk
      obtain rfl := Option.some.inj (hself.symm.trans hg')
      exact .inr ⟨g,hg,hbindings⟩
    · exact .inr ⟨g',(hother k hk).symm.trans hg',rfl⟩
  · rcases htold n hn with hold | hown
    · exact .inl hold
    · refine .inr ⟨h,r.generator,huser,hself,?_⟩
      rw [own,hbindings]
      exact hown

end Turn

theorem mapping_run (hp : p.Sound t) (given : Option Given) : ∃ mapping w,
    (Given.mapping p.generators given).run p.workspace = (.ok mapping, w) ∧
      w.shared = p.workspace.shared ∧
      (∀ i c, p.workspace.store.get? i = some c → w.store.get? i = some c) ∧
      ∀ v, mapping = some v → w.Serves t v ∧ ∀ e : Call, e.given? = given → p.Reaches e v := by
  match given with
  | none => exact ⟨none,p.workspace,rfl,rfl,fun _ _ hi => hi,nofun⟩
  | some (.of h) =>
    refine ⟨_,p.workspace,rfl,rfl,fun _ _ hi => hi,fun v hv => ?_⟩
    obtain ⟨g,hg,rfl⟩ := Option.map_eq_some_iff.mp hv
    exact ⟨hp.each g (List.mem_of_getElem? hg),fun e he => .held (.inr he) hg⟩
  | some (.fresh c) =>
    refine ⟨_,_,rfl,rfl,fun _ _ hi => Store.get?_alloc hi _,fun v hv => ?_⟩
    obtain rfl := Option.some.inj hv
    have hfree : p.workspace.store.get? p.workspace.store.cells.size = none := by simp [Store.get?]
    have hne : p.workspace.store.cells.size ≠ t := by
      intro heq
      obtain ⟨es,hes,-⟩ := hp.texts
      rw [← heq,hfree] at hes
      cases hes
    exact ⟨⟨_,rfl,hne,.of_alloc c.nodup _⟩,fun _ _ => .fresh hfree⟩

end Process

theorem Plan.build_fills (plan : Plan) (j : Nat) : Act.Fills j (plan.build (.ref j)) := by
  match plan with
  | .plain _ _ => exact .pure _
  | .rules _ _ _ _ =>
    refine (Act.Fills.alloc _).bind fun _ => (Act.Fills.setItem _ _).bind fun _ => ?_
    exact (Act.Fills.setItem _ _).bind fun _ => (Act.Fills.setItem _ _).bind fun _ => .pure _

theorem Plan.bindings_of_build {plan : Plan} {g : Generator}
    (h : (plan.build v).run w = (.ok g, w')) :
    g.bindings = v := by
  match plan with
  | .plain _ _ =>
    cases h
    rfl
  | .rules _ _ _ _ =>
    obtain ⟨_,_,_,h₁⟩ := ok_of_bind h
    obtain ⟨_,_,_,h₂⟩ := ok_of_bind h₁
    obtain ⟨_,_,_,h₃⟩ := ok_of_bind h₂
    obtain ⟨_,_,_,h₄⟩ := ok_of_bind h₃
    cases h₄
    rfl

/-- A generator that is handed no mapping, or one that may be changed, stays within bounds. -/
theorem Deed.run_confined {a : Desk} {given : Option Value}
    (hgiven : given = none ∨ given = some (.ref a.given)) (deed : Deed) :
    Confined a (deed.run given) := by
  match deed with
  | .apply template =>
    have happly : Confined a (applyTo template given) := by
      rcases hgiven with rfl | rfl
      · exact apply_confined template
      · exact applyWith_confined (.inr (.inr rfl)) template
    exact happly.bind fun _ => .pure _
  | .write _ _ _ _ => exact write_confined hgiven
  | .setPath path => exact setPath_confined path
  | .processRules path n => exact processRules_confined path n

namespace Process

theorem make_turn (hp : p.Sound t) (plan : Plan) (given : Option Given) :
    p.Turn t (.make plan given) (p.step (.make plan given)) := by
  obtain ⟨mapping,w,hrun,hshared,hcells,hmapping⟩ := mapping_run hp given
  have hgrow : ∀ C, p.workspace.store.Fills C w.store := fun _ => .grow hcells
  obtain ⟨⟨j,hj,hne,hhas⟩,hreach⟩ : w.Serves t (mapping.getD (plan.common w.shared)) ∧
      p.Reaches (.make plan given) (mapping.getD (plan.common w.shared)) := by
    rw [hshared]
    cases mapping with
    | some v => exact ⟨(hmapping v rfl).1,(hmapping v rfl).2 _ rfl⟩
    | none =>
      match plan with
      | .plain _ _ => exact ⟨hp.generators.fills (hgrow (· = t)),.generators⟩
      | .rules _ _ _ _ => exact ⟨hp.ruleGenerators.fills (hgrow (· = t)),.ruleGenerators⟩
  rw [hj] at hreach
  have hmake : (plan.make p.generators given).run p.workspace = (plan.build (.ref j)).run w := by
    unfold Plan.make
    rw [run_bind,hrun,← hj]
    rfl
  obtain ⟨hshared',hfills⟩ := plan.build_fills j w hhas
  rw [step,hmake]
  rcases hbuild : (plan.build (.ref j)).run w with ⟨a,w'⟩
  rw [hbuild] at hshared' hfills
  have hquiet : p.Turn t (.make plan given) ⟨p.generators,w'⟩ :=
    .quiet hp (hshared'.trans hshared) hreach hne ((hgrow _).trans hfills)
  cases a with
  | error _ => exact hquiet
  | ok g =>
    have hg : g.bindings = .ref j := Plan.bindings_of_build hbuild
    refine hquiet.push (hg ▸ hreach) ?_
    rw [hg]
    exact ⟨j,rfl,hne,(hfills.maps j hhas).1⟩

theorem use_turn (hp : p.Sound t) (h : Nat) (deed : Deed) (given : Option Given) :
    p.Turn t (.use h deed given) (p.step (.use h deed given)) := by
  rw [step]
  rcases hg : p.generators[h]? with _ | g
  · exact
      { sound := hp
        shared := rfl
        fills := .refl
        kept := fun _ g hg => ⟨g,hg,rfl,fun _ => rfl⟩
        made := fun _ g hg => .inr ⟨g,hg,rfl⟩
        told := fun _ hn => .inl hn }
  · obtain ⟨mapping,w,hrun,hshared,hcells,hmapping⟩ := mapping_run hp given
    have hgrow : ∀ C, p.workspace.store.Fills C w.store := fun _ => .grow hcells
    have hown : p.Reaches (.use h deed given) g.bindings := .held (.inl rfl) hg
    obtain ⟨i,hi,hit,hihas⟩ := (hp.each g (List.mem_of_getElem? hg)).fills (hgrow (· = t))
    rw [hi] at hown
    obtain ⟨j,hj,hjt,hjhas,hjreach⟩ : ∃ j, (mapping = none ∨ mapping = some (.ref j)) ∧ j ≠ t ∧
        w.store.HasMapping j ∧ p.Reaches (.use h deed given) (.ref j) := by
      cases mapping with
      | none => exact ⟨i,.inl rfl,hit,hihas,hown⟩
      | some v =>
        obtain ⟨⟨j,hj,hjt,hjhas⟩,hreach⟩ := hmapping v rfl
        exact ⟨j,.inr (congrArg some hj),hjt,hjhas,hj ▸ hreach _ rfl⟩
    let a : Desk := { own := i, texts := t, given := j, own_ne := hit, given_ne := hjt }
    have hseated : Run.Seated a ⟨g,w⟩ :=
      { bindings := hi
        shared := by
          dsimp only
          rw [hshared,hp.shared]
        own := hihas
        texts := ((hgrow (· = t)).maps t hp.texts).1
        given := hjhas }
    have hperform :
        (deed.perform p.generators given).run ⟨g,p.workspace⟩ = (deed.run mapping).run ⟨g,w⟩ := by
      unfold Deed.perform
      rw [run_bind,run_liftM,hrun]
    have hconfined := deed.run_confined (a := a) hj ⟨g,w⟩ hseated
    have hfills := (hgrow a.Owns).trans hconfined.fills
    have hsame : w.store.namesAt t = p.workspace.store.namesAt t := by
      rw [Store.namesAt,Store.namesAt,(hgrow fun _ => False).bindings_eq hp.texts id]
    dsimp only
    rw [hperform]
    refine .used hp hg hconfined.bindings (hconfined.shared.trans hshared)
      rfl (hfills.mono fun k hk => ?_)
      fun n hn => ?_
    · rcases hk with rfl | rfl | rfl
      · exact .inr hown
      · exact .inl rfl
      · exact .inr hjreach
    · rw [hi,← hsame]
      exact hconfined.told n hn

theorem step_turn (hp : p.Sound t) (e : Call) : p.Turn t e (p.step e) := by
  cases e with
  | make plan given => exact make_turn hp plan given
  | use h deed given => exact use_turn hp h deed given

/-! ## What many calls change -/

variable {A : Nat → Prop} {k : Nat} {g : Generator} {calls : List Call}

/-- What calls change of which the generators in `A` are the users. -/
structure Passes (A : Nat → Prop) (t : Nat) (p p' : Process) : Prop where
  sound : p'.Sound t
  kept : ∀ h g, p.generators[h]? = some g →
    ∃ g', p'.generators[h]? = some g' ∧ g'.bindings = g.bindings ∧ (¬ A h → g' = g)
  fills : p.workspace.store.Fills (fun _ => True) p'.workspace.store
  told : ∀ n ∈ p'.workspace.store.namesAt t, n ∈ p.workspace.store.namesAt t ∨
    ∃ h g', A h ∧ p'.generators[h]? = some g' ∧ n ∈ (p'.own g').names

namespace Passes

protected theorem refl (hp : p.Sound t) : p.Passes A t p :=
  ⟨hp,fun _ g hg => ⟨g,hg,rfl,fun _ => rfl⟩,.refl,fun _ hn => .inl hn⟩

theorem of_turn (h : p.Turn t e p') (hA : ∀ h, e.user? = some h → A h) : p.Passes A t p' where
  sound := h.sound
  kept k g hg := by
    obtain ⟨g',hg',hbindings,hsame⟩ := h.kept k g hg
    exact ⟨g',hg',hbindings,fun hk => hsame fun huser => hk (hA k huser)⟩
  fills := h.fills.mono fun _ _ => trivial
  told n hn := by
    rcases h.told n hn with hold | ⟨k,g',hk,hg',hn⟩
    · exact .inl hold
    · exact .inr ⟨k,g',hA k hk,hg',hn⟩

protected theorem trans (h : p.Passes A t p') (h' : p'.Passes A t p'') : p.Passes A t p'' where
  sound := h'.sound
  kept k g hg := by
    obtain ⟨g',hg',hbindings,hsame⟩ := h.kept k g hg
    obtain ⟨g'',hg'',hbindings',hsame'⟩ := h'.kept k g' hg'
    exact ⟨g'',hg'',hbindings'.trans hbindings,fun hk => (hsame' hk).trans (hsame hk)⟩
  fills := h.fills.trans h'.fills
  told n hn := by
    rcases h'.told n hn with hold | hnew
    · rcases h.told n hold with hold | ⟨k,g',hk,hg',hn⟩
      · exact .inl hold
      · obtain ⟨g'',hg'',hbindings,-⟩ := h'.kept k g' hg'
        obtain ⟨i,hi,-,hhas⟩ := h.sound.each g' (List.mem_of_getElem? hg')
        refine .inr ⟨k,g'',hk,hg'',?_⟩
        rw [own,hbindings,hi]
        rw [own,hi] at hn
        exact (h'.fills.maps i hhas).2 hn
    · exact .inr hnew

end Passes

theorem run_passes (hp : p.Sound t) (hcalls : ∀ e ∈ calls, ∀ h, e.user? = some h → A h) :
    p.Passes A t (p.run calls) := by
  induction calls generalizing p with
  | nil => exact .refl hp
  | cons e calls ih =>
    obtain ⟨he,hcalls⟩ := List.forall_mem_cons.mp hcalls
    have hstep := step_turn hp e
    exact (Passes.of_turn hstep he).trans (ih hstep.sound hcalls)

theorem sound_run (w : Workspace) (calls : List Call) :
    ((start w).run calls).Sound w.store.cells.size :=
  (run_passes (A := fun _ => True) (sound_start w) fun _ _ _ _ => trivial).sound

/-- Calls that do not name a generator do not reach its bindings. -/
theorem Alone.not_reaches (halone : p.Alone k g) (hp : p.Sound t) (hg : p.generators[k]? = some g)
    (huser : e.user? ≠ some k) (hgiven : e.given? ≠ some (.of k)) : ¬ p.Reaches e g.bindings := by
  intro hreach
  generalize hv : g.bindings = v at hreach
  cases hreach with
  | generators => exact halone.generators hv
  | ruleGenerators => exact halone.ruleGenerators hv
  | @held h g' hh hg' =>
    have hne : h ≠ k := by
      rintro rfl
      exact hh.elim huser hgiven
    exact halone.others h g' hne hg' hv.symm
  | @fresh i hi =>
    obtain ⟨_,hj,-,es,hes,-⟩ := hp.each g (List.mem_of_getElem? hg)
    obtain rfl := Value.ref.inj (hv.symm.trans hj)
    rw [hi] at hes
    cases hes

theorem Turn.alone (h : p.Turn t e p') (hp : p.Sound t) (hg : p.generators[k]? = some g)
    (halone : p.Alone k g) (huser : e.user? ≠ some k) (hgiven : e.given? ≠ some (.of k)) :
    p'.Alone k g ∧ p'.own g = p.own g := by
  have hnot := halone.not_reaches hp hg huser hgiven
  refine ⟨⟨?_,?_,fun h' g' hne hg' hsame => ?_⟩,?_⟩
  · rw [h.shared]
    exact halone.generators
  · rw [h.shared]
    exact halone.ruleGenerators
  · rcases h.made h' g' hg' with hreach | ⟨g₀,hg₀,hbindings⟩
    · exact hnot (hsame ▸ hreach)
    · exact halone.others h' g₀ hne hg₀ (hbindings.symm.trans hsame)
  · obtain ⟨i,hi,hne,hhas⟩ := hp.each g (List.mem_of_getElem? hg)
    rw [own,own,hi]
    refine h.fills.bindings_eq hhas fun hi' => ?_
    rcases hi' with rfl | hreach
    · exact hne rfl
    · exact hnot (hi ▸ hreach)

theorem run_alone (hp : p.Sound t) (hg : p.generators[k]? = some g) (halone : p.Alone k g)
    (hcalls : ∀ e ∈ calls, e.user? ≠ some k ∧ e.given? ≠ some (.of k)) :
    (p.run calls).own g = p.own g := by
  induction calls generalizing p with
  | nil => rfl
  | cons e calls ih =>
    obtain ⟨⟨huser,hgiven⟩,hcalls⟩ := List.forall_mem_cons.mp hcalls
    have hstep := step_turn hp e
    obtain ⟨halone',hown⟩ := hstep.alone hp hg halone huser hgiven
    obtain ⟨g',hg',-,hsame⟩ := hstep.kept k g hg
    obtain rfl := hsame huser
    exact (ih hstep.sound hg' halone' hcalls).trans hown

/-! ## Writing out a text -/

section
variable (hp : p.Sound t) (hg : p.generators[k]? = some g)
include hp hg

theorem nodup_own : (p.own g).names.Nodup := by
  obtain ⟨i,hi,-,es,hes,hnodup,-⟩ := hp.each g (List.mem_of_getElem? hg)
  rwa [own,hi,Store.bindings_of_get? hes]

theorem get?_seen (n : String) : (p.seen g).get? n = ((p.own g).get? n).or (p.texts.get? n) :=
  Table.get?_setAll_eq_or (nodup_own hp hg) _ _

theorem apply_run (text : String) : ∃ s, (Generate.apply (.text text)).run ⟨g,p.workspace⟩ =
      (Generate.writeOut (.text text (p.seen g))).run ⟨g,{ p.workspace with store := s }⟩ ∧
    s.bindings p.workspace.shared.texts = p.seen g := by
  obtain ⟨i,hi,-,hhas⟩ := hp.each g (List.mem_of_getElem? hg)
  obtain ⟨s,hrun,-,hbindings⟩ := Act.update_takes hp.texts hhas
  have hseen : s.bindings p.workspace.shared.texts = p.seen g := by
    rw [hp.shared,hbindings,seen,texts,own,hp.shared,hi]
  refine ⟨s,?_,hseen⟩
  have hscript : (Generate.textScript p.workspace.shared.texts (.text text)).run ⟨g,p.workspace⟩ =
      (.ok (.text text (p.seen g)), ⟨g,{ p.workspace with store := s }⟩) := by
    rw [← hp.shared,← hi] at hrun
    unfold Generate.textScript
    rw [run_generator_bind,run_bind,run_liftM,hrun,← hseen]
    rfl
  have happly : (Generate.apply (.text text)).run ⟨g,p.workspace⟩ =
      (Generate.applyWith p.workspace.shared.texts (.text text)).run ⟨g,p.workspace⟩ := rfl
  rw [happly,Generate.applyWith,run_bind,hscript]

end

/-- Whatever other generators have done since, a generator is as it was, and writes out a text with
its own bindings and, for the names that it does not bind, with those that all texts share. -/
theorem apply_beside_others (w : Workspace) (history calls : List Call) (k : Nat) (g : Generator)
    (hg : ((start w).run history).generators[k]? = some g) (hcalls : ∀ e ∈ calls, e.user? ≠ some k) :
    let p := (start w).run history
    let p' := p.run calls
    p'.generators[k]? = some g ∧ (p.own g).names ⊆ (p'.own g).names ∧
    (∀ text, ∃ s,
      (Generate.apply (.text text)).run ⟨g,p'.workspace⟩ =
        (Generate.writeOut (.text text (p'.seen g))).run ⟨g,{ p'.workspace with store := s }⟩ ∧
      s.bindings p'.workspace.shared.texts = p'.seen g) ∧
    (∀ n, (p'.seen g).get? n = ((p'.own g).get? n).or (p'.texts.get? n)) ∧
    ((∀ n, (p'.seen g).get? n = (p'.own g).get? n) ↔ p'.texts.names ⊆ (p'.own g).names) ∧
    (∀ n ∈ p'.texts.names, n ∈ p.texts.names ∨
      ∃ h g', h ≠ k ∧ p'.generators[h]? = some g' ∧ n ∈ (p'.own g').names) ∧
    (p.Alone k g → (∀ e ∈ calls, e.given? ≠ some (.of k)) → p'.own g = p.own g ∧
      ∀ n, (p'.seen g).get? n = (p.seen g).get? n ↔ n ∈ (p.own g).names ∨
        p'.texts.get? n = p.texts.get? n) := by
  intro p p'
  have hp : p.Sound w.store.cells.size := sound_run w history
  have hpasses : p.Passes (· ≠ k) w.store.cells.size p' :=
    run_passes hp fun e he h huser hk => hcalls e he (hk ▸ huser)
  obtain ⟨g',hg',-,hsame⟩ := hpasses.kept k g hg
  obtain rfl := hsame (not_not.mpr rfl)
  have hseen := get?_seen hpasses.sound hg'
  have hnames : ∀ {q : Process}, q.Sound w.store.cells.size →
      q.texts.names = q.workspace.store.namesAt w.store.cells.size := fun hq => by
    rw [texts,hq.shared,Store.namesAt]
  have hkept : (p.own g').names ⊆ (p'.own g').names := by
    obtain ⟨i,hi,-,hhas⟩ := hp.each g' (List.mem_of_getElem? hg)
    rw [own,own,hi]
    exact (hpasses.fills.maps i hhas).2
  refine ⟨hg',hkept,apply_run hpasses.sound hg',hseen,?_,fun n hn => ?_,fun halone hgiven => ?_⟩
  · constructor
    · intro hall n hn
      by_contra hunbound
      have hn' := hall n
      rw [hseen,Table.get?_eq_none_iff.mpr hunbound,Option.none_or] at hn'
      exact Table.get?_eq_none_iff.mp hn' hn
    · intro hbound n
      rw [hseen]
      cases hn : (p'.own g').get? n with
      | some _ => rfl
      | none =>
          rw [Option.none_or]
          exact Table.get?_eq_none_iff.mpr fun hn' => Table.get?_eq_none_iff.mp hn (hbound hn')
  · rw [hnames hpasses.sound] at hn
    rw [hnames hp]
    exact hpasses.told n hn
  · have hown : p'.own g' = p.own g' := run_alone hp hg halone fun e he => ⟨hcalls e he,hgiven e he⟩
    refine ⟨hown,fun n => ?_⟩
    rw [hseen,get?_seen hp hg,hown]
    have hbound : n ∈ (p.own g').names ↔ (p.own g').get? n ≠ none := by
      rw [ne_eq,Table.get?_eq_none_iff,not_not]
    rw [hbound]
    cases (p.own g').get? n with
    | none => simp
    | some _ => simp

/-- A generator that has its bindings for itself writes out what another one has been given, once
that one has written out any text. -/
theorem apply_shows_others :
    let a : Context := ⟨[("a", .text "1")],by decide⟩
    let b : Context := ⟨[("b", .text "2")],by decide⟩
    let history : List Call :=
      [.make (.plain [] false) (some (.fresh a)),.make (.plain [] false) (some (.fresh b))]
    let calls : List Call := [.use 0 (.apply (.text "x")) none]
    let g : Generator := { folders := [], bindings := .ref 4 }
    let p := (start {}).run history
    let p' := p.run calls
    let shown (q : Process) :=
      ((Generate.apply (.text "[\x7b\x7ba\x7d\x7d]")).run ⟨g,q.workspace⟩).1.toOption
    p.generators[1]? = some g ∧ (∀ e ∈ calls, e.user? ≠ some 1) ∧ p.Alone 1 g ∧ p'.own g = p.own g ∧
      ¬ (∀ n, (p'.seen g).get? n = (p'.own g).get? n) ∧ shown p = some "[]" ∧
        shown p' = some "[1]" := by
  intro a b history calls g p p' shown
  have hgenerators : p.generators = [{ folders := [], bindings := .ref 3 },g] := rfl
  have hg : p.generators[1]? = some g := rfl
  have hcalls : ∀ e ∈ calls, e.user? ≠ some 1 := by
    intro e he
    rw [List.mem_singleton.mp he]
    decide
  have halone : p.Alone 1 g := by
    refine ⟨by decide +kernel,by decide +kernel,fun h g' hne hg' => ?_⟩
    rw [hgenerators] at hg'
    match h with
    | 0 =>
        obtain rfl := Option.some.inj hg'
        decide
    | 1 => exact absurd rfl hne
    | h + 2 => cases hg'
  obtain ⟨-,-,-,-,hexact,-,hown⟩ := apply_beside_others {} history calls 1 g hg hcalls
  have hleak : ¬ p'.texts.names ⊆ (p'.own g).names := by decide +kernel
  refine ⟨hg,hcalls,halone,(hown halone fun e he => ?_).1,fun hall => hleak (hexact.mp hall),?_,?_⟩
  · rw [List.mem_singleton.mp he]
    exact nofun
  · decide +kernel
  · decide +kernel

end Process

end
end InterfaceKit
