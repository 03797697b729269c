import InterfaceKit.Generator.Rules

/-!
# What operations keep to

Much is said of operations in one way: begun in a state that is fit for it, an operation leaves a
state that stands in a relation to the one before, whether it succeeds or fails. A `Conduct` is such
a condition with such a relation. An operation keeps to it if all its parts do, so what a generator
does when it writes a document is gone through once, for every conduct that its parts keep to.
-/
namespace InterfaceKit
open Data Model Files

structure Conduct (σ : Type) where
  fit : σ → Prop
  leads : σ → σ → Prop
  refl {s : σ} : fit s → leads s s
  trans {s s' s'' : σ} : fit s → leads s s' → leads s' s'' → leads s s''
  keeps {s s' : σ} : fit s → leads s s' → fit s'

/-- Whether it succeeds or fails, it keeps to a conduct. -/
def Obeys {ε σ α : Type} (C : Conduct σ) (x : ExceptT ε (StateM σ) α) : Prop :=
  ∀ s, C.fit s → C.leads s (x.run s).2

namespace Obeys
variable {ε σ α β : Type} {C : Conduct σ} {x : ExceptT ε (StateM σ) α}

theorem of_eq (hx : ∀ s, (x.run s).2 = s) : Obeys C x := by
  intro s hs
  rw [hx s]
  exact C.refl hs

theorem leads_of_run {s s' : σ} {r : Except ε α} (hx : Obeys C x) (h : x.run s = (r, s'))
    (hs : C.fit s) :
    C.leads s s' := by
  have hleads := hx s hs
  rwa [h] at hleads

theorem pure (a : α) : Obeys C (Pure.pure a : ExceptT ε (StateM σ) α) := of_eq fun _ => rfl

theorem throw (e : ε) : Obeys C (MonadExcept.throw e : ExceptT ε (StateM σ) α) := of_eq fun _ => rfl

theorem bind {f : α → ExceptT ε (StateM σ) β} (hx : Obeys C x) (hf : ∀ a, Obeys C (f a)) :
    Obeys C (x >>= f) := by
  intro s hs
  have h := hx s hs
  rw [run_bind]
  revert h
  rcases x.run s with ⟨a,s'⟩
  intro h
  cases a with
  | error e => exact h
  | ok a => exact C.trans hs h (hf a s' (C.keeps hs h))

theorem get {f : σ → ExceptT ε (StateM σ) α} (hf : ∀ s, C.fit s → C.leads s ((f s).run s).2) :
    Obeys C (MonadState.get >>= f) := hf

theorem forIn {xs : List α} {f : α → PUnit → ExceptT ε (StateM σ) (ForInStep PUnit)}
    (hf : ∀ a, Obeys C (f a PUnit.unit)) : Obeys C (ForIn.forIn xs PUnit.unit f) := by
  induction xs with
  | nil => exact pure _
  | cons a xs ih =>
    rw [List.forIn_cons]
    refine (hf a).bind fun step => ?_
    cases step with
    | done _ => exact pure _
    | yield _ => exact ih

end Obeys

/-! ## Generators at work -/

/-- The conduct of what a generator does to the workspace. -/
def Conduct.beside (C : Conduct Run) (g : Generator) : Conduct Workspace where
  fit w := C.fit ⟨g,w⟩
  leads w w' := C.leads ⟨g,w⟩ ⟨g,w'⟩
  refl := C.refl
  trans := C.trans
  keeps := C.keeps

theorem Obeys.lift {α : Type} {C : Conduct Run} {x : Act α} (hx : ∀ g, Obeys (C.beside g) x) :
    Obeys C (liftM x : Generate α) := fun r hr => hx r.generator r.workspace hr

theorem Act.update_obeys {C : Conduct Workspace} {target : Value}
    (hask : ∀ {α : Type} (q : Inquiry α), Obeys C (liftM q : Act α))
    (hset : ∀ k v, Obeys C (Act.setItem target k v)) (extra : Value) :
    Obeys C (Act.update target extra) := by
  unfold Act.update
  refine (Obeys.of_eq fun _ => rfl).bind fun s => ?_
  split
  · exact (Obeys.forIn fun e => (hset _ _).bind fun _ => .pure _).bind fun _ => .pure _
  · refine (hask (Inquiry.elements extra)).bind fun vs => (Obeys.forIn fun v => ?_).bind fun _ =>
      .pure _
    exact (hask (Inquiry.pairOf v)).bind fun e => (hset _ _).bind fun _ => .pure _

/-- Inquiries, messages and the strictness of templates are of no matter to the conduct. -/
structure Conduct.Lenient (C : Conduct Run) : Prop where
  ask : ∀ {α : Type} (q : Inquiry α), Obeys C (liftM q : Generate α)
  print : ∀ s text, Obeys C (liftM (Act.print s text) : Generate Unit)
  strict : ∀ strict, Obeys C (Generate.modifyGenerator fun g => { g with strict })

namespace Generate
variable {C : Conduct Run}

theorem get_obeys : Obeys C (get : Generate Workspace) := .of_eq fun _ => rfl

theorem generator_obeys : Obeys C generator := .of_eq fun _ => rfl

variable {mapping : Value} {α : Type}

theorem get_then {f : Workspace → Generate α}
    (hf : ∀ r : Run, C.fit r → C.leads r ((f r.workspace).run r).2) : Obeys C (get >>= f) := hf

theorem generator_then {f : Generator → Generate α}
    (hf : ∀ r : Run, C.fit r → C.leads r ((f r.generator).run r).2) : Obeys C (generator >>= f) := hf

theorem writeOut_obeys (hC : C.Lenient) (script : Script) : Obeys C (writeOut script) := by
  unfold writeOut
  exact generator_obeys.bind fun g => hC.ask _

theorem templateName_obeys (name : Value) : Obeys C (templateName name) := by
  unfold templateName
  split
  · split
    · exact .pure _
    · refine generator_obeys.bind fun g => ?_
      split
      · exact .pure _
      · exact .pure _
      · exact .throw _
  · exact .throw _

theorem render_obeys (hC : C.Lenient) (name mapping : Value) : Obeys C (render name mapping) := by
  refine .bind ?_ (writeOut_obeys hC)
  unfold namedScript
  refine get_obeys.bind fun w => (hC.strict _).bind fun _ => ?_
  refine (templateName_obeys name).bind fun _ => ?_
  exact (hC.ask _).bind fun _ => .pure _

theorem resolvedPath_obeys : Obeys C resolvedPath := by
  unfold resolvedPath
  refine generator_obeys.bind fun g => .bind ?_ fun _ => .pure _
  unfold pathOf
  split
  · exact .pure _
  · exact .pure _
  · exact .throw _

def join (mapping : Value) : Generate Unit := do Act.update mapping (← generator).bindings

theorem applyWith_obeys (hC : C.Lenient) (hjoin : Obeys C (join mapping)) (template : Value) :
    Obeys C (applyWith mapping template) := by
  refine .bind ?_ (writeOut_obeys hC)
  unfold textScript
  rw [← bind_assoc]
  refine hjoin.bind fun _ => ?_
  split
  · exact (hC.ask _).bind fun _ => .pure _
  · exact .throw _

theorem approach_obeys (hC : C.Lenient)
    (hprepare : ∀ p, Obeys C (liftM (Act.prepare p) : Generate Location))
    (hjoin : Obeys C (join mapping)) (q : Request) : Obeys C (approach q mapping) := by
  refine (applyWith_obeys hC hjoin _).bind fun _ => resolvedPath_obeys.bind fun _ => ?_
  exact (hprepare _).bind fun _ => .pure _

theorem compose_obeys (hC : C.Lenient)
    (hprepare : ∀ p, Obeys C (liftM (Act.prepare p) : Generate Location))
    (hjoin : Obeys C (join mapping)) (q : Request) : Obeys C (compose q mapping) := by
  refine (approach_obeys hC hprepare hjoin q).bind fun _ => (render_obeys hC _ _).bind fun _ => ?_
  exact generator_obeys.bind fun _ => .pure _

/-- `hproduce` is about the mapping that the document is written with. -/
theorem write_obeys (hC : C.Lenient) {q : Request}
    (hproduce : ∀ (w : Workspace) (r : Run), C.fit r → Obeys C (produce q
      (if w.store.isTrue (q.bindings.getD .null) then q.bindings.getD .null
        else r.generator.bindings))) :
    Obeys C (write q) := by
  unfold write
  refine get_obeys.bind fun w => ?_
  dsimp only
  split
  · exact (hC.print _ _).bind fun _ => .pure _
  · refine generator_then fun r hr => ?_
    have hattempt : Obeys C (attempt (produce q
        (if w.store.isTrue (q.bindings.getD .null) then q.bindings.getD .null
          else r.generator.bindings))) :=
      hproduce w r hr
    refine hattempt.bind (fun outcome => ?_) r hr
    split
    · exact .pure _
    · split
      · exact .throw _
      · refine (hC.print _ _).bind fun _ => get_obeys.bind fun w => ?_
        split
        · exact .throw _
        · exact .pure _

theorem given?_obeys (rule : Value) (name : String) : Obeys C (given? rule name) := by
  refine get_obeys.bind fun w => ?_
  dsimp only
  split
  · exact .pure _
  · exact .throw _

theorem listed_obeys (hC : C.Lenient) (rule : Value) (name : String) :
    Obeys C (listed rule name) := by
  refine (given?_obeys rule name).bind fun x => ?_
  split
  · exact hC.ask _
  · exact .pure _

theorem documentOf_obeys (entry : Value) : Obeys C (documentOf entry) := by
  refine get_obeys.bind fun w => ?_
  split
  · exact .pure _
  · exact .throw _
  · exact .pure _

theorem announce_obeys (hC : C.Lenient) (name : Value) : Obeys C (announce name) :=
  (hC.ask _).bind fun _ => hC.print _ _

end Generate

end InterfaceKit
