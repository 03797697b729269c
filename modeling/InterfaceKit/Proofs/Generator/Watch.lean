import InterfaceKit.Generator.Rules

/-!
# Watching a walk

A watched walk does what a plain one does and keeps a record of it: which targets and rules were
entered, which documents were asked for, and the state of the generator each time. The record of a
walk that fails ends where it failed.
-/
namespace InterfaceKit
open Data Model Files Generate

/-- What happens on a walk, with the state of the generator: a target, or a rule for a symbol, has
been entered, or a document is about to be written for a symbol. -/
inductive Event where
  | entered (visit : Option Visit) (rule : Value) (run : Run)
  | issued (visit : Visit) (request : Request) (run : Run)

structure Watch where
  run : Run
  events : List Event := []

/-- Every event of a record stands in a relation to those before it. -/
def Recorded (P : List Event → Event → Prop) (events : List Event) : Prop :=
  ∀ before e after, events = before ++ e :: after → P before e

namespace Recorded
variable {P : List Event → Event → Prop} {events : List Event}

theorem nil : Recorded P [] := by
  intro before e after h
  simp at h

theorem snoc (h : Recorded P events) {e : Event} (he : P events e) : Recorded P (events ++ [e]) := by
  intro before e' after heq
  rcases List.eq_nil_or_concat after with rfl | ⟨init,last,rfl⟩
  · obtain ⟨rfl,hlast⟩ := List.append_inj' heq rfl
    cases hlast
    exact he
  · rw [List.concat_eq_append,← List.cons_append,← List.append_assoc] at heq
    obtain ⟨hinit,-⟩ := List.append_inj' heq rfl
    exact h before e' init hinit

end Recorded

abbrev Watched := ExceptT Failure (StateM Watch)

instance : MonadLift Generate Watched where
  monadLift x := fun s =>
    let (a, run) := x.run s.run
    (a, { s with run })

namespace Watched

def note (e : Run → Event) : Watched Unit :=
  modifyThe Watch fun s => { s with events := s.events ++ [e s.run] }

/-- The way in which rules are followed under watch. -/
def follower : Follower Watched where
  enter visit rule := do
    (Generate.enter rule : Generate Unit)
    note (.entered visit rule)
  write visit request := do
    note (.issued visit request)
    (Generate.write request : Generate Unit)

/-- Follows the rule document at a path and keeps a record. -/
def processRules (path : Path) (n : Nat) : Watched Unit := do
  followDocument follower (← (openRules path n : Generate Value)) n

/-! ## Watching changes nothing -/

/-- Without its record, the one does what the other does. -/
def Erases {α : Type} (x : Watched α) (y : Generate α) : Prop :=
  ∀ s, y.run s.run = ((x.run s).1, (x.run s).2.run)

namespace Erases
variable {α β : Type} {x : Watched α} {y : Generate α}

theorem pure (a : α) : Erases (Pure.pure a) (Pure.pure a) := fun _ => rfl

theorem lift (y : Generate α) : Erases (liftM y) (liftM y) := fun _ => rfl

theorem note (e : Run → Event) : Erases (Watched.note e) (Pure.pure ()) := fun _ => rfl

theorem bind {f : α → Watched β} {g : α → Generate β} (hx : Erases x y)
    (hf : ∀ a, Erases (f a) (g a)) :
    Erases (x >>= f) (y >>= g) := by
  intro s
  rw [run_bind,run_bind,hx s]
  rcases x.run s with ⟨r,s'⟩
  cases r with
  | error e => rfl
  | ok a => exact hf a s'

theorem forIn {xs : List α} {f : α → PUnit → Watched (ForInStep PUnit)}
    {g : α → PUnit → Generate (ForInStep PUnit)}
    (hf : ∀ a, Erases (f a PUnit.unit) (g a PUnit.unit)) :
    Erases (ForIn.forIn xs PUnit.unit f) (ForIn.forIn xs PUnit.unit g) := by
  induction xs with
  | nil => exact pure _
  | cons a xs ih =>
    rw [List.forIn_cons,List.forIn_cons]
    refine (hf a).bind fun step => ?_
    cases step with
    | done _ => exact pure _
    | yield _ => exact ih

end Erases

theorem enter_erases (visit : Option Visit) (rule : Value) :
    Erases (follower.enter visit rule) (Follower.plain.enter visit rule) := by
  have h := (Erases.lift (Generate.enter rule)).bind fun _ => Erases.note (.entered visit rule)
  rw [bind_pure_unit] at h
  exact h

theorem write_erases (visit : Visit) (request : Request) :
    Erases (follower.write visit request) (Follower.plain.write visit request) :=
  (Erases.note (.issued visit request)).bind fun _ => Erases.lift (Generate.write request)

theorem writeListed_erases (visit : Visit) (rule : Value) (name : String) (preserve : Bool) :
    Erases (writeListed (follower.write visit) rule name preserve)
      (writeListed (Follower.plain.write visit) rule name preserve) := by
  unfold writeListed
  refine (Erases.lift _).bind fun entries => .bind (.forIn fun entry => ?_) fun _ => .pure _
  refine (Erases.lift _).bind fun e => (write_erases visit _).bind fun _ => .pure _

theorem followRule_erases (rule : Value) (v : Visit) :
    Erases (followRule follower rule v) (followRule .plain rule v) := by
  unfold followRule
  refine (Erases.lift _).bind fun proceed => ?_
  split
  · refine (Erases.lift _).bind fun _ => (enter_erases _ _).bind fun _ => ?_
    exact (writeListed_erases _ _ _ _).bind fun _ => writeListed_erases _ _ _ _
  · exact .pure _

theorem followTarget_erases (rules : Value) (n : Nat) :
    Erases (followTarget follower rules n) (followTarget .plain rules n) := by
  unfold followTarget
  refine (Erases.lift _).bind fun proceed => ?_
  split
  · refine (enter_erases _ _).bind fun _ => (Erases.lift _).bind fun w => ?_
    refine .bind (.forIn fun v => ?_) fun _ => .pure _
    exact (Erases.lift _).bind fun rule => (followRule_erases _ v).bind fun _ => .pure _
  · exact .pure _

theorem followDocument_erases (document : Value) (n : Nat) :
    Erases (followDocument follower document n) (followDocument .plain document n) := by
  unfold followDocument
  refine (Erases.lift _).bind fun targets => .bind (.forIn fun target => ?_) fun _ => .pure _
  exact (Erases.lift _).bind fun _ => (followTarget_erases _ n).bind fun _ => .pure _

theorem processRules_erases (path : Path) (n : Nat) :
    Erases (processRules path n) (Generate.processRules path n) :=
  (Erases.lift (openRules path n)).bind fun document => followDocument_erases document n

theorem processRules_run {path : Path} {n : Nat} {r r₀ : Run} {document : Value}
    (hopen : (openRules path n).run r = (.ok document, r₀)) :
    (processRules path n).run { run := r } =
      (followDocument follower document n).run { run := r₀ } := by
  have hlift : (liftM (openRules path n) : Watched Value).run { run := r } =
      (.ok document, { run := r₀ }) := by
    change (((openRules path n).run r).1, ({ run := ((openRules path n).run r).2 } : Watch)) = _
    rw [hopen]
  unfold processRules
  rw [run_bind,hlift]

/-! ## Steps under watch -/

/-- Begun in `A`, it keeps what is good of the record, and if it succeeds it ends in `B`. -/
def Meets {α : Type} (Good : List Event → Prop) (A : Watch → Prop) (x : Watched α)
    (B : α → Watch → Prop) : Prop :=
  ∀ s, Good s.events → A s → Good (x.run s).2.events ∧ ∀ a, (x.run s).1 = .ok a → B a (x.run s).2

namespace Meets
variable {α β : Type} {Good : List Event → Prop} {A A' : Watch → Prop} {x : Watched α}
  {B B' : α → Watch → Prop} {C : β → Watch → Prop}

theorem pure {a : α} (h : ∀ s, A s → B a s) : Meets Good A (Pure.pure a) B := by
  intro s hgood hs
  refine ⟨hgood,fun b hb => ?_⟩
  cases hb
  exact h s hs

variable {f : α → Watched β} {y : Generate α}

theorem bind (hx : Meets Good A x B) (hf : ∀ a, Meets Good (B a) (f a) C) :
    Meets Good A (x >>= f) C := by
  intro s hgood hs
  have h := hx s hgood hs
  rw [run_bind]
  revert h
  rcases x.run s with ⟨r,s'⟩
  intro h
  cases r with
  | error e => exact ⟨h.1,nofun⟩
  | ok a => exact hf a s' h.1 (h.2 a rfl)

theorem mono (h : Meets Good A x B) (hA : ∀ s, A' s → A s) (hB : ∀ a s, B a s → B' a s) :
    Meets Good A' x B' :=
  fun s hgood hs => ⟨(h s hgood (hA s hs)).1,fun a ha => hB a _ ((h s hgood (hA s hs)).2 a ha)⟩

theorem assume {P : Prop} (h : P → Meets Good A x B) : Meets Good (fun s => P ∧ A s) x B :=
  fun s hgood hs => h hs.1 s hgood hs.2

theorem choose {ι : Type} {A : ι → Watch → Prop} (h : ∀ i, Meets Good (A i) x B) :
    Meets Good (fun s => ∃ i, A i s) x B :=
  fun s hgood hs => hs.elim fun i hi => h i s hgood hi

theorem lift (h : ∀ s a r, A s → y.run s.run = (.ok a, r) → B a { s with run := r }) :
    Meets Good A (liftM y) B := by
  intro s hgood hs
  refine ⟨hgood,fun a ha => ?_⟩
  exact h s a _ hs (Prod.ext ha rfl)

theorem read {P : α → Prop}
    (hy : ∀ s a r, A s → y.run s.run = (.ok a, r) → r = s.run ∧ P a)
    (hf : ∀ a, P a → Meets Good A (f a) C) :
    Meets Good A (liftM y >>= f) C := by
  refine bind (B := fun a s => P a ∧ A s) (.lift fun s a r hs hrun => ?_) fun a => .assume (hf a)
  obtain ⟨rfl,ha⟩ := hy s a r hs hrun
  exact ⟨ha,hs⟩

theorem note {e : Run → Event} {B : Watch → Prop}
    (h : ∀ s, Good s.events → A s → Good (s.events ++ [e s.run]) ∧
      B { s with events := s.events ++ [e s.run] }) :
    Meets Good A (note e) fun _ => B :=
  fun s hgood hs => ⟨(h s hgood hs).1,fun _ _ => (h s hgood hs).2⟩

theorem forIn {I : List α → Watch → Prop} {f : α → PUnit → Watched (ForInStep PUnit)}
    (hf : ∀ a as, Meets Good (I (a :: as)) (f a PUnit.unit) fun step s => step = .yield PUnit.unit ∧
      I as s)
    (as : List α) : Meets Good (I as) (ForIn.forIn as PUnit.unit f) fun _ => I [] := by
  induction as with
  | nil => exact pure fun _ h => h
  | cons a as ih =>
    rw [List.forIn_cons]
    refine (hf a as).bind fun step => .assume fun hstep => ?_
    subst hstep
    exact ih

end Meets

end Watched

end InterfaceKit
