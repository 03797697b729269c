import InterfaceKit.Proofs.Files.Delivery
import InterfaceKit.Proofs.Generator.Steady

/-!
# What composing a document leaves alone

Before a document is delivered its name and its text are written out and its folder is made. All
this leaves every file as it is, and the generator but for its strictness, whether it succeeds or
fails. Only the delivery touches a file.
-/
namespace InterfaceKit
open Data Model Files

/-- The generator keeps all but its strictness, and of the workspace only the store, the systems,
the folders and the log may change. -/
structure Run.Keeps (r r' : Run) : Prop where
  generator : r'.generator = { r.generator with strict := r'.generator.strict }
  files : r.workspace.files.Widens r'.workspace.files
  rest : r'.workspace =
    { r.workspace with
      store := r'.workspace.store
      systems := r'.workspace.systems
      files := r'.workspace.files
      log := r'.workspace.log }

namespace Run.Keeps
variable {r r' r'' : Run}

protected theorem refl (r : Run) : r.Keeps r := ⟨rfl,.refl _,rfl⟩

protected theorem trans (h : r.Keeps r') (h' : r'.Keeps r'') : r.Keeps r'' where
  generator := by rw [h'.generator,h.generator]
  files := h.files.trans h'.files
  rest := by rw [h'.rest,h.rest]

theorem force (h : r.Keeps r') : r'.generator.force = r.generator.force := by rw [h.generator]

theorem folder (h : r.Keeps r') : r'.workspace.folder = r.workspace.folder := by rw [h.rest]

theorem strictTemplates (h : r.Keeps r') :
    r'.workspace.strictTemplates = r.workspace.strictTemplates := by
  rw [h.rest]

theorem inside {w : Workspace}
    (h : w = { r.workspace with store := w.store, systems := w.systems, log := w.log }) :
    r.Keeps { r with workspace := w } where
  generator := rfl
  files := by
    rw [h]
    exact .refl _
  rest := by rw [h]

end Run.Keeps

def Workspace.delivered (w : Workspace) (d : Delivery) : Workspace :=
  { w with files := (w.files.deliver d).2, log := w.log ++ (w.files.deliver d).1.report d.path }

theorem Act.run_deliver (d : Delivery) (w : Workspace) : (Act.deliver d).run w =
    if w.files.isFolder d.place then (.error (.isDirectory d.path.toString), w)
    else (.ok (), w.delivered d) := by
  rw [Act.deliver,run_get_bind]
  split <;> rfl

/-- What touches no file. -/
def Conduct.keeping : Conduct Run where
  fit _ := True
  leads := Run.Keeps
  refl _ := .refl _
  trans _ h h' := h.trans h'
  keeps _ _ := trivial

namespace Generate

/-- Whether it succeeds or fails, it touches no file. -/
def Keeping {α : Type} (x : Generate α) : Prop := Obeys .keeping x

theorem lenient_keeping : Conduct.keeping.Lenient where
  ask q := fun r _ => .inside (q.grows r.workspace).rest
  print _ _ := fun _ _ => .inside rfl
  strict _ := fun _ _ => ⟨rfl,.refl _,rfl⟩

theorem join_keeping (mapping : Value) : Keeping (join mapping) := by
  refine generator_obeys.bind fun g => .lift fun g' =>
    Act.update_obeys (fun q w hw => ?_) (fun k v w _ => ?_) g.bindings
  · exact lenient_keeping.ask q ⟨g',w⟩ hw
  · rw [Act.setItem_run]
    split
    · exact Run.Keeps.inside (r := ⟨g',w⟩) rfl
    · exact Run.Keeps.refl _

theorem prepare_run (p : Path) (r : Run) : (liftM (Act.prepare p) : Generate Location).run r =
    match r.workspace.files.prepare r.workspace.folder p with
    | .ok (place, files) => (.ok place, { r with workspace.files := files })
    | .error e => (.error e, r) := by
  rw [run_liftM,Act.prepare,run_get_bind]
  cases r.workspace.files.prepare r.workspace.folder p <;> rfl

theorem prepare_keeping (p : Path) : Keeping (liftM (Act.prepare p)) := by
  intro r _
  rw [prepare_run]
  split
  · rename_i place files hprepare
    exact ⟨rfl,(Tree.prepare_spec hprepare).1,rfl⟩
  · exact .refl r

theorem compose_keeping (q : Request) (mapping : Value) : Keeping (compose q mapping) :=
  compose_obeys lenient_keeping prepare_keeping (join_keeping mapping) q

variable {q : Request} {mapping : Value} {r r' : Run}

theorem approach_ok {p : Path} {place : Location}
    (h : (approach q mapping).run r = (.ok (p, place), r')) :
    r'.workspace.files.locate r.workspace.folder p = some place := by
  unfold approach at h
  obtain ⟨name,r₁,hname,h₁⟩ := ok_of_bind h
  obtain ⟨path,r₂,hpath,h₂⟩ := ok_of_bind h₁
  obtain ⟨place,r₃,hprepare,h₃⟩ := ok_of_bind h₂
  cases h₃
  have hnamed : r.Keeps r₁ :=
    (applyWith_obeys lenient_keeping (join_keeping mapping) q.target).leads_of_run hname trivial
  have hresolved : r.Keeps r₂ :=
    hnamed.trans (resolvedPath_obeys (C := .keeping) |>.leads_of_run hpath trivial)
  rw [prepare_run] at hprepare
  split at hprepare
  · rename_i files hfiles
    cases hprepare
    rw [← hresolved.folder]
    exact (Tree.prepare_spec hfiles).2
  · cases hprepare

/-- A document as a request asks for it; its path leads to its place. -/
structure Composed (q : Request) (r : Run) (d : Delivery) (r' : Run) : Prop where
  keeps : r.Keeps r'
  place : r'.workspace.files.locate r.workspace.folder d.path = some d.place
  preserve : d.preserve = q.preserve
  force : d.force = (r.generator.force || q.force)

theorem compose_composed {d : Delivery} (h : (compose q mapping).run r = (.ok d, r')) :
    Composed q r d r' := by
  obtain ⟨⟨path,place⟩,r₁,haim,h₁⟩ := ok_of_bind h
  obtain ⟨text,r₂,htext,h₂⟩ := ok_of_bind h₁
  cases h₂
  have haimed : r.Keeps r₁ :=
    (approach_obeys lenient_keeping prepare_keeping (join_keeping mapping) q).leads_of_run haim
      trivial
  have hwritten : r₁.Keeps r' :=
    (render_obeys lenient_keeping q.template mapping).leads_of_run htext trivial
  have hall : r.Keeps r' := haimed.trans hwritten
  exact ⟨hall,Tree.follow_mono hwritten.files.folders (approach_ok haim),rfl,by rw [hall.force]⟩

/-! ## Delivering -/

theorem deliver_run (d : Delivery) (r : Run) : (liftM (Act.deliver d) : Generate Unit).run r =
    if r.workspace.files.isFolder d.place then (.error (.isDirectory d.path.toString), r)
    else (.ok (), { r with workspace := r.workspace.delivered d }) := by
  rw [run_liftM,Act.run_deliver]
  split <;> rfl

theorem produce_ok (h : (produce q mapping).run r = (.ok (), r')) :
    ∃ d r₁, (compose q mapping).run r = (.ok d, r₁) ∧
      (liftM (Act.deliver d) : Generate Unit).run r₁ = (.ok (), r') := by
  obtain ⟨d,r₁,hcompose,hdeliver⟩ := ok_of_bind h
  exact ⟨d,r₁,hcompose,hdeliver⟩

theorem produce_error {e : Failure} (h : (produce q mapping).run r = (.error e, r')) :
    r.Keeps r' := by
  have hkeeps : r.Keeps _ := compose_keeping q mapping r trivial
  unfold produce at h
  rw [run_bind] at h
  rcases hcompose : (compose q mapping).run r with ⟨x,r₁⟩
  rw [hcompose] at h hkeeps
  cases x with
  | error e' =>
    cases h
    exact hkeeps
  | ok d =>
    dsimp only at h
    rw [deliver_run] at h
    split at h
    · cases h
      exact hkeeps
    · cases h

end Generate

end InterfaceKit
