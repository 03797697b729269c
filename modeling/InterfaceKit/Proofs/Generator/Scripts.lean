import InterfaceKit.Proofs.Files.Receiving
import InterfaceKit.Proofs.Generator.Composing
import InterfaceKit.Proofs.Generator.Merging

/-!
# What a request does to the files

What a request writes out are two scripts: the name of its document and its text. If it is known
what they come to, it is known what the request does to the files, whatever other requests were met
before.
-/
namespace InterfaceKit
open Data Model Files Generate

theorem Generate.run_generator (r : Run) : Generate.generator.run r = (.ok r.generator, r) := rfl

namespace Run

/-- The mapping that a request is written out with: the one it brings if there is something in it,
else the generator's own one. -/
def mappingFor (r : Run) (q : Request) : Value :=
  let given := q.bindings.getD .null
  if r.workspace.store.isTrue given then given else r.generator.bindings

def isComplete (r : Run) (q : Request) : Bool :=
  r.workspace.store.isTrue q.target && r.workspace.store.isTrue q.template

def answer (r : Run) (x : Script) : Except Failure String := ((writeOut x).run r).1

def pending : Except Failure Script × Run → Option (Run × Script)
  | (.ok x, r) => some (r, x)
  | (.error _, _) => none

/-- The scripts of a request: its document's name, and its text once the folder has been made. -/
def scripts (r : Run) (q : Request) : List (Run × Script) :=
  if r.isComplete q then
    let mapping := r.mappingFor q
    let name := (textScript mapping q.target).run r
    let text := (approach q mapping >>= fun _ => namedScript q.template mapping).run r
    [name,text].filterMap pending
  else []

/-- Mappings and values that are there. -/
structure Equipped (own : Nat) (r : Run) (qs : List Request) : Prop where
  bindings : r.generator.bindings = .ref own
  entries : r.workspace.store.HasMapping own
  mappings : ∀ q ∈ qs, ∀ v, q.bindings = some v → ∃ i es, v = .ref i ∧
    r.workspace.store.get? i = some (.map es)
  values : ∀ q ∈ qs, ∀ i, q.target = .ref i ∨ q.template = .ref i →
    (r.workspace.store.get? i).isSome = true

/-- Later in a run: mappings may have taken over the own bindings. Else only files, systems and the
log may differ. -/
structure Since (own : Nat) (r a : Run) : Prop where
  generator : a.generator = { r.generator with strict := a.generator.strict }
  store : Store.Merges own r.workspace.store a.workspace.store
  folder : a.workspace.folder = r.workspace.folder
  strictTemplates : a.workspace.strictTemplates = r.workspace.strictTemplates

def bindingsFor (r : Run) (q : Request) : Table Value :=
  (r.workspace.store.bindings (r.mappingFor q)).setAll r.bindings

/-- Later in a run, and the mapping of a request has just taken over the own bindings. -/
structure Primed (own : Nat) (r : Run) (q : Request) (a : Run) : Prop extends Since own r a where
  bindings : a.workspace.store.bindings (r.mappingFor q) = r.bindingsFor q

section
variable {own : Nat} {r a : Run} {q : Request} {qs : List Request}

theorem Equipped.bindings_eq (h : Equipped own r qs) :
    r.bindings = r.workspace.store.bindings (.ref own) := by
  rw [Run.bindings,h.bindings]

theorem Equipped.mappingFor_cases (h : Equipped own r qs) (hq : q ∈ qs) :
    ∃ i es, r.mappingFor q = .ref i ∧ r.workspace.store.get? i = some (.map es) ∧
    (es ≠ [] ∨ i = own) := by
  unfold mappingFor
  dsimp only
  split
  · rename_i htrue
    cases hb : q.bindings with
    | none =>
      rw [hb] at htrue
      cases htrue
    | some v =>
      obtain ⟨i,es,rfl,hes⟩ := h.mappings q hq v hb
      refine ⟨i,es,rfl,hes,.inl ?_⟩
      rw [hb] at htrue
      simpa [Store.isTrue,hes] using htrue
  · obtain ⟨es,hes,-⟩ := h.entries
    exact ⟨own,es,h.bindings,hes,.inr rfl⟩

namespace Since

protected theorem refl (h : Equipped own r qs) : Since own r r := ⟨rfl,.refl h.entries,rfl,rfl⟩

theorem mappingFor_eq (h : Since own r a) (hr : Equipped own r qs) (hq : q ∈ qs) :
    a.mappingFor q = r.mappingFor q := by
  have htrue : a.workspace.store.isTrue (q.bindings.getD .null) =
      r.workspace.store.isTrue (q.bindings.getD .null) := by
    apply h.store.isTrue_eq
    intro j hj
    cases hb : q.bindings with
    | none =>
      rw [hb] at hj
      cases hj
    | some v =>
      obtain ⟨i,es,rfl,hes⟩ := hr.mappings q hq v hb
      rw [hb] at hj
      cases hj
      rw [hes]
      rfl
  unfold mappingFor
  dsimp only
  rw [htrue,h.generator]

theorem isComplete_eq (h : Since own r a) (hr : Equipped own r qs) (hq : q ∈ qs) :
    a.isComplete q = r.isComplete q := by
  have htarget := h.store.isTrue_eq fun j hj => hr.values q hq j (.inl hj)
  have htemplate := h.store.isTrue_eq fun j hj => hr.values q hq j (.inr hj)
  rw [isComplete,isComplete,htarget,htemplate]

theorem outside (h : Since own r a) (files : Tree) (log : Log) :
    Since own r { a with workspace := { a.workspace with files, log } } :=
  ⟨h.generator,h.store,h.folder,h.strictTemplates⟩

end Since

theorem Primed.grow (h : Primed own r q a) (hr : Equipped own r qs) (hq : q ∈ qs) {w : Workspace}
    (hw : a.workspace.Grows w) : Primed own r q { a with workspace := w } where
  generator := h.generator
  store := h.store.grow hr.entries hw.cells
  folder := by
    rw [← h.folder,hw.rest]
  strictTemplates := by
    rw [← h.strictTemplates,hw.rest]
  bindings := by
    obtain ⟨i,es,hmapping,hes,-⟩ := hr.mappingFor_cases hq
    obtain ⟨es',hes',-⟩ := h.store.maps i es hes
    rw [← h.bindings,hmapping,Store.bindings_of_get? hes',Store.bindings_of_get? (hw.cells i _ hes')]

theorem Primed.outside (h : Primed own r q a) (files : Tree) (log : Log) :
    Primed own r q { a with workspace := { a.workspace with files, log } } :=
  { h.toSince.outside files log with bindings := h.bindings }

end

/-! ## Answers -/

def nameScript (r : Run) (q : Request) : Except Failure Script :=
  match q.target with
  | .text t => .ok (.text t (r.bindingsFor q))
  | _ => .error (.wrongType "Can't compile non template nodes")

def bodyScript (r : Run) (q : Request) : Except Failure Script :=
  ((templateName q.template).run r).1.map (.named · (r.bindingsFor q))

/-- A document as a request asks for it, if it is known what its scripts come to. -/
def manuscript (r : Run) (f : Script → Except Failure String) (q : Request) : Manuscript where
  path := do
    let name ← f (← r.nameScript q)
    return (← (resolvedPath.run r).1).join (.ofString name)
  text := do f (← r.bodyScript q)
  preserve := q.preserve
  force := r.generator.force || q.force

section
variable {own : Nat} {r a : Run} {q : Request} {qs : List Request}
  {f : Script → Except Failure String}

theorem writeOut_run (hr : Equipped own r qs) (hq : q ∈ qs) (ha : Primed own r q a) (x : Script) :
    ∃ a', (writeOut x).run a = (a.answer x, a') ∧ Primed own r q a' ∧
    a'.workspace.files = a.workspace.files := by
  have hask : ∀ i : Inquiry String, Primed own r q ((liftM i : Generate String).run a).2 ∧
      ((liftM i : Generate String).run a).2.workspace.files = a.workspace.files := by
    intro i
    have hgrows := i.grows a.workspace
    refine ⟨ha.grow hr hq hgrows,?_⟩
    change (i.act.run a.workspace).2.files = a.workspace.files
    rw [hgrows.rest]
  refine ⟨((writeOut x).run a).2,rfl,?_⟩
  unfold writeOut
  rw [run_bind,run_generator]
  exact hask (a.generator.writer a.generator.engine x)

theorem textScript_run (hr : Equipped own r qs) (hq : q ∈ qs) (ha : Since own r a) :
    ∃ a', (textScript (r.mappingFor q) q.target).run a = (r.nameScript q, a') ∧ Primed own r q a' ∧
      a'.workspace.files = a.workspace.files := by
  obtain ⟨i,es,hmapping,hes,hfilled⟩ := hr.mappingFor_cases hq
  obtain ⟨es',hes',-⟩ := ha.store.maps i es hes
  obtain ⟨ds,hds,-⟩ := ha.store.entries_own hr.entries
  obtain ⟨s,hupdate,htakes⟩ := Act.update_run hes' hds (ha.store.keys ds hds)
  obtain ⟨hmerges,hbindings⟩ := ha.store.take hr.entries hes hfilled hes' hds htakes
  have hown : a.generator.bindings = .ref own := by rw [ha.generator,hr.bindings]
  have hprimed : Primed own r q { a with workspace.store := s } :=
    { generator := ha.generator
      store := hmerges
      folder := ha.folder
      strictTemplates := ha.strictTemplates
      bindings := by rw [bindingsFor,hmapping,hbindings,hr.bindings_eq] }
  refine ⟨_,?_,hprimed,rfl⟩
  unfold textScript nameScript
  rw [run_bind_ok (run_generator _),run_bind,run_liftM,hown,hmapping,hupdate]
  dsimp only
  rw [← hmapping,← hprimed.bindings]
  cases q.target <;> rfl

theorem writeOut_after {make : Generate Script} {x : Except Failure Script} (hr : Equipped own r qs)
    (hq : q ∈ qs) (hmake : ∃ a', make.run a = (x, a') ∧ Primed own r q a' ∧
      a'.workspace.files = a.workspace.files)
    (hf : ∀ s a₁, make.run a = (.ok s, a₁) → a₁.answer s = f s) :
    ∃ a', (make >>= writeOut).run a = (x >>= f, a') ∧ Primed own r q a' ∧
    a'.workspace.files = a.workspace.files := by
  obtain ⟨a₁,hscript,hprimed,hfiles⟩ := hmake
  rw [run_bind,hscript]
  cases x with
  | error e => exact ⟨a₁,rfl,hprimed,hfiles⟩
  | ok s =>
    obtain ⟨a₂,hwritten,hprimed₂,hfiles₂⟩ := writeOut_run hr hq hprimed s
    refine ⟨a₂,?_,hprimed₂,hfiles₂.trans hfiles⟩
    dsimp only
    rw [hwritten,hf s a₁ hscript]
    rfl

theorem applyWith_run (hr : Equipped own r qs) (hq : q ∈ qs) (ha : Since own r a)
    (hf : ∀ x a₁, (textScript (r.mappingFor q) q.target).run a = (.ok x, a₁) → a₁.answer x = f x) :
    ∃ a', (applyWith (r.mappingFor q) q.target).run a = (r.nameScript q >>= f, a') ∧
      Primed own r q a' ∧ a'.workspace.files = a.workspace.files :=
  writeOut_after hr hq (textScript_run hr hq ha) hf

/-- Nothing but the generator is asked, which is the same but for its strictness. -/
theorem resolvedPath_run (ha : Since own r a) :
    resolvedPath.run a = ((resolvedPath.run r).1, a) := by
  have hdestination : a.generator.destination = r.generator.destination := by rw [ha.generator]
  have hpath : a.generator.path = r.generator.path := by rw [ha.generator]
  unfold resolvedPath pathOf
  rw [run_bind_ok (run_generator _),run_bind_ok (run_generator _),hdestination,hpath]
  cases r.generator.destination <;> rfl

theorem templateName_run (ha : Since own r a) (name : Value) :
    (templateName name).run a = (((templateName name).run r).1, a) := by
  have hsource : a.generator.source = r.generator.source := by rw [ha.generator]
  unfold templateName
  cases name with
  | text s =>
    dsimp only
    split
    · rfl
    · rw [run_bind_ok (run_generator _),run_bind_ok (run_generator _),hsource]
      cases r.generator.source <;> rfl
  | _ => rfl

theorem approach_run (hr : Equipped own r qs) (hq : q ∈ qs) (ha : Since own r a)
    (hf : ∀ x a₁, (textScript (r.mappingFor q) q.target).run a = (.ok x, a₁) → a₁.answer x = f x) :
    ∃ a', (approach q (r.mappingFor q)).run a =
        ((a.workspace.files.aim r.workspace.folder (r.manuscript f q).path).1, a') ∧
      Primed own r q a' ∧
      a'.workspace.files = (a.workspace.files.aim r.workspace.folder (r.manuscript f q).path).2 := by
  obtain ⟨a₁,hname,hprimed,hfiles⟩ := applyWith_run hr hq ha hf
  have hpath : (r.manuscript f q).path = (do
      let name ← r.nameScript q >>= f
      return (← (resolvedPath.run r).1).join (.ofString name)) := by
    rw [manuscript,bind_assoc]
  rw [hpath,approach,run_bind,hname]
  cases r.nameScript q >>= f with
  | error e => exact ⟨a₁,rfl,hprimed,hfiles⟩
  | ok name =>
    dsimp only
    rw [run_bind,resolvedPath_run hprimed.toSince]
    cases (resolvedPath.run r).1 with
    | error e => exact ⟨a₁,rfl,hprimed,hfiles⟩
    | ok path =>
      have haim : ∀ t : Tree, t.aim r.workspace.folder (do
          let name ← (.ok name : Except Failure String)
          return (← (.ok path : Except Failure Path)).join (.ofString name)) =
          t.aim r.workspace.folder (.ok (path.join (.ofString name))) := fun _ => rfl
      rw [haim,Tree.aim]
      dsimp only
      rw [run_bind,prepare_run,hfiles,hprimed.folder]
      cases a.workspace.files.prepare r.workspace.folder (path.join (.ofString name)) with
      | error e => exact ⟨a₁,rfl,hprimed,hfiles⟩
      | ok place => exact ⟨_,rfl,hprimed.outside place.2 _,rfl⟩

theorem namedScript_run (ha : Primed own r q a) :
    ∃ a', (namedScript q.template (r.mappingFor q)).run a = (r.bodyScript q, a') ∧
      Primed own r q a' ∧ a'.workspace.files = a.workspace.files := by
  let a₁ : Run := { a with generator.strict := a.workspace.strictTemplates }
  have hgenerator : a₁.generator = { a.generator with strict := a.workspace.strictTemplates } := rfl
  have hprimed : Primed own r q a₁ :=
    { generator := by rw [hgenerator,ha.generator]
      store := ha.store
      folder := ha.folder
      strictTemplates := ha.strictTemplates
      bindings := ha.bindings }
  refine ⟨a₁,?_,hprimed,rfl⟩
  have hname := templateName_run hprimed.toSince q.template
  have hstrict : (namedScript q.template (r.mappingFor q)).run a = (do
      return .named (← templateName q.template) (← Act.bindings (r.mappingFor q)) :
        Generate Script).run a₁ := rfl
  rw [hstrict,run_bind,hname,bodyScript]
  cases ((templateName q.template).run r).1 with
  | error e => rfl
  | ok name =>
    rw [← hprimed.bindings]
    rfl

theorem render_run (hr : Equipped own r qs) (hq : q ∈ qs) (ha : Primed own r q a)
    (hf : ∀ x a₁, (namedScript q.template (r.mappingFor q)).run a = (.ok x, a₁) →
      a₁.answer x = f x) :
    ∃ a', (render q.template (r.mappingFor q)).run a = ((r.manuscript f q).text, a') ∧
      Primed own r q a' ∧ a'.workspace.files = a.workspace.files :=
  writeOut_after hr hq (namedScript_run ha) hf

/-- What a request does to the files is what they do with its manuscript. -/
theorem produce_run (hr : Equipped own r qs) (hq : q ∈ qs) (ha : Since own r a)
    (hcomplete : a.isComplete q = true) (hf : ∀ x ∈ a.scripts q, x.1.answer x.2 = f x.2) :
    ∃ a', (produce q (r.mappingFor q)).run a =
        ((a.workspace.files.receive r.workspace.folder (r.manuscript f q)).1, a') ∧
      Since own r a' ∧ a'.workspace.files =
        (a.workspace.files.receive r.workspace.folder (r.manuscript f q)).2 := by
  have hmapping : a.mappingFor q = r.mappingFor q := ha.mappingFor_eq hr hq
  rw [scripts,hcomplete,hmapping,if_pos rfl] at hf
  have hname : ∀ x a₁, (textScript (r.mappingFor q) q.target).run a = (.ok x, a₁) →
      a₁.answer x = f x := by
    intro x a₁ hx
    apply hf (a₁, x)
    simp [hx,pending]
  obtain ⟨a₁,haim,hprimed,hfiles⟩ := approach_run hr hq ha hname
  rw [produce,run_bind,compose,run_bind,haim,Tree.receive]
  rcases hway : a.workspace.files.aim r.workspace.folder (r.manuscript f q).path with ⟨outcome,t₁⟩
  rw [hway] at haim hfiles
  cases outcome with
  | error e => exact ⟨a₁,rfl,hprimed.toSince,hfiles⟩
  | ok aim =>
    have hbody : ∀ x a₂, (namedScript q.template (r.mappingFor q)).run a₁ = (.ok x, a₂) →
        a₂.answer x = f x := by
      intro x a₂ hx
      have hboth :
        (approach q (r.mappingFor q) >>= fun _ => namedScript q.template (r.mappingFor q)).run a =
          (.ok x, a₂) := by
        rw [run_bind,haim]
        exact hx
      apply hf (a₂, x)
      simp only [List.mem_filterMap]
      exact ⟨_,List.mem_cons_of_mem _ (List.mem_singleton.mpr rfl),by rw [hboth]; rfl⟩
    obtain ⟨a₂,hrender,hprimed₂,hfiles₂⟩ := render_run hr hq hprimed hbody
    have hlast : a₂.workspace.files = t₁ := hfiles₂.trans hfiles
    have hforce : a₂.generator.force = r.generator.force := by rw [hprimed₂.generator]
    dsimp only
    rw [run_bind,hrender]
    cases (r.manuscript f q).text with
    | error e => exact ⟨a₂,rfl,hprimed₂.toSince,hlast⟩
    | ok text =>
      have hpure : ∀ d : Delivery, (pure d : Generate Delivery).run a₂ = (.ok d, a₂) := fun _ => rfl
      dsimp only
      rw [run_bind_ok (run_generator _),hpure]
      dsimp only
      rw [deliver_run,hforce,hlast]
      dsimp only
      split
      · exact ⟨a₂,rfl,hprimed₂.toSince,hlast⟩
      · refine ⟨_,rfl,hprimed₂.toSince.outside _ _,?_⟩
        change (a₂.workspace.files.deliver _).2 = _
        rw [hlast]
        rfl

end

end Run

end InterfaceKit
