import InterfaceKit.Proofs.Generator.Scripts

/-!
# Faults of templates

A fault of a template spoils the document of its request and no other one. The request leaves no
file behind, and the requests after it leave what they would have left without it, although its
folder may have been made and its mapping may have taken over bindings. In strict mode the run ends
with the first fault.
-/
namespace InterfaceKit
open Data Model Files Generate

def Generate.writeAll (qs : List Request) : Generate Unit := qs.forM write

def isFault {α : Type} : Except Failure α → Bool
  | .ok _ => false
  | .error e => e.templateReport?.isSome

theorem Failure.isObstruction_of_report {e : Failure} (h : e.templateReport?.isSome = true) :
    e.isObstruction = false := by
  cases e <;> first | rfl | cases h

namespace Run

/-- The name or the text of a request's document cannot be written out for a fault of a template. -/
def spoilt (r : Run) (q : Request) : Bool :=
  r.isComplete q &&
    isFault ((approach q (r.mappingFor q) >>= fun _ => render q.template (r.mappingFor q)).run r).1

/-- The requests of a run without those that are spoilt. -/
def sound : Run → List Request → List Request
  | _, [] => []
  | r, q :: qs =>
    match (write q).run r with
    | (.error _, _) => q :: qs
    | (.ok (), r') => if r.spoilt q then r'.sound qs else q :: r'.sound qs

def allScripts : Run → List Request → List (Run × Script)
  | _, [] => []
  | r, q :: qs =>
    r.scripts q ++ match (write q).run r with
      | (.error _, _) => []
      | (.ok (), r') => r'.allScripts qs

/-- A script comes to the same whenever it is written out. -/
def Consistent (xs : List (Run × Script)) : Prop :=
  ∀ x ∈ xs, ∀ y ∈ xs, x.2 = y.2 → x.1.answer x.2 = y.1.answer y.2

instance (xs : List (Run × Script)) : Decidable (Consistent xs) :=
  inferInstanceAs (Decidable (∀ x ∈ xs, ∀ y ∈ xs, x.2 = y.2 → x.1.answer x.2 = y.1.answer y.2))

theorem Consistent.exists_answers {xs : List (Run × Script)} (h : Consistent xs) :
    ∃ f : Script → Except Failure String, ∀ x ∈ xs, x.1.answer x.2 = f x.2 := by
  refine ⟨fun s => ((xs.find? fun x => x.2 = s).map fun x => x.1.answer x.2).getD (.ok ""),?_⟩
  intro x hx
  cases hfind : xs.find? fun y => y.2 = x.2 with
  | none =>
    have hno := List.find?_eq_none.mp hfind x hx
    simp at hno
  | some y =>
    have hsame : y.2 = x.2 := by simpa using List.find?_some hfind
    have hanswer := h x hx y (List.mem_of_find?_eq_some hfind) hsame.symm
    simpa [hfind] using hanswer

def tell (r : Run) (s : Stream) (text : String) : Run :=
  { r with workspace.log := r.workspace.log ++ Log.line s text }

section
variable {r r' : Run} {q : Request} {qs : List Request}

/-! ## One request -/

theorem write_run (q : Request) (r : Run) : (write q).run r =
    if r.isComplete q then
      match (produce q (r.mappingFor q)).run r with
      | (.ok (), r') => (.ok (), r')
      | (.error e, r') =>
        match e.templateReport? with
        | none => (.error e, r')
        | some report =>
          (if r'.workspace.strictTemplates then .error (.exit 1) else .ok (), r'.tell .err report)
    else (.ok (), r.tell .out "source or target missing for document") := by
  have hcomplete : (!r.workspace.store.isTrue q.target || !r.workspace.store.isTrue q.template) =
      !r.isComplete q := by
    rw [isComplete,Bool.not_and]
  unfold write
  rw [run_bind,show (get : Generate Workspace).run r = (.ok r.workspace, r) from rfl]
  dsimp only
  rw [hcomplete]
  cases r.isComplete q with
  | false => rfl
  | true =>
    rw [if_neg (by simp),if_pos rfl,run_bind_ok (run_generator _),run_bind]
    have hattempt : (attempt (produce q (r.mappingFor q))).run r =
        (.ok ((produce q (r.mappingFor q)).run r).1, ((produce q (r.mappingFor q)).run r).2) := rfl
    have hmapping :
      (if r.workspace.store.isTrue (q.bindings.getD .null) = true then q.bindings.getD .null
        else r.generator.bindings) = r.mappingFor q := rfl
    rw [hmapping,hattempt]
    rcases (produce q (r.mappingFor q)).run r with ⟨outcome,r'⟩
    cases outcome with
    | ok u => rfl
    | error e =>
      dsimp only
      cases e.templateReport? with
      | none => rfl
      | some report =>
        dsimp only
        have hprint : (liftM (Act.print .err report) : Generate Unit).run r' =
          (.ok (), r'.tell .err report) := rfl
        have hget : (get : Generate Workspace).run (r'.tell .err report) =
          (.ok (r'.tell .err report).workspace, r'.tell .err report) := rfl
        have hstrict :
          (r'.tell .err report).workspace.strictTemplates = r'.workspace.strictTemplates := rfl
        rw [run_bind_ok hprint,run_bind_ok hget,hstrict]
        cases r'.workspace.strictTemplates <;> rfl

/-- A document fails by a fault of a template when it cannot be written out for one, and only
then. -/
theorem isFault_produce (q : Request) (mapping : Value) (r : Run) :
    isFault ((produce q mapping).run r).1 =
    isFault ((approach q mapping >>= fun _ => render q.template mapping).run r).1 := by
  rw [produce,run_bind,compose,run_bind,run_bind]
  rcases (approach q mapping).run r with ⟨aim | aim,r₁⟩
  · rfl
  · dsimp only
    rw [run_bind]
    rcases (render q.template mapping).run r₁ with ⟨text | text,r₂⟩
    · rfl
    · dsimp only
      rw [run_bind,run_generator]
      have hpure : ∀ d : Delivery, (pure d : Generate Delivery).run r₂ = (.ok d, r₂) := fun _ => rfl
      dsimp only
      rw [hpure]
      dsimp only
      rw [deliver_run]
      split <;> rfl

/-- A spoilt document leaves all files as they are, and is reported. Only in strict mode this is a
failure. -/
theorem write_spoilt (h : r.spoilt q = true) :
    ∃ r', (write q).run r = (if r.workspace.strictTemplates then .error (.exit 1) else .ok (), r') ∧
      r.workspace.files.Widens r'.workspace.files := by
  rw [spoilt,Bool.and_eq_true,← isFault_produce] at h
  obtain ⟨hcomplete,hfault⟩ := h
  rw [write_run,if_pos hcomplete]
  rcases hproduce : (produce q (r.mappingFor q)).run r with ⟨e | u,r'⟩
  · rw [hproduce] at hfault
    obtain ⟨report,hreport⟩ := Option.isSome_iff_exists.mp hfault
    have hkeeps := produce_error hproduce
    refine ⟨r'.tell .err report,?_,hkeeps.files⟩
    dsimp only
    rw [hreport,hkeeps.strictTemplates]
  · rw [hproduce] at hfault
    cases hfault

theorem strictTemplates_produce (q : Request) (mapping : Value) (r : Run) :
    ((produce q mapping).run r).2.workspace.strictTemplates = r.workspace.strictTemplates := by
  rcases hproduce : (produce q mapping).run r with ⟨e | u,r'⟩
  · exact (produce_error hproduce).strictTemplates
  · obtain ⟨d,r₁,hcompose,hdeliver⟩ := produce_ok hproduce
    rw [deliver_run] at hdeliver
    split at hdeliver
    · cases hdeliver
    · cases hdeliver
      exact (compose_composed hcompose).keeps.strictTemplates

theorem strictTemplates_write (q : Request) (r : Run) :
    ((write q).run r).2.workspace.strictTemplates = r.workspace.strictTemplates := by
  have hproduce := strictTemplates_produce q (r.mappingFor q) r
  rw [write_run]
  split
  · revert hproduce
    rcases (produce q (r.mappingFor q)).run r with ⟨e | u,r'⟩
    · dsimp only
      cases e.templateReport? <;> exact id
    · exact id
  · rfl

/-! ## Many requests -/

theorem writeAll_cons (q : Request) (qs : List Request) (r : Run) : (writeAll (q :: qs)).run r =
    match (write q).run r with
    | (.ok (), r') => (writeAll qs).run r'
    | (.error e, r') => (.error e, r') := by
  have hcons : writeAll (q :: qs) = write q >>= fun _ => writeAll qs := rfl
  rw [hcons,run_bind]
  rcases (write q).run r with ⟨e | u,r'⟩ <;> rfl

theorem writeAll_append (before after : List Request) (r : Run) :
    (writeAll (before ++ after)).run r =
    match (writeAll before).run r with
    | (.ok (), r') => (writeAll after).run r'
    | (.error e, r') => (.error e, r') := by
  induction before generalizing r with
  | nil => rfl
  | cons q before ih =>
    rw [List.cons_append,writeAll_cons,writeAll_cons]
    rcases (write q).run r with ⟨e | u,r'⟩
    · rfl
    · exact ih r'

theorem strictTemplates_writeAll (qs : List Request) (r : Run) :
    ((writeAll qs).run r).2.workspace.strictTemplates = r.workspace.strictTemplates := by
  induction qs generalizing r with
  | nil => rfl
  | cons q qs ih =>
    have hwrite := strictTemplates_write q r
    rw [writeAll_cons]
    revert hwrite
    rcases (write q).run r with ⟨e | u,r'⟩
    · exact id
    · intro hwrite
      exact (ih r').trans hwrite

end

/-! ## Two runs -/

section
variable {own : Nat} {r a b : Run} {q : Request} {qs all : List Request}
  {f : Script → Except Failure String}

/-- What a request does to the files and how it ends, if faults of templates are only reported. -/
def respond (r : Run) (f : Script → Except Failure String) (q : Request) (t : Tree) :
    Except Failure Unit × Tree :=
  if r.isComplete q then
    match t.receive r.workspace.folder (r.manuscript f q) with
    | (.ok (), t) => (.ok (), t)
    | (.error e, t) => (if e.templateReport?.isSome then .ok () else .error e, t)
  else (.ok (), t)

theorem write_responds (hr : Equipped own r all) (hq : q ∈ all)
    (hlax : r.workspace.strictTemplates = false) (ha : Since own r a)
    (hf : ∀ x ∈ a.scripts q, x.1.answer x.2 = f x.2) :
    ∃ a', (write q).run a = ((r.respond f q a.workspace.files).1, a') ∧ Since own r a' ∧
      a'.workspace.files = (r.respond f q a.workspace.files).2 := by
  rw [write_run,respond,← ha.isComplete_eq hr hq]
  cases hcomplete : a.isComplete q with
  | false => exact ⟨_,rfl,ha.outside _ _,rfl⟩
  | true =>
    obtain ⟨a',hproduce,hsince,hfiles⟩ := produce_run hr hq ha hcomplete hf
    rw [if_pos rfl,if_pos rfl,ha.mappingFor_eq hr hq,hproduce]
    revert hfiles
    rcases a.workspace.files.receive r.workspace.folder (r.manuscript f q) with ⟨e | u,t⟩
    · intro hfiles
      dsimp only
      cases hreport : e.templateReport? with
      | none => exact ⟨a',rfl,hsince,hfiles⟩
      | some report =>
        refine ⟨a'.tell .err report,?_,hsince.outside _ _,hfiles⟩
        dsimp only
        rw [hsince.strictTemplates,hlax]
        rfl
    · intro hfiles
      exact ⟨a',rfl,hsince,hfiles⟩

/-- Folders that were left over do not matter to a request that finds nothing in its way. -/
theorem respond_both {t u u' : Tree} {outcome : Except Failure Unit} (h : t.Widens u)
    (hrespond : r.respond f q u = (outcome, u'))
    (hclear : ∀ e, outcome = .error e → e.isObstruction = false) :
    ∃ t', r.respond f q t = (outcome, t') ∧ t'.Widens u' := by
  unfold respond at hrespond ⊢
  split at hrespond
  · rename_i hcomplete
    rw [if_pos hcomplete]
    rcases hreceive : u.receive r.workspace.folder (r.manuscript f q) with ⟨e | v,u₁⟩
    · rw [hreceive] at hrespond
      dsimp only at hrespond
      have hclear₁ : e.isObstruction = false := by
        cases hreport : e.templateReport?.isSome with
        | true => exact Failure.isObstruction_of_report hreport
        | false =>
          rw [hreport] at hrespond
          cases hrespond
          exact hclear e rfl
      obtain ⟨t₁,hreceive₁,hwidens⟩ := Tree.receive_both h hreceive fun e' he' => by
        rw [← Except.error.inj he',hclear₁]
      cases hrespond
      rw [hreceive₁]
      exact ⟨t₁,rfl,hwidens⟩
    · rw [hreceive] at hrespond
      obtain ⟨t₁,hreceive₁,hwidens⟩ := Tree.receive_both h hreceive (by simp)
      cases hrespond
      rw [hreceive₁]
      exact ⟨t₁,rfl,hwidens⟩
  · rename_i hcomplete
    cases hrespond
    rw [if_neg hcomplete]
    exact ⟨t,rfl,h⟩

/-- The run without the spoilt requests follows the full one: it ends in the same way, with the same
files. -/
theorem writeAll_follows (hr : Equipped own r all) (hlax : r.workspace.strictTemplates = false)
    (hqs : qs ⊆ all) (ha : Since own r a) (hb : Since own r b)
    (hwidens : b.workspace.files.Widens a.workspace.files)
    (hfa : ∀ x ∈ a.allScripts qs, x.1.answer x.2 = f x.2)
    (hfb : ∀ x ∈ b.allScripts (a.sound qs), x.1.answer x.2 = f x.2)
    (hclear : ∀ e, ((writeAll qs).run a).1 = .error e → e.isObstruction = false) :
    ∃ b', (writeAll (a.sound qs)).run b = (((writeAll qs).run a).1, b') ∧
      b'.workspace.files.Widens ((writeAll qs).run a).2.workspace.files := by
  induction qs generalizing a b with
  | nil => exact ⟨b,rfl,hwidens⟩
  | cons q qs ih =>
    have hq : q ∈ all := hqs List.mem_cons_self
    have hrest : qs ⊆ all := fun x hx => hqs (List.mem_cons_of_mem q hx)
    obtain ⟨a',hwrite,hsince,hfiles⟩ := write_responds hr hq hlax ha fun x hx =>
      hfa x (List.mem_append_left _ hx)
    rcases hrespond : r.respond f q a.workspace.files with ⟨outcome,t⟩
    rw [hrespond] at hwrite hfiles
    rw [writeAll_cons,hwrite] at hclear ⊢
    rw [sound,hwrite] at hfb ⊢
    cases outcome with
    | error e =>
      obtain ⟨b',hwrite',-,hfiles'⟩ := write_responds hr hq hlax hb fun x hx =>
        hfb x (List.mem_append_left _ hx)
      obtain ⟨t',hrespond',hwidens'⟩ := respond_both hwidens hrespond hclear
      rw [hrespond'] at hwrite' hfiles'
      refine ⟨b',?_,?_⟩
      · rw [writeAll_cons,hwrite']
      · rw [hfiles,hfiles']
        exact hwidens'
    | ok u =>
      have hfa' : ∀ x ∈ a'.allScripts qs, x.1.answer x.2 = f x.2 := by
        intro x hx
        apply hfa x
        rw [allScripts,hwrite]
        exact List.mem_append_right _ hx
      dsimp only at hfb hclear ⊢
      cases hspoilt : a.spoilt q with
      | true =>
        obtain ⟨a'',hwrite'',hleft⟩ := write_spoilt hspoilt
        rw [hwrite] at hwrite''
        have hsame : a'' = a' := (Prod.mk.inj hwrite'').2.symm
        rw [hsame] at hleft
        rw [hspoilt,if_pos rfl] at hfb
        rw [if_pos rfl]
        exact ih hrest hsince hb (hwidens.trans hleft) hfa' hfb hclear
      | false =>
        rw [hspoilt,if_neg (by simp)] at hfb
        rw [if_neg (by simp)]
        obtain ⟨b',hwrite',hsince',hfiles'⟩ := write_responds hr hq hlax hb fun x hx =>
          hfb x (List.mem_append_left _ hx)
        obtain ⟨t',hrespond',hwidens'⟩ := respond_both hwidens hrespond (by simp)
        rw [hrespond'] at hwrite' hfiles'
        rw [writeAll_cons,hwrite']
        rw [allScripts,hwrite'] at hfb
        apply ih hrest hsince hsince' _ hfa' (fun x hx => hfb x (List.mem_append_right _ hx)) hclear
        rw [hfiles,hfiles']
        exact hwidens'

/-! ## A sample -/

/-- A generator with a template that takes a name from its own bindings and one from those of a
request. -/
def sampleFaulty (strictTemplates : Bool) : Run where
  generator := { folders := ["t"], bindings := .ref 0 }
  workspace :=
    { store := ⟨#[.map [(.text "x", .text "X")],.map [(.text "y", .text "Y")]]⟩
      files :=
        { folders := [["t"]]
          files := [(["t","a"], "\x7b\x7bx\x7d\x7d\x7b\x7by\x7d\x7d".toUTF8.toList)] }
      strictTemplates }

/-- The second request asks for a template that is not there, and the third one has a name that
cannot be read. -/
def sampleDemands : List Request :=
  [{ target := .text "o", template := .text "a", bindings := some (.ref 1) },
    { target := .text "d/p", template := .text "b", bindings := some (.ref 1) },
    { target := .text "\x7b\x7b", template := .text "a" },
    { target := .text "d/\x7b\x7by\x7d\x7d", template := .text "a", bindings := some (.ref 1) }]

/-! ## What faults leave -/

/-- A spoilt document leaves no file and changes none. If faults are only reported, its request
succeeds, and the run ends as it ends without the spoilt requests, with the same files. In strict
mode the run ends at the first spoilt request, with the files of the requests before it. -/
theorem writeAll_spares (own : Nat) (r : Run) (qs : List Request) :
    (r.workspace.strictTemplates = false →
      (∀ before q after a, qs = before ++ q :: after → (writeAll before).run r = (.ok (), a) →
        a.spoilt q = true →
        ∃ a', (write q).run a = (.ok (), a') ∧ a'.workspace.files.files = a.workspace.files.files) ∧
      (Equipped own r qs → Consistent (r.allScripts qs ++ r.allScripts (r.sound qs)) →
        (∀ e, ((writeAll qs).run r).1 = .error e → e.isObstruction = false) →
        ∃ r', (writeAll (r.sound qs)).run r = (((writeAll qs).run r).1, r') ∧
          r'.workspace.files.files = ((writeAll qs).run r).2.workspace.files.files)) ∧
    (r.workspace.strictTemplates = true →
      ∀ before q after a, qs = before ++ q :: after → (writeAll before).run r = (.ok (), a) →
        a.spoilt q = true → ∃ r', (writeAll qs).run r = (.error (.exit 1), r') ∧
          r'.workspace.files.files = a.workspace.files.files) := by
  have hmode : ∀ before a, (writeAll before).run r = (.ok (), a) →
      a.workspace.strictTemplates = r.workspace.strictTemplates := by
    intro before a hrun
    have hsame := strictTemplates_writeAll before r
    rwa [hrun] at hsame
  constructor
  · intro hlax
    constructor
    · intro before q after a _ hrun hspoilt
      obtain ⟨a',hwrite,hleft⟩ := write_spoilt hspoilt
      rw [hmode before a hrun,hlax] at hwrite
      exact ⟨a',hwrite,hleft.files⟩
    · intro hr hpure hclear
      obtain ⟨f,hf⟩ := hpure.exists_answers
      have hsince := Since.refl hr
      obtain ⟨r',hrun,hwidens⟩ := writeAll_follows hr hlax (fun _ h => h) hsince hsince (.refl _)
        (fun x hx => hf x (List.mem_append_left _ hx))
          (fun x hx => hf x (List.mem_append_right _ hx)) hclear
      exact ⟨r',hrun,hwidens.files.symm⟩
  · intro hstrict before q after a hqs hrun hspoilt
    obtain ⟨r',hwrite,hleft⟩ := write_spoilt hspoilt
    rw [hmode before a hrun,hstrict] at hwrite
    refine ⟨r',?_,hleft.files⟩
    rw [hqs,writeAll_append,hrun]
    dsimp only
    rw [writeAll_cons,hwrite]
    rfl

/-- Without the second and the third request the same files are left, one of them in the folder that
the second one has made. In strict mode only the first document is written. -/
theorem sampleFaulty_spared :
    (((sampleFaulty false).sound sampleDemands).map (·.target) =
      [.text "o",.text "d/\x7b\x7by\x7d\x7d"] ∧
      ∃ r', (writeAll ((sampleFaulty false).sound sampleDemands)).run (sampleFaulty false) =
        (.ok (), r') ∧
        r'.workspace.files.files =
          ((writeAll sampleDemands).run (sampleFaulty false)).2.workspace.files.files ∧
        r'.workspace.files.bytes? ["d","Y"] = some "XY".toUTF8.toList) ∧
    ∃ r', (writeAll sampleDemands).run (sampleFaulty true) = (.error (.exit 1), r') ∧
      r'.workspace.files.bytes? ["o"] = some "XY".toUTF8.toList ∧
      r'.workspace.files.bytes? ["d","Y"] = none := by
  constructor
  · have hequipped : Equipped 0 (sampleFaulty false) sampleDemands :=
      { bindings := rfl
        entries := ⟨_,rfl,by decide,by decide⟩
        mappings := by
          intro q hq v hv
          have hv' : v = .ref 1 := by
            simp only [sampleDemands,List.mem_cons,List.not_mem_nil,or_false] at hq
            rcases hq with rfl | rfl | rfl | rfl <;> simp_all
          exact ⟨1,_,hv',rfl⟩
        values := by simp [sampleDemands] }
    have hpure : Consistent ((sampleFaulty false).allScripts sampleDemands ++
        (sampleFaulty false).allScripts ((sampleFaulty false).sound sampleDemands)) := by
          decide +kernel
    have hok : ((writeAll sampleDemands).run (sampleFaulty false)).1 = .ok () := by decide +kernel
    obtain ⟨r',hrun,hfiles⟩ :=
      ((writeAll_spares 0 (sampleFaulty false) sampleDemands).1 rfl).2 hequipped hpure
      (by simp [hok])
    refine ⟨by decide +kernel,r',by rw [hrun,hok],hfiles,?_⟩
    rw [Tree.bytes?,hfiles]
    decide +kernel
  · have hok : ((writeAll (sampleDemands.take 1)).run (sampleFaulty true)).1 = .ok () := by
      decide +kernel
    have hspoilt : ((writeAll (sampleDemands.take 1)).run (sampleFaulty true)).2.spoilt
        { target := .text "d/p", template := .text "b", bindings := some (.ref 1) } = true := by
          decide +kernel
    obtain ⟨r',hrun,hfiles⟩ :=
      (writeAll_spares 0 (sampleFaulty true) sampleDemands).2 rfl (sampleDemands.take 1) _
      (sampleDemands.drop 2) _ rfl (Prod.ext hok rfl) hspoilt
    refine ⟨r',hrun,?_,?_⟩
    · rw [Tree.bytes?,hfiles]
      decide +kernel
    · rw [Tree.bytes?,hfiles]
      decide +kernel

end

end Run

end InterfaceKit
