import InterfaceKit.Proofs.Documents.Built
import InterfaceKit.Proofs.Documents.Loading
import InterfaceKit.Proofs.Workspace.Owners

/-!
# Systems under revision

Systems are made, texts and documents are read into them, and tags are added, in any order and
whether a call succeeds or fails half-way. All the time symbols stand under their names in the part
of the symbol that they tell, and enumerations are plain or flags. In a module whose text was read
to its end all types are well formed.
-/
namespace InterfaceKit
open Data Grammar Lexical Model Files

/-- What a caller may do to systems. -/
inductive Revision where
  | newSystem
  | readText (k : Nat) (profile : Profile) (text : String)
  | readDocument (k : Nat) (profile : Profile) (document : String)
  | addTag (k : Nat) (e : Entity) (tag : Value)
  | addAttribute (k : Nat) (e : Entity) (tag name value : Value)
  | mergeAnnotations (k : Nat) (document : String)

def Revision.act : Revision → Act Unit
  | .newSystem => do
    let _ ← Act.newSystem
    return
  | .readText k profile text => Act.readSystemText k profile text
  | .readDocument k profile document => do
    let _ ← Act.readDocument k profile document
    return
  | .addTag k e tag => do
    let tags := (← Act.system k).tagsOf e
    Act.change (Model.addTag · tags tag)
  | .addAttribute k e tag name value => do
    let tags := (← Act.system k).tagsOf e
    Act.change (Model.addAttribute · tags tag name value)
  | .mergeAnnotations k document => Act.mergeAnnotations k document

/-- A text is read to its end into the system `n`, from the caller or from a document. -/
inductive Revision.Completes (n : Nat) (w : Workspace) : Revision → Prop
  | readText {profile : Profile} {text : String}
      (h : ((Act.readSystemText n profile text).run w).1 = .ok ()) :
      Completes n w (.readText n profile text)
  | readDocument {profile : Profile} {document : String} {text : List Char}
      (htext : ((Act.readText (.ofString document)).run w).1 = .ok text)
      (h : ((Act.readSource n profile document text).run w).1 = .ok ()) :
      Completes n w (.readDocument n profile document)

/-- The workspaces in which the system `n` has been made and revised. In the modules `ids` a text
was read to its end. -/
inductive Workspace.Revised (n : Nat) : List Nat → Workspace → Prop
  | new {w w' : Workspace} (h : Act.newSystem.run w = (.ok n, w')) : Revised n [] w'
  | step {ids : List Nat} {w : Workspace} (h : Revised n ids w) (r : Revision) :
      Revised n ids (r.act.run w).2
  | complete {ids : List Nat} {w : Workspace} (h : Revised n ids w) (r : Revision) (hr :
      r.Completes n w) :
      Revised n ((w.systemAt n).archive.length :: ids) (r.act.run w).2

/-! ## What a revision does to systems -/

theorem Revision.readDocument_systems (k : Nat) (profile : Profile) (document : String)
    (w : Workspace) :
    ((readDocument k profile document).act.run w).2.systems =
      match ((Act.readText (.ofString document)).run w).1 with
      | .ok text => ((Act.readSource k profile document text).run w).2.systems
      | .error _ => w.systems := by
  refine (Act.systems_bind (fun _ => .pure _) w).trans ?_
  unfold Act.readDocument
  refine (Act.systems_bind (fun outcome => ?_) w).trans ?_
  · split
    · exact .pure _
    · exact .throw _
    · have hend : Act.KeepsSystems (do
          if (← get).strictDocuments then throw (.exit (-1))
          return false : Act Bool) := by
        refine .get fun w hw => ?_
        split
        · exact Obeys.throw _ w hw
        · exact Obeys.pure _ w hw
      split
      · exact (Act.KeepsSystems.print _ _).bind fun _ => hend
      · split
        · exact (Act.KeepsSystems.print _ _).bind fun _ => hend
        · exact hend
  · change ((Act.readFile k profile document).run w).2.systems = _
    unfold Act.readFile
    have hstate := Act.run_readText_state (.ofString document) w
    rw [run_bind]
    revert hstate
    rcases (Act.readText (.ofString document)).run w with ⟨r,w'⟩
    rintro rfl
    cases r with
    | error e => rfl
    | ok text => exact Act.systems_bind (fun _ w _ => Act.mergeAnnotations_keepsSystems _ _ w) _

theorem Revision.act_systems (r : Revision) (w : Workspace) :
    (r.act.run w).2.systems = w.systems ∨ (∃ s, (r.act.run w).2.systems = w.systems ++ [s]) ∨
      ∃ k m, m.Kept (w.nextModule k) ∧ (r.act.run w).2.systems = w.systems.modify k fun s =>
      (s.register m).2 := by
  cases r with
  | newSystem => exact .inr (.inl ⟨_,rfl⟩)
  | readText k profile text =>
    rcases readSource_registers k profile "<TEXT>" text.toList w with ⟨hsame,-⟩ | ⟨m,hm,-,hsystems⟩
    · exact .inl hsame
    · exact .inr (.inr ⟨k,m,hm,hsystems⟩)
  | readDocument k profile document =>
    rw [readDocument_systems]
    cases ((Act.readText (.ofString document)).run w).1 with
    | error e => exact .inl rfl
    | ok text =>
      rcases readSource_registers k profile document text w with ⟨hsame,-⟩ | ⟨m,hm,-,hsystems⟩
      · exact .inl hsame
      · exact .inr (.inr ⟨k,m,hm,hsystems⟩)
  | addTag k | addAttribute k =>
    exact .inl (((Act.KeepsSystems.system k).bind fun _ => Act.KeepsSystems.change _) w trivial)
  | mergeAnnotations k document => exact .inl (Act.mergeAnnotations_keepsSystems k document w)

variable {n : Nat} {w : Workspace}

theorem Revision.systemAt_act (r : Revision) (hn : n < w.systems.length) :
    n < (r.act.run w).2.systems.length ∧ ((r.act.run w).2.systemAt n = w.systemAt n ∨
      ∃ m : Module, m.Kept (w.nextModule n) ∧
      (r.act.run w).2.systemAt n = ((w.systemAt n).register m).2) := by
  rcases r.act_systems w with hsame | ⟨s,happend⟩ | ⟨k,m,hm,hsystems⟩
  · exact ⟨hsame ▸ hn,.inl (by rw [Workspace.systemAt,hsame,Workspace.systemAt])⟩
  · have hs : w.systems[n]? = some w.systems[n] := List.getElem?_eq_getElem hn
    have hs' : (r.act.run w).2.systems[n]? = some w.systems[n] := by
      rw [happend,List.getElem?_append_left hn,hs]
    refine ⟨(List.getElem?_eq_some_iff.mp hs').1,.inl ?_⟩
    rw [Workspace.systemAt_of_getElem? hs,Workspace.systemAt_of_getElem? hs']
  · refine ⟨by rwa [hsystems,List.length_modify],?_⟩
    rcases Workspace.systemAt_modify n hsystems with hs | ⟨rfl,hs⟩
    · exact .inl hs
    · exact .inr ⟨m,hm,hs⟩

theorem Revision.Completes.act_systems {r : Revision} (h : r.Completes n w) :
    ∃ m : Module, m.Kept (w.nextModule n) ∧ m.Typed ∧
      (r.act.run w).2.systems = w.systems.modify n fun s => (s.register m).2 := by
  cases h with
  | @readText profile text h =>
    rcases readSource_registers n profile "<TEXT>" text.toList w with
      ⟨-,hfailed⟩ | ⟨m,hm,⟨-,htyped⟩,hsystems⟩
    · exact absurd h hfailed
    · exact ⟨m,hm,htyped h,hsystems⟩
  | @readDocument profile document text htext h =>
    rw [readDocument_systems,htext]
    rcases readSource_registers n profile document text w with
      ⟨-,hfailed⟩ | ⟨m,hm,⟨-,htyped⟩,hsystems⟩
    · exact absurd h hfailed
    · exact ⟨m,hm,htyped h,hsystems⟩

/-! ## What every revision keeps -/

namespace Workspace
variable {n : Nat} {ids : List Nat} {w w' : Workspace}

/-- What is kept of the system `n` and of its modules `ids`. -/
structure Keeps (n : Nat) (ids : List Nat) (w : Workspace) : Prop where
  there : n < w.systems.length
  named : (w.systemAt n).Named
  placed : (w.systemAt n).Placed
  decided : ∀ m ∈ (w.systemAt n).archive, m.enums.All Enum.Decided
  typed : ∀ id ∈ ids, ∃ m, (w.systemAt n).module? id = some m ∧ m.Typed

theorem Keeps.of_systemAt (h : w.Keeps n ids) (hthere : n < w'.systems.length)
    (hsame : w'.systemAt n = w.systemAt n) :
    w'.Keeps n ids := by
  obtain ⟨-,hnamed,hplaced,hdecided,htyped⟩ := h
  exact ⟨hthere,hsame ▸ hnamed,hsame ▸ hplaced,hsame ▸ hdecided,hsame ▸ htyped⟩

theorem Keeps.register (h : w.Keeps n ids) {m : Module} (hm : m.Kept (w.nextModule n))
    (hthere : n < w'.systems.length) (hsystem : w'.systemAt n = ((w.systemAt n).register m).2) :
    w'.Keeps n ids ∧ (w'.systemAt n).module? (w.systemAt n).archive.length = some m := by
  rw [hsystem]
  refine ⟨⟨hthere,?_,?_,?_,?_⟩,?_⟩
  · rw [hsystem]
    exact h.named.register hm.named
  · rw [hsystem]
    exact h.placed.register hm.placed
  · rw [hsystem]
    intro m' hm'
    rcases List.mem_append.mp hm' with hold | hnew
    · exact h.decided m' hold
    · rw [List.mem_singleton.mp hnew]
      exact hm.decided
  · rw [hsystem]
    intro id hid
    obtain ⟨m',hm',htyped⟩ := h.typed id hid
    exact ⟨m',(List.getElem?_append_left (List.getElem?_eq_some_iff.mp hm').1).trans hm',htyped⟩
  · exact List.getElem?_concat_length ..

theorem Keeps.step (h : w.Keeps n ids) (r : Revision) : (r.act.run w).2.Keeps n ids := by
  obtain ⟨hthere,hsame | ⟨m,hm,hsystem⟩⟩ := r.systemAt_act h.there
  · exact h.of_systemAt hthere hsame
  · exact (h.register hm hthere hsystem).1

theorem Revised.keeps (h : w.Revised n ids) : w.Keeps n ids := by
  induction h with
  | @new w w' h =>
    obtain ⟨hthere,tags,hsystem⟩ := systemAt_newSystem h
    refine ⟨hthere,?_,?_,?_,List.forall_mem_nil _⟩
    · rw [hsystem]
      exact ⟨Table.All.nil,List.nodup_nil,List.forall_mem_nil _⟩
    · rw [hsystem]
      exact fun _ _ hm => nomatch hm
    · rw [hsystem]
      exact List.forall_mem_nil _
  | step _ r ih => exact ih.step r
  | @complete ids w _ r hr ih =>
    obtain ⟨m,hm,htyped,hsystems⟩ := hr.act_systems
    have hthere := (r.systemAt_act ih.there).1
    obtain ⟨hkeeps,hmodule⟩ := ih.register hm hthere (systemAt_modify_self hsystems ih.there)
    exact { hkeeps with typed := List.forall_mem_cons.mpr ⟨⟨m,hmodule,htyped⟩,hkeeps.typed⟩ }

/-- Modules and symbols stand under their names, each symbol tells its module and the symbol in
whose part it stands, and enumerations are plain or flags. In a module whose text was read to its
end each type is of one kind at each depth, something is nested in containers and in nothing else,
only operations are `void`, and types have the module of their owner. -/
theorem Revised.wellFormed (hw : w.Revised n ids) :
    let s := w.systemAt n
    s.directory.All (fun name id => ∃ m, s.module? id = some m ∧ m.name = name) ∧
    (∀ id m, s.module? id = some m → m.Named ∧ m.enums.All Enum.Decided) ∧
    (∀ owner part a h, part.owner? = some a → h ∈ w.symbolsIn n owner part →
      (Inquiry.attributeOf (.entity n (.symbol h)) a).act.run w = (.ok (.entity n owner), w) ∧
      (Inquiry.attributeOf (.entity n (.symbol h)) "module").act.run w =
        (.ok (.entity n (.symbol ⟨h.module,.module⟩)), w)) ∧
    ∀ id ∈ ids, (s.module? id).isSome = true ∧ ∀ p, p.hasType = true →
      ((s.common? ⟨id,p⟩).isSome = true → (s.layer? ⟨⟨id,p⟩,0⟩).isSome = true) ∧
      ∀ depth l, s.layer? ⟨⟨id,p⟩,depth⟩ = some l →
        l.kinds.count true = 1 ∧ (s.nested? ⟨⟨id,p⟩,depth⟩).isSome = l.isContainer ∧
        (l.isVoid = true → depth = 0 ∧ p.isOperation = true) ∧
        (Inquiry.attributeOf (.type n ⟨⟨id,p⟩,depth⟩) "module").act.run w =
          (Inquiry.attributeOf (.entity n (.symbol ⟨id,p⟩)) "module").act.run w := by
  intro s
  have hkeeps := hw.keeps
  refine ⟨hkeeps.named.listed,fun id m hm => ?_,fun owner part a h ha hh => ?_,fun id hid => ?_⟩
  · exact ⟨hkeeps.named.module hm,hkeeps.decided m (List.mem_of_getElem? hm)⟩
  · exact ⟨attribute_owner hkeeps.placed ha hh,attribute_module hkeeps.placed h⟩
  · obtain ⟨m,hm,htyped⟩ := hkeeps.typed id hid
    have hcommon : ∀ p, s.common? ⟨id,p⟩ = m.common? p := by
      intro p
      rw [System.common?,hm,Option.bind_some]
    have hlayer : ∀ p depth, s.layer? ⟨⟨id,p⟩,depth⟩ = (m.common? p).bind (·.type.layer? depth) := by
      intro p depth
      rw [System.layer?,hcommon]
    refine ⟨by rw [hm]; rfl,fun p hp => ⟨fun hthere => ?_,fun depth l hl => ?_⟩⟩
    · rw [hcommon] at hthere
      obtain ⟨c,hc⟩ := Option.isSome_iff_exists.mp hthere
      rw [hlayer,hc]
      rfl
    · rw [hlayer] at hl
      obtain ⟨c,hc,hl⟩ := Option.bind_eq_some_iff.mp hl
      obtain ⟨hkind,hnested,hvoid⟩ := (htyped.common? hc).1 hp depth l hl
      refine ⟨hkind,?_,hvoid,?_⟩
      · rw [System.nested?,hlayer,hc,Option.bind_some,hnested,TypeExpr.hasNested]
        cases c.type.layer? (depth + 1) <;> rfl
      · rw [attribute_type_module hkeeps.placed,attribute_module hkeeps.placed]

/-- After a text that was read to its end, one whose number cannot be read, and a tag. -/
theorem half_read_wellFormed :
    let text := "module a 1.0 interface I \x7b model<list<E>> f(map<int> x) \x7d flag E \x7b A \x7d"
    let w₀ := (Act.newSystem.run {}).2
    let w₁ := ((Revision.readText 0 .full text).act.run w₀).2
    let w₂ := ((Revision.readText 0 .full "module b 1.0 enum F \x7b x = 010 \x7d").act.run w₁).2
    let w := ((Revision.addTag 0 (.symbol ⟨0,.operation "I" "f"⟩) (.text "t")).act.run w₂).2
    let f : Handle := ⟨0,.operation "I" "f"⟩
    let x : Handle := ⟨0,.operationParameter "I" "f" "x"⟩
    w.Revised 0 [0] ∧ (w.systemAt 0).directory = [("a", 0),("b", 1)] ∧
      x ∈ w.symbolsIn 0 (.symbol f) .parameters ∧
      (Inquiry.attributeOf (.entity 0 (.symbol x)) "operation").act.run w =
        (.ok (.entity 0 (.symbol f)), w) ∧
      ∀ depth l, (w.systemAt 0).layer? ⟨f,depth⟩ = some l →
        ((w.systemAt 0).nested? ⟨f,depth⟩).isSome = l.isContainer := by
  intro text w₀ w₁ w₂ w f x
  have hnew : w₀.Revised 0 [] := .new (w := {}) rfl
  have hread : (((Act.readSystemText 0 .full text).run w₀).1, (w.systemAt 0).directory,
      w.symbolsIn 0 (.symbol f) .parameters) =
        (.ok (), [("a", 0),("b", 1)], [x]) := by decide +kernel
  obtain ⟨hok,hdirectory,hparameters⟩ := by simpa only [Prod.mk.injEq] using hread
  have hw₁ : w₁.Revised 0 [0] := .complete hnew _ (.readText hok)
  have hw : w.Revised 0 [0] := (hw₁.step _).step _
  obtain ⟨-,-,howner,htypes⟩ := hw.wellFormed
  have hx : x ∈ w.symbolsIn 0 (.symbol f) .parameters := hparameters ▸ List.mem_singleton_self x
  refine ⟨hw,hdirectory,hx,(howner (.symbol f) .parameters "operation" x rfl hx).1,
    fun depth l hl => ?_⟩
  exact (((htypes 0 (List.mem_singleton_self 0)).2 _ rfl).2 depth l hl).2.1

end Workspace

end InterfaceKit
