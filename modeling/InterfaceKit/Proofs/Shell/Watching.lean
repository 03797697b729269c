import InterfaceKit.Proofs.Documents.Loading
import InterfaceKit.Shell

/-!
# Watching on

A watcher is told of modifications one after the other. As long as every run of its command ends
with a code, each modified file starts one run. After a run that fails, for instance since there is
no such program, the watcher stays marked as running and starts nothing any more.
-/
namespace InterfaceKit

/-- A modification, and what it is to start a program at that time. -/
structure Occasion where
  modification : Modification
  start : List String → Act Int

/-- In this workspace the action ends with a code, be it zero or not. -/
def Act.Ends (a : Act Int) (w : Workspace) : Prop := ∃ code, (a.run w).1 = .ok code

namespace Watcher

/-- Tells a watcher of modifications. A failure is the concern of the one who tells it, and the next
one follows. -/
def noticeAll (h : Watcher) (os : List Occasion) : Act Watcher :=
  os.foldlM (fun h o => return (← h.notice o.start o.modification).2) h

/-- The runs that are due: one for each modified file. -/
def due (command : List String) (os : List Occasion) : List (Act Int) :=
  (os.filter (·.modification = .file)).map (·.start command)

/-- What actions leave behind, carried out in turn whether they fail or not. -/
def left (as : List (Act Int)) (w : Workspace) : Workspace := as.foldl (fun w a => (a.run w).2) w

/-- Carried out in turn, every action ends with a code. -/
def AllEnd : List (Act Int) → Workspace → Prop
  | [], _ => True
  | a :: as, w => a.Ends w ∧ AllEnd as (a.run w).2

section
variable {command : List String} {h : Watcher} {o : Occasion} {os front later : List Occasion}
  {w : Workspace}

theorem due_append (os os' : List Occasion) :
    due command (os ++ os') = due command os ++ due command os' := by
  simp [due]

theorem due_cons_folder (ho : o.modification = .folder) :
    due command (o :: os) = due command os := by
  simp [due,ho]

theorem due_cons_file (ho : o.modification = .file) :
    due command (o :: os) = o.start command :: due command os := by
  simp [due,ho]

theorem allEnd_append (as bs : List (Act Int)) (w : Workspace) :
    AllEnd (as ++ bs) w ↔ AllEnd as w ∧ AllEnd bs (left as w) := by
  induction as generalizing w with
  | nil => simp [AllEnd,left]
  | cons a as ih => simp [AllEnd,ih,left,and_assoc]

/-! ## One modification -/

variable {h' : Watcher} {w' : Workspace} {start : List String → Act Int}

theorem run_noticeAll_cons {r : Except Failure Unit}
    (hrun : (h.notice o.start o.modification).run w = (.ok (r, h'), w')) :
    (noticeAll h (o :: os)).run w = (noticeAll h' os).run w' := by
  rw [noticeAll,List.foldlM_cons,run_bind,run_bind,hrun]
  rfl

theorem run_notice_folder (start : List String → Act Int) (h : Watcher) (w : Workspace) :
    (h.notice start .folder).run w = (.ok (.ok (), h), w) := rfl

theorem run_notice_running (start : List String → Act Int) (hr : h.running = true)
    (m : Modification) (w : Workspace) :
    (h.notice start m).run w = (.ok (.ok (), h), w) := by
  cases m with
  | folder => rfl
  | file =>
    simp only [notice,run,hr,if_true]
    rfl

theorem run_notice_ends (hr : h.running = false) (hends : (start h.command).Ends w) :
    (h.notice start .file).run w = (.ok (.ok (), h), ((start h.command).run w).2) := by
  obtain ⟨code,hcode⟩ := hends
  have hunmarked : { h with running := false } = h := by rw [← hr]
  simp only [notice,run,hr,Bool.false_eq_true,if_false]
  rw [run_bind,Act.run_attempt,hcode,hunmarked]
  rfl

theorem run_notice_fails (hr : h.running = false) (hfails : ¬ (start h.command).Ends w) :
    ∃ e, (h.notice start .file).run w =
      (.ok (.error e, { h with running := true }), ((start h.command).run w).2) := by
  simp only [notice,run,hr,Bool.false_eq_true,if_false]
  rw [run_bind,Act.run_attempt]
  cases hr : ((start h.command).run w).1 with
  | ok code => exact absurd ⟨code,hr⟩ hfails
  | error e => exact ⟨e,rfl⟩

/-! ## Any number of them -/

theorem run_noticeAll_append (hrun : (noticeAll h os).run w = (.ok h', w'))
    (later : List Occasion) : (noticeAll h (os ++ later)).run w = (noticeAll h' later).run w' := by
  rw [noticeAll] at hrun
  rw [noticeAll,List.foldlM_append,run_bind,hrun]
  rfl

theorem run_noticeAll_of_running (hr : h.running = true) (os : List Occasion) (w : Workspace) :
    (noticeAll h os).run w = (.ok h, w) := by
  induction os with
  | nil => rfl
  | cons o os ih => rw [run_noticeAll_cons (run_notice_running o.start hr o.modification w),ih]

/-- While all runs end, each modified file starts one, and the watcher is as it was. -/
theorem run_noticeAll_of_allEnd (hr : h.running = false) (hend : AllEnd (due h.command os) w) :
    (noticeAll h os).run w = (.ok h, left (due h.command os) w) := by
  induction os generalizing w with
  | nil => rfl
  | cons o os ih =>
    obtain ⟨m,start⟩ := o
    cases m with
    | folder =>
      rw [due_cons_folder rfl] at hend ⊢
      rw [run_noticeAll_cons (run_notice_folder start h w),ih hend]
    | file =>
      rw [due_cons_file rfl] at hend ⊢
      rw [run_noticeAll_cons (run_notice_ends hr hend.1),ih hend.2]
      rfl

/-- Behind a run that fails nothing is started. -/
theorem run_noticeAll_of_fails (hr : h.running = false) (hend : AllEnd (due h.command front) w)
    (ho : o.modification = .file)
    (hfails : ¬ (o.start h.command).Ends (left (due h.command front) w)) (later : List Occasion) :
    (noticeAll h (front ++ o :: later)).run w =
      (.ok { h with running := true }, left (due h.command (front ++ [o])) w) := by
  obtain ⟨e,hrun⟩ := run_notice_fails hr hfails
  rw [← ho] at hrun
  have hdue : due h.command (front ++ [o]) = due h.command front ++ [o.start h.command] := by
    rw [due_append,due_cons_file ho]
    rfl
  rw [run_noticeAll_append (run_noticeAll_of_allEnd hr hend),run_noticeAll_cons hrun,
    run_noticeAll_of_running rfl,hdue,left,left,List.foldl_concat]

theorem exists_failing (hfail : ¬ AllEnd (due command os) w) :
    ∃ front o later, os = front ++ o :: later ∧ o.modification = .file ∧
      AllEnd (due command front) w ∧ ¬ (o.start command).Ends (left (due command front) w) := by
  induction os generalizing w with
  | nil => exact absurd trivial hfail
  | cons o os ih =>
    cases ho : o.modification with
    | folder =>
      rw [due_cons_folder ho] at hfail
      obtain ⟨front,o',later,rfl,ho',hend,hfails⟩ := ih hfail
      exact ⟨o :: front,o',later,rfl,ho',by rwa [due_cons_folder ho],by rwa [due_cons_folder ho]⟩
    | file =>
      by_cases hends : (o.start command).Ends w
      · rw [due_cons_file ho] at hfail
        obtain ⟨front,o',later,rfl,ho',hend,hfails⟩ := ih fun h => hfail ⟨hends,h⟩
        exact ⟨o :: front,o',later,rfl,ho',by rw [due_cons_file ho]; exact ⟨hends,hend⟩,
          by rw [due_cons_file ho]; exact hfails⟩
      · exact ⟨[],o,os,rfl,ho,trivial,hends⟩

end

/-- After each modification the watcher is not marked as running, and the runs that were due so far
are just those that were started. This is so if and only if every run ends with a code. After one
that fails the watcher stays marked, and whatever is modified nothing is started. -/
theorem keeps_noticing_iff (command : List String) (os : List Occasion) (w : Workspace) :
    ((∀ before, before <+: os →
        (noticeAll { command } before).run w = (.ok { command }, left (due command before) w)) ↔
      AllEnd (due command os) w) ∧
    ∀ front o, o.modification = .file → AllEnd (due command front) w →
      ¬ (o.start command).Ends (left (due command front) w) → ∀ later, front ++ o :: later <+: os →
        (noticeAll { command } (front ++ o :: later)).run w =
          (.ok { command, running := true }, left (due command (front ++ [o])) w) := by
  refine ⟨⟨fun hkeeps => ?_,?_⟩,fun front o ho hend hfails later _ =>
    run_noticeAll_of_fails rfl hend ho hfails later⟩
  · by_contra hfail
    obtain ⟨front,o,later,rfl,ho,hend,hfails⟩ := exists_failing hfail
    have hmarked := run_noticeAll_of_fails (h := { command }) rfl hend ho hfails later
    exact nomatch hmarked.symm.trans (hkeeps _ (List.prefix_refl _))
  · rintro hend _ ⟨later,rfl⟩
    rw [due_append,allEnd_append] at hend
    exact run_noticeAll_of_allEnd rfl hend.1

/-- There is no such program: the first modified file fails, and the second one is not noticed. -/
theorem missing_program_ends_watching :
    let command := ["no-such-program"]
    let modified : Occasion := ⟨.file,Act.startProgram⟩
    ¬ (modified.start command).Ends {} ∧
      (noticeAll { command } [modified]).run {} = (.ok { command, running := true }, {}) ∧
      (noticeAll { command } [modified,⟨.folder,Act.startProgram⟩,modified]).run {} =
        (.ok { command, running := true }, {}) := by
  intro command modified
  have hfails : ¬ (modified.start command).Ends {} := fun ⟨_,h⟩ => nomatch h
  obtain ⟨-,hmarked⟩ := keeps_noticing_iff command [modified,⟨.folder,Act.startProgram⟩,modified] {}
  exact ⟨hfails,hmarked [] modified rfl trivial hfails [] ⟨_,rfl⟩,
    hmarked [] modified rfl trivial hfails _ (List.prefix_refl _)⟩

end Watcher

end InterfaceKit
