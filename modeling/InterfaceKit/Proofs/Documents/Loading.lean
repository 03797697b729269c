import InterfaceKit.Proofs.Workspace.Conduct
import InterfaceKit.Proofs.Yaml.Relocation

/-!
# Loading data documents and merging annotations

A data document is loaded into new cells; messages are all that comes with it. Merging annotations
changes cells. The systems stay as they are, whether it succeeds or fails.
-/
namespace InterfaceKit
open Data Model Files

/-- Cells are added; the systems and the shared bindings stay. -/
structure Workspace.Adds (w w' : Workspace) : Prop where
  cells : ∀ i c, w.store.get? i = some c → w'.store.get? i = some c
  systems : w'.systems = w.systems
  shared : w'.shared = w.shared

/-- How a data document is loaded: it is made, or there is an empty mapping in its place, or nothing
is made. -/
inductive Workspace.Loads (w : Workspace) : Except Failure Value × Workspace → Prop
  | made {text : List Char} {v : Value} {store : Store}
      (h : Yaml.load Yaml.Readers.documents w.store text = .ok (v, store)) :
      w.Loads (.ok v, { w with store })
  | empty (log : Log) : w.Loads ((Act.newMap []).run { w with log })
  | failed (e : Failure) (log : Log) : w.Loads (.error e, { w with log })

namespace Act

theorem run_ask {α : Type} (f : Store → Except Failure α) (w : Workspace) :
    (ask f).run w = (f w.store, w) := by
  have hask : (ask f).run w = (lift (f w.store)).run w := rfl
  rw [hask,run_lift]

theorem run_change {α : Type} (f : Store → Changed α) (w : Workspace) :
    (change f).run w = ((f w.store).1, { w with store := (f w.store).2 }) := by
  have hchange : (change f).run w = (lift (f w.store).1).run { w with store := (f w.store).2 } := rfl
  rw [hchange,run_lift]

theorem run_print (stream : Stream) (text : String) (w : Workspace) :
    (print stream text).run w = (.ok (), { w with log := w.log ++ Log.line stream text }) := rfl

theorem run_store (w : Workspace) : store.run w = (.ok w.store, w) := rfl

theorem run_attempt {α : Type} (x : Act α) (w : Workspace) :
    (attempt x).run w = (.ok (x.run w).1, (x.run w).2) := rfl

end Act

/-- The systems stay as they are. -/
def Conduct.keepsSystems : Conduct Workspace where
  fit _ := True
  leads w w' := w'.systems = w.systems
  refl _ := rfl
  trans _ h h' := h'.trans h
  keeps _ _ := trivial

namespace Act

theorem loadYaml_loads (p : Path) (required : Bool) (w : Workspace) :
    w.Loads ((loadYaml p required).run w) := by
  unfold loadYaml
  rw [run_bind_ok (show (fileExists p).run w = (.ok _, w) from rfl)]
  split
  · split
    · rw [run_bind_ok (run_print ..),run_get_bind]
      split
      · exact .failed ..
      · exact .empty _
    · exact .empty _
  · have hread := run_readText_state p w
    rw [run_bind]
    revert hread
    rcases (readText p).run w with ⟨r,u⟩
    rintro rfl
    cases r with
    | error e => exact .failed ..
    | ok text =>
      dsimp only
      rw [run_get_bind]
      split
      · exact .made ‹_›
      · exact .failed ..
      · rw [run_bind_ok (run_print ..)]
        split
        · exact .failed ..
        · exact .empty _

theorem loadYaml_adds (p : Path) (required : Bool) (w : Workspace) :
    w.Adds ((loadYaml p required).run w).2 := by
  have hloads := loadYaml_loads p required w
  revert hloads
  generalize (loadYaml p required).run w = r
  intro hloads
  cases hloads with
  | made h => exact ⟨fun _ _ => Yaml.load_keeps h,rfl,rfl⟩
  | empty _ => exact ⟨fun _ _ hi => Store.get?_alloc hi _,rfl,rfl⟩
  | failed _ _ => exact ⟨fun _ _ => id,rfl,rfl⟩

/-- The value of a data document lies in new cells, which lead to each other only. -/
theorem loadYaml_fresh {p : Path} {required : Bool} {w w' : Workspace} {v : Value}
    (h : (loadYaml p required).run w = (.ok v, w')) :
    v.Between w.store.cells.size w'.store.cells.size ∧ w'.store.Closed w.store.cells.size := by
  have hloads := loadYaml_loads p required w
  rw [h] at hloads
  generalize hr : (Except.ok v, w') = r at hloads
  cases hloads with
  | made hload =>
    cases hr
    exact Yaml.load_fresh Yaml.read_proper hload
  | empty _ =>
    cases hr
    refine ⟨fun i hi => ?_,w.store.closed_size.alloc (by simp [Cell.values])⟩
    cases hi
    exact ⟨Nat.le_refl _,by simp⟩
  | failed _ _ => cases hr

/-! ## What leaves systems alone -/

abbrev KeepsSystems {α : Type} (x : Act α) : Prop := Obeys .keepsSystems x

theorem systems_bind {α β : Type} {x : Act α} {f : α → Act β} (hf : ∀ a, KeepsSystems (f a))
    (w : Workspace) :
    ((x >>= f).run w).2.systems = (x.run w).2.systems := by
  rw [run_bind]
  rcases x.run w with ⟨a,w'⟩
  cases a with
  | error e => rfl
  | ok a => exact hf a w' trivial

namespace KeepsSystems
variable {α β : Type} {x : Act α}

theorem store : KeepsSystems Act.store := fun _ _ => rfl

theorem system (n : Nat) : KeepsSystems (Act.system n) := fun _ _ => rfl

theorem print (s : Stream) (text : String) : KeepsSystems (Act.print s text) := fun _ _ => rfl

theorem lift (e : Except Failure α) : KeepsSystems (Act.lift e) := by
  refine .of_eq fun w => ?_
  rw [Act.run_lift]

theorem change (f : Store → Changed α) : KeepsSystems (Act.change f) := by
  intro w _
  rw [run_change]
  rfl

theorem ask (f : Store → Except Failure α) : KeepsSystems (Act.ask f) :=
  KeepsSystems.store.bind fun _ => KeepsSystems.lift _

end KeepsSystems

theorem annotateKey_keepsSystems (n : Nat) (data key : Value) :
    KeepsSystems (annotateKey n data key) := by
  unfold annotateKey
  refine (KeepsSystems.ask _).bind fun value => Obeys.bind ?_ fun e =>
    (KeepsSystems.system n).bind fun s => KeepsSystems.change _
  unfold annotated
  split
  · exact (KeepsSystems.system n).bind fun s => KeepsSystems.lift _
  · exact .throw _
  · exact KeepsSystems.store.bind fun _ => .throw _

theorem annotateAll_keepsSystems (n : Nat) (data : Value) : KeepsSystems (annotateAll n data) := by
  unfold annotateAll
  refine KeepsSystems.store.bind fun s => ?_
  split
  · exact KeepsSystems.store.bind fun _ => .throw _
  · refine Obeys.bind (.forIn fun e => ?_) fun _ => .pure _
    refine (annotateKey_keepsSystems n data e.1).bind fun _ => (KeepsSystems.ask _).bind fun _ =>
      .pure _

theorem mergeAnnotations_keepsSystems (n : Nat) (document : String) (w : Workspace) :
    ((mergeAnnotations n document).run w).2.systems = w.systems := by
  have hload : ∀ p required, KeepsSystems (loadYaml p required) := fun p required w _ =>
    (loadYaml_adds p required w).systems
  have hmerge : KeepsSystems (mergeAnnotations n document) := by
    unfold mergeAnnotations
    refine Obeys.bind (fun _ _ => rfl) fun there => ?_
    split
    · exact .pure _
    · refine (hload _ _).bind fun data => KeepsSystems.store.bind fun s => ?_
      split
      · exact (KeepsSystems.print _ _).bind fun _ => .pure _
      · refine (KeepsSystems.print _ _).bind fun _ => Obeys.bind ?_ fun outcome => ?_
        · exact annotateAll_keepsSystems n data
        · split
          · exact .pure _
          · refine (KeepsSystems.print _ _).bind fun _ => .get fun w hw => ?_
            split
            · exact Obeys.throw _ w hw
            · exact Obeys.pure _ w hw
  exact hmerge w trivial

end Act

end InterfaceKit
