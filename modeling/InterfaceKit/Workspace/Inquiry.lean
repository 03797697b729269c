import InterfaceKit.Workspace

/-!
# Inquiries

Templates and filters ask: they make values, resolve types and print, and leave everything else as
it is. That what is there stays as it is while something is written out belongs to what an inquiry
is.
-/
namespace InterfaceKit
open Data Model Files

/-- What an inquiry may do to a system: resolve types, one after the other. -/
inductive Model.System.Resolves (s : System) : System → Prop where
  | refl : Resolves s s
  | step {s' : System} (h : Resolves s s') (t : TypeHandle) : Resolves s (s'.reference t).2

theorem Model.System.Resolves.trans {s t u : System} (h : s.Resolves t) (h' : t.Resolves u) :
    s.Resolves u := by
  induction h' with
  | refl => exact h
  | step _ t ih => exact ih.step t

/-- What an inquiry may do to a workspace: add cells, resolve types and print. -/
structure Workspace.Grows (w v : Workspace) : Prop where
  cells : ∀ i c, w.store.get? i = some c → v.store.get? i = some c
  count : v.systems.length = w.systems.length
  systems : ∀ n, (w.systems.getD n {}).Resolves (v.systems.getD n {})
  log : ∃ more, v.log = w.log ++ more
  rest : v = { w with store := v.store, systems := v.systems, log := v.log }

namespace Workspace.Grows
variable {w v u : Workspace}

protected theorem refl (w : Workspace) : w.Grows w where
  cells _ _ h := h
  count := rfl
  systems _ := .refl
  log := ⟨[], (List.append_nil _).symm⟩
  rest := rfl

protected theorem trans (h : w.Grows v) (h' : v.Grows u) : w.Grows u where
  cells i c hi := h'.cells i c (h.cells i c hi)
  count := h'.count.trans h.count
  systems n := (h.systems n).trans (h'.systems n)
  log := by
    obtain ⟨xs, hx⟩ := h.log
    obtain ⟨ys, hy⟩ := h'.log
    exact ⟨xs ++ ys, by rw [hy, hx, List.append_assoc]⟩
  rest := by rw [h'.rest, h.rest]

theorem alloc (w : Workspace) (c : Cell) : w.Grows { w with store := (w.store.alloc c).2 } where
  cells i d hi := by
    have hlt : i < w.store.cells.size := (Array.getElem?_eq_some_iff.1 hi).1
    simpa [Store.get?, Store.alloc, Array.getElem?_push_lt hlt,
      Array.getElem?_eq_getElem hlt] using hi
  count := rfl
  systems _ := .refl
  log := ⟨[], (List.append_nil _).symm⟩
  rest := rfl

theorem print (w : Workspace) (log : Log) : w.Grows { w with log := w.log ++ log } where
  cells _ _ h := h
  count := rfl
  systems _ := .refl
  log := ⟨log, rfl⟩
  rest := rfl

theorem reference (w : Workspace) (n : Nat) (t : TypeHandle) :
    w.Grows
      { w with systems := w.systems.modify n fun _ => ((w.systems.getD n {}).reference t).2 } where
  cells _ _ h := h
  count := List.length_modify ..
  systems k := by
    rw [List.getD_eq_getElem?_getD, List.getD_eq_getElem?_getD, List.getElem?_modify]
    by_cases hk : n = k
    · subst hk
      rcases hs : w.systems[n]? with _ | s
      · simpa using .refl
      · simpa [List.getD_eq_getElem?_getD, hs] using System.Resolves.refl.step t
    · simpa [hk] using .refl
  log := ⟨[], (List.append_nil _).symm⟩
  rest := rfl

end Workspace.Grows

/-- An operation that fails leaves the state that it has reached. -/
theorem run_bind {ε σ α β : Type} (x : ExceptT ε (StateM σ) α) (f : α → ExceptT ε (StateM σ) β)
    (s : σ) :
    (x >>= f).run s = match x.run s with
      | (.ok a, s') => (f a).run s'
      | (.error e, s') => (.error e, s') := by
  change (match x.run s with | (a, s') => ExceptT.bindCont f a s') = _
  rcases x.run s with ⟨r, s'⟩
  cases r <;> rfl

section
variable {ε σ α β : Type} {x : ExceptT ε (StateM σ) α} {f : α → ExceptT ε (StateM σ) β} {s s' : σ}

theorem run_bind_ok {a : α} (h : x.run s = (.ok a, s')) : (x >>= f).run s = (f a).run s' := by
  rw [run_bind,h]

theorem run_get_bind (f : σ → ExceptT ε (StateM σ) α) (s : σ) : (get >>= f).run s = (f s).run s :=
  rfl

theorem ok_of_bind {b : β} (h : (x >>= f).run s = (.ok b, s')) :
    ∃ a s₁, x.run s = (.ok a, s₁) ∧ (f a).run s₁ = (.ok b, s') := by
  rw [run_bind] at h
  rcases hx : x.run s with ⟨e | a,s₁⟩
  · rw [hx] at h
    cases h
  · rw [hx] at h
    exact ⟨a,s₁,rfl,h⟩

end

theorem Act.run_lift {α : Type} (r : Except Failure α) (w : Workspace) :
    (Act.lift r).run w = (r, w) := by
  cases r <;> rfl

theorem Act.run_readBytes_state (p : Path) (w : Workspace) : ((Act.readBytes p).run w).2 = w := by
  unfold Act.readBytes
  rw [run_get_bind]
  split
  · rfl
  · split <;> rfl

theorem Act.run_readText_state (p : Path) (w : Workspace) : ((Act.readText p).run w).2 = w := by
  have hbytes := Act.run_readBytes_state p w
  unfold Act.readText
  rw [run_bind]
  revert hbytes
  rcases (Act.readBytes p).run w with ⟨r, v⟩
  intro hv
  cases r with
  | error e => exact hv
  | ok bytes =>
    simp only
    split <;> exact hv

/-- An act that only asks. -/
structure Inquiry (α : Type) where
  act : Act α
  grows (w : Workspace) : w.Grows (act.run w).2

namespace Inquiry
variable {α β : Type}

/-- An act that changes nothing at all. -/
def quiet (x : Act α) (h : ∀ w, (x.run w).2 = w) : Inquiry α where
  act := x
  grows w := by rw [h w]; exact .refl w

theorem grows_bind (x : Inquiry α) (f : α → Inquiry β) (w : Workspace) :
    w.Grows ((x.act >>= fun a => (f a).act).run w).2 := by
  have hx := x.grows w
  rw [run_bind]
  revert hx
  rcases x.act.run w with ⟨r, v⟩
  cases r with
  | error e => exact id
  | ok a => exact fun hx => hx.trans ((f a).grows v)

instance : Monad Inquiry where
  pure a := quiet (pure a) fun _ => rfl
  bind x f := ⟨x.act >>= fun a => (f a).act, grows_bind x f⟩

instance : MonadLift Inquiry Act where
  monadLift x := x.act

instance : CoeOut (Inquiry α) (Act α) where
  coe x := x.act

instance : MonadReaderOf Workspace Inquiry where
  read := quiet get fun _ => rfl

def attempt (x : Inquiry α) : Inquiry (Except Failure α) := ⟨Act.attempt x.act, fun w => x.grows w⟩

instance : MonadExceptOf Failure Inquiry where
  throw e := quiet (throw e) fun _ => rfl
  tryCatch x f := do
    match ← x.attempt with
    | .ok a => return a
    | .error e => f e

def lift : Except Failure α → Inquiry α
  | .ok a => return a
  | .error e => throw e

def print (s : Stream) (text : String) : Inquiry Unit := ⟨Act.print s text, fun w => .print w _⟩

def printAll (log : Log) : Inquiry Unit := ⟨Act.printAll log, fun w => .print w log⟩

def store : Inquiry Store := do return (← read).store

def ask (f : Store → Except Failure α) : Inquiry α := do lift (f (← store))

def alloc (c : Cell) : Inquiry Value := ⟨Act.alloc c, fun w => .alloc w c⟩

def newMap (entries : List (String × Value)) : Inquiry Value :=
  alloc (.map (entries.map fun (k, v) => (.text k, v)))

def newList (items : List Value) : Inquiry Value := alloc (.list items)

def system (n : Nat) : Inquiry System := do return (← read).systems.getD n {}

/-- The symbol that a type refers to; the type is resolved. -/
def reference (n : Nat) (t : TypeHandle) : Inquiry (Option Entity) where
  act := Act.consult n (·.reference t)
  grows w := by
    have hrun : ((Act.consult n (·.reference t)).run w).2 =
        { w with systems := w.systems.modify n fun _ => ((w.systems.getD n {}).reference t).2 } := by
      change ((Act.lift ((w.systems.getD n {}).reference t).1).run _).2 = _
      rw [Act.run_lift]
      rfl
    rw [hrun]
    exact .reference w n t

def isFile (p : Path) : Inquiry Bool := quiet (Act.isFile p) fun _ => rfl

def readText (p : Path) : Inquiry (List Char) := quiet (Act.readText p) (Act.run_readText_state p)

end Inquiry

end InterfaceKit
