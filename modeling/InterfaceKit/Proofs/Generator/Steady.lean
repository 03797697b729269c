import InterfaceKit.Proofs.Model.Resolution
import InterfaceKit.Proofs.Workspace.Conduct

/-!
# What a walk leaves alone

From the moment at which a rule document has been read, a walk changes two of the cells that were
there before: the mapping of the generator's own bindings, and the shared one that texts are written
out with. So the document stays as it was read, and writing a document changes neither the bindings
nor the path and the source.
-/
namespace InterfaceKit
open Data Model Files

theorem Act.setItem_run (v k x : Value) (w : Workspace) : (Act.setItem v k x).run w =
    match w.store.setItem v k x with
    | .ok s => (.ok (), { w with store := s })
    | .error e => (.error e, w) := by
  unfold Act.setItem
  rw [run_get_bind,run_bind,Act.run_lift]
  cases w.store.setItem v k x <;> rfl

def Run.bindings (r : Run) : Table Value := r.workspace.store.bindings r.generator.bindings

/-- What is fixed once a rule document has been read: the cells of the bindings and of the shared
bindings of texts, the store, in which the document lies from the cell `start` on, the features, and
the symbols of each system. -/
structure Opening where
  own : Nat
  texts : Nat
  start : Nat
  store : Store
  features : List Value
  visits : Nat → List Visit
  own_lt : own < start
  texts_lt : texts < start
  closed : store.Closed start
  plain : ∀ f ∈ features, ∀ i, f ≠ .ref i

/-- A generator that is following the document. -/
structure Run.Follows (o : Opening) (r : Run) : Prop where
  bindings : r.generator.bindings = .ref o.own
  entries : ∃ es, r.workspace.store.get? o.own = some (.map es) ∧ (textEntries es).names.Nodup
  texts : r.workspace.shared.texts = .ref o.texts
  features : r.generator.features = some o.features
  visits : ∀ n, r.workspace.visits n = o.visits n
  document : ∀ i c, o.start ≤ i → o.store.get? i = some c → r.workspace.store.get? i = some c

/-- Path, source and all bindings stay, but for those of the names in `P`. -/
structure Run.Steady (o : Opening) (P : String → Prop) (r r' : Run) : Prop where
  follows : r'.Follows o
  bindings : ∀ n, ¬ P n → r'.bindings.get? n = r.bindings.get? n
  path : r'.generator.path = r.generator.path
  source : r'.generator.source = r.generator.source

namespace Run
variable {o : Opening} {P : String → Prop} {r r' r'' : Run}

namespace Steady

protected theorem refl (h : r.Follows o) : r.Steady o P r := ⟨h,fun _ _ => rfl,rfl,rfl⟩

protected theorem trans (h : r.Steady o P r') (h' : r'.Steady o P r'') : r.Steady o P r'' :=
  ⟨h'.follows,fun n hn => (h'.bindings n hn).trans (h.bindings n hn),h'.path.trans h.path,
    h'.source.trans h.source⟩

theorem mono {Q : String → Prop} (h : r.Steady o P r') (hPQ : ∀ n, P n → Q n) : r.Steady o Q r' :=
  { h with bindings := fun n hn => h.bindings n fun hP => hn (hPQ n hP) }

end Steady

namespace Follows

theorem bindings_eq (h : r.Follows o) {es : List (Value × Value)}
    (hes : r.workspace.store.get? o.own = some (.map es)) : r.bindings = textEntries es := by
  rw [Run.bindings,h.bindings]
  exact Store.bindings_of_get? hes

theorem grow (h : r.Follows o) {w : Workspace} (hw : r.workspace.Grows w) :
    r.Steady o P { r with workspace := w } := by
  obtain ⟨es,hes,hnodup⟩ := h.entries
  have hshared : w.shared = r.workspace.shared := by rw [hw.rest]
  have hown := hw.cells _ _ hes
  have hfollows : ({ r with workspace := w } : Run).Follows o :=
    { bindings := h.bindings
      entries := ⟨es,hown,hnodup⟩
      texts := hshared ▸ h.texts
      features := h.features
      visits := fun n => (hw.visits_eq n).trans (h.visits n)
      document := fun i c hi hc => hw.cells i c (h.document i c hi hc) }
  exact ⟨hfollows,fun n _ => by rw [hfollows.bindings_eq hown,h.bindings_eq hes],rfl,rfl⟩

/-- The generator may change in all but its bindings and its features. -/
theorem setGenerator (h : r.Follows o) {g : Generator} (hb : g.bindings = r.generator.bindings)
    (hf : g.features = r.generator.features) :
    ({ r with generator := g } : Run).Follows o ∧
    ({ r with generator := g } : Run).bindings = r.bindings := by
  refine ⟨⟨hb.trans h.bindings,h.entries,h.texts,hf.trans h.features,h.visits,h.document⟩,?_⟩
  rw [Run.bindings,Run.bindings,hb]

theorem outside (h : r.Follows o) {w : Workspace} (hstore : w.store = r.workspace.store)
    (hshared : w.shared = r.workspace.shared) (hsystems : w.systems = r.workspace.systems) :
    r.Steady o P { r with workspace := w } := by
  obtain ⟨es,hes,hnodup⟩ := h.entries
  have hfollows : ({ r with workspace := w } : Run).Follows o :=
    { bindings := h.bindings
      entries := ⟨es,hstore ▸ hes,hnodup⟩
      texts := hshared ▸ h.texts
      features := h.features
      visits := fun n =>
        (Workspace.visits_eq (by rw [Workspace.systemAt,hsystems]; rfl)).trans (h.visits n)
      document := fun i c hi hc => hstore ▸ h.document i c hi hc }
  exact ⟨hfollows,fun n _ => by rw [hfollows.bindings_eq (hstore ▸ hes),h.bindings_eq hes],rfl,rfl⟩

/-- A cell before the document is changed. The bindings stay if it is another one than theirs, or if
a name is set to what it stands for. -/
theorem setItem (h : r.Follows o) {j : Nat} (hj : j < o.start) {k v : Value} {s : Store}
    (hs : r.workspace.store.setItem (.ref j) k v = .ok s)
    (hkv : ∀ n, k = .text n → P n ∨ r.bindings.get? n = some v) :
    r.Steady o P { r with workspace.store := s } := by
  obtain ⟨es,hes,hnodup⟩ := h.entries
  have hdocument : ∀ i c, o.start ≤ i → o.store.get? i = some c → s.get? i = some c := by
    intro i c hi hc
    obtain ⟨d,rfl⟩ := Store.setItem_put hs
    rw [Store.get?_put_of_ne (by omega)]
    exact h.document i c hi hc
  obtain ⟨es',hes',hnodup',hsame⟩ := Store.setItem_map hes hnodup hs
  have hfollows : ({ r with workspace.store := s } : Run).Follows o :=
    { bindings := h.bindings
      entries := ⟨es',hes',hnodup'⟩
      texts := h.texts
      features := h.features
      visits := h.visits
      document := hdocument }
  refine ⟨hfollows,fun n hn => ?_,rfl,rfl⟩
  rw [hfollows.bindings_eq hes',h.bindings_eq hes]
  refine hsame n fun hk => ?_
  rw [← h.bindings_eq hes]
  exact (hkv n hk).resolve_left hn

end Follows

end Run

/-- What is steady while the document is followed. -/
def Conduct.steady (o : Opening) (P : String → Prop) : Conduct Run where
  fit := Run.Follows o
  leads := Run.Steady o P
  refl := .refl
  trans _ h h' := h.trans h'
  keeps _ h := h.follows

namespace Generate

/-- Whether it succeeds or fails, it is steady. -/
def Steady {α : Type} (o : Opening) (P : String → Prop) (x : Generate α) : Prop :=
  Obeys (.steady o P) x

theorem run_liftM {α : Type} (x : Act α) (r : Run) : (liftM x : Generate α).run r =
    ((x.run r.workspace).1, { r with workspace := (x.run r.workspace).2 }) := rfl

theorem liftM_bind {α β : Type} (x : Act α) (f : α → Act β) :
    (liftM (x >>= f) : Generate β) = liftM x >>= fun a => liftM (f a) := by
  funext r
  change (liftM (x >>= f) : Generate β).run r = (liftM x >>= fun a => liftM (f a) : Generate β).run r
  rw [run_bind,run_liftM,run_liftM,run_bind]
  rcases x.run r.workspace with ⟨a,w⟩
  cases a <;> rfl

section
variable {o : Opening} {P : String → Prop}

theorem lenient_steady : (Conduct.steady o P).Lenient where
  ask q := fun r hr => hr.grow (q.grows r.workspace)
  print _ _ := fun _ hr => hr.outside rfl rfl rfl
  strict strict := by
    intro r hr
    obtain ⟨hfollows,hbindings⟩ := hr.setGenerator (g := { r.generator with strict }) rfl rfl
    exact ⟨hfollows,fun n _ => congrArg (Table.get? · n) hbindings,rfl,rfl⟩

/-! ## Updating mappings -/

theorem setItem_run (v k x : Value) (r : Run) : (liftM (Act.setItem v k x) : Generate Unit).run r =
    match r.workspace.store.setItem v k x with
    | .ok s => (.ok (), { r with workspace.store := s })
    | .error e => (.error e, r) := by
  rw [run_liftM,Act.setItem_run]
  cases r.workspace.store.setItem v k x <;> rfl

variable {j : Nat} {r : Run} {es : List (Value × Value)}

theorem setItem_steady (hr : r.Follows o) (hj : j < o.start) {k v : Value}
    (hkv : ∀ n, k = .text n → P n ∨ r.bindings.get? n = some v) :
    r.Steady o P ((liftM (Act.setItem (.ref j) k v) : Generate Unit).run r).2 := by
  rw [setItem_run]
  split
  · rename_i s hs
    exact hr.setItem hj hs hkv
  · exact .refl hr

theorem setItems_steady (hr : r.Follows o) (hj : j < o.start)
    (hes : ∀ e ∈ es, ∀ n, e.1 = .text n → P n ∨ r.bindings.get? n = some e.2) :
    r.Steady o P ((liftM (forIn es PUnit.unit fun e _ => do
      Act.setItem (.ref j) e.1 e.2
      pure (ForInStep.yield PUnit.unit) : Act PUnit) : Generate PUnit).run r).2 := by
  induction es generalizing r with
  | nil => exact .refl hr
  | cons e es ih =>
    obtain ⟨he,hes⟩ := List.forall_mem_cons.mp hes
    have hstep := setItem_steady hr hj he
    rw [List.forIn_cons,bind_assoc,liftM_bind,run_bind]
    revert hstep
    rcases (liftM (Act.setItem (.ref j) e.1 e.2) : Generate Unit).run r with ⟨a,r'⟩
    intro hstep
    cases a with
    | error e => exact hstep
    | ok _ =>
      refine hstep.trans (ih hstep.follows fun e' he' n hn => ?_)
      by_cases hP : P n
      · exact .inl hP
      · rw [hstep.bindings n hP]
        exact hes e' he' n hn

/-- A mapping before the document takes over the entries of another one. -/
theorem update_steady (hr : r.Follows o) {i : Nat} (hj : j < o.start) {extra : Value}
    (hextra : r.workspace.store.mapping? extra = some (i, es))
    (hes : ∀ e ∈ es, ∀ n, e.1 = .text n → P n ∨ r.bindings.get? n = some e.2) :
    r.Steady o P ((liftM (Act.update (.ref j) extra) : Generate Unit).run r).2 := by
  have hloop := setItems_steady hr hj hes
  unfold Act.update
  rw [liftM_bind,run_bind_ok
    (show (liftM Act.store : Generate Store).run r = (.ok r.workspace.store, r) from rfl)]
  rw [hextra]
  dsimp only
  rw [liftM_bind,run_bind]
  revert hloop
  rcases (liftM (forIn es PUnit.unit _ : Act PUnit) : Generate PUnit).run r with ⟨a,r'⟩
  cases a <;> exact id

theorem updateOwn_steady (hj : j < o.start) :
    Steady o P (liftM (Act.update (.ref j) (.ref o.own))) := by
  intro r hr
  obtain ⟨es,hes,hnodup⟩ := hr.entries
  have hmap : r.workspace.store.mapping? (.ref o.own) = some (o.own, es) := by
    simp [Store.mapping?,hes]
  refine update_steady hr hj hmap fun e he n hn => .inr ?_
  obtain ⟨k,v⟩ := e
  cases hn
  rw [hr.bindings_eq hes]
  exact Table.get?_of_mem hnodup (mem_textEntries.mpr he)

/-- Whatever a mapping before the document takes over, path and source stay. -/
theorem updateAny_steady (hj : j < o.start) (extra : Value) :
    Steady o (fun _ => True) (liftM (Act.update (.ref j) extra)) := by
  refine .lift fun g => Act.update_obeys (fun q w hw => ?_) (fun k v w hw => ?_) extra
  · exact lenient_steady.ask q ⟨g,w⟩ hw
  · exact setItem_steady (r := ⟨g,w⟩) hw hj fun _ _ => .inl trivial

/-! ## Writing documents -/

theorem join_steady (hj : j < o.start) : Steady o P (join (.ref j)) := by
  refine generator_then fun r hr => ?_
  rw [hr.bindings]
  exact updateOwn_steady hj r hr

theorem apply_steady (template : Value) : Steady o P (apply template) := by
  refine get_then fun r hr => ?_
  rw [hr.texts]
  exact applyWith_obeys lenient_steady (join_steady o.texts_lt) template r hr

theorem prepare_steady (p : Path) : Steady o P (liftM (Act.prepare p)) := by
  unfold Act.prepare
  rw [liftM_bind]
  refine get_then fun r hr => ?_
  split
  · exact hr.outside rfl rfl rfl
  · exact .refl hr

theorem deliver_steady (d : Delivery) : Steady o P (liftM (Act.deliver d)) := by
  unfold Act.deliver
  rw [liftM_bind]
  refine get_then fun r hr => ?_
  split
  · exact .refl hr
  · exact hr.outside rfl rfl rfl

theorem write_steady {q : Request} (hq : q.bindings = none) : Steady o P (write q) := by
  refine write_obeys lenient_steady fun w r hr => ?_
  have hmapping : (if w.store.isTrue (q.bindings.getD .null) = true then q.bindings.getD .null
      else r.generator.bindings) = .ref o.own := by
    simp [hq,Store.isTrue,hr.bindings]
  rw [hmapping]
  exact (compose_obeys lenient_steady prepare_steady (join_steady o.own_lt) q).bind deliver_steady

end

end Generate

end InterfaceKit
