import InterfaceKit.Proofs.Data.Keys
import InterfaceKit.Yaml.Document

/-!
# Documents are closed

The cells of a document lead to each other only, and its mappings have plain keys, each once. Cells
are filled after they were made, so this is shown of all states of a maker: what it made leads to
cells that are there, and none of the values that it may use as keys is a tuple, the only cell that
a mapping would take.
-/
namespace InterfaceKit

namespace Data

/-- A value that is no cell, or one of the cells from `start` up to `size`. -/
def Value.Between (start size : Nat) (v : Value) : Prop := ∀ i, v = .ref i → start ≤ i ∧ i < size

variable {start : Nat} {P : Value → Prop} {es : List (Value × Value)}

theorem Value.Between.mono {n n' : Nat} {v : Value} (h : v.Between start n) (hn : n ≤ n') :
    v.Between start n' := by
  intro i hi
  have := h i hi
  omega

def Cell.values : Cell → List Value
  | list xs | tuple xs | set xs => xs
  | map es => es.flatMap fun e => [e.1,e.2]

/-- The cells from `start` on lead to each other only. -/
def Store.Closed (s : Store) (start : Nat) : Prop :=
  ∀ i c, start ≤ i → s.get? i = some c → ∀ v ∈ c.values, v.Between start s.cells.size

variable {s : Store} {d : Cell}

theorem Store.Closed.alloc (h : s.Closed start)
    (hd : ∀ v ∈ d.values, v.Between start s.cells.size) : (s.alloc d).2.Closed start := by
  intro i c hi hc v hv
  have hbetween : v.Between start s.cells.size := by
    rcases Store.get?_alloc_cases hc with rfl | hc
    · exact hd v hv
    · exact h i c hi hc v hv
  rw [Store.size_alloc]
  exact hbetween.mono (Nat.le_succ _)

theorem Store.Closed.put (h : s.Closed start) (j : Nat)
    (hd : ∀ v ∈ d.values, v.Between start s.cells.size) : (s.put j d).Closed start := by
  intro i c hi hc v hv
  rw [Store.size_put]
  rcases Store.get?_put_cases hc with rfl | hc
  · exact hd v hv
  · exact h i c hi hc v hv

theorem Store.closed_size (s : Store) : s.Closed s.cells.size := by
  intro i c hi hc
  have hlt : i < s.cells.size := (Array.getElem?_eq_some_iff.mp hc).1
  omega

/-- Both sides of every entry satisfy a predicate. -/
def Both (P : Value → Prop) (es : List (Value × Value)) : Prop := ∀ e ∈ es, P e.1 ∧ P e.2

theorem Both.values (h : Both P es) : ∀ v ∈ (Cell.map es).values, P v := by
  intro v hv
  obtain ⟨e,he,hve⟩ := List.mem_flatMap.mp hv
  rcases List.mem_cons.mp hve with rfl | hve
  · exact (h e he).1
  · rw [List.mem_singleton.mp hve]
    exact (h e he).2

theorem Both.setEntry (h : Both P es) (s : Store) {k x : Value} (hk : P k) (hx : P x) :
    Both P (s.setEntry es k x) := by
  induction es with
  | nil => exact List.forall_mem_singleton.mpr ⟨hk,hx⟩
  | cons e es ih =>
    obtain ⟨he,hes⟩ := List.forall_mem_cons.mp h
    rw [Store.setEntry]
    split
    · exact List.forall_mem_cons.mpr ⟨⟨he.1,hx⟩,hes⟩
    · exact List.forall_mem_cons.mpr ⟨he,ih hes⟩

theorem Both.mono {Q : Value → Prop} (h : Both P es) (hPQ : ∀ v, P v → Q v) : Both Q es :=
  fun e he => ⟨hPQ _ (h e he).1,hPQ _ (h e he).2⟩

/-- All mappings have plain keys, each once. -/
def Store.AllKeyed (s : Store) : Prop := ∀ i es, s.get? i = some (.map es) → Keyed es

end Data

namespace Yaml
open Data

structure Document.Proper (d : Document) : Prop where
  root : d.root.Between 0 d.store.cells.size
  closed : d.store.Closed 0
  keyed : d.store.AllKeyed

/-- A reader that makes proper documents only. -/
def Reader.Proper (read : Reader) : Prop := ∀ text d, read text = .ok d → d.Proper

/-! ## States of a maker -/

namespace Maker

/-- A value that leads to a cell that is there, if to any. -/
abbrev Reaches (m : Maker) (v : Value) : Prop := v.Between 0 m.store.cells.size

/-- Such a value that is no tuple. -/
structure Holds (m : Maker) (v : Value) : Prop where
  reaches : m.Reaches v
  not_tuple : ∀ i xs, v = .ref i → m.store.get? i ≠ some (.tuple xs)

structure Proper (m : Maker) : Prop where
  closed : m.store.Closed 0
  keyed : m.store.AllKeyed
  made : ∀ e ∈ m.made, m.Holds e.2

/-- What was made stays. -/
structure Leads (m m' : Maker) : Prop where
  size : m.store.cells.size ≤ m'.store.cells.size
  holds : ∀ v, m.Holds v → m'.Holds v

variable {m m' m'' : Maker} {c : Cell} {v : Value}

theorem Leads.refl (m : Maker) : m.Leads m := ⟨Nat.le_refl _,fun _ => id⟩

theorem Leads.trans (h : m.Leads m') (h' : m'.Leads m'') : m.Leads m'' :=
  ⟨Nat.le_trans h.size h'.size,fun v hv => h'.holds v (h.holds v hv)⟩

theorem Leads.of_store (h : m'.store = m.store) : m.Leads m' := by
  have hsize : m.store.cells.size ≤ m'.store.cells.size := Nat.le_of_eq (by rw [h])
  exact ⟨hsize,fun v hv => ⟨hv.reaches.mono hsize,h ▸ hv.not_tuple⟩⟩

theorem Proper.same (h : m.Proper) (hstore : m'.store = m.store) (hmade : m'.made = m.made) :
    m'.Proper where
  closed := hstore ▸ h.closed
  keyed := hstore ▸ h.keyed
  made e he := (Leads.of_store hstore).holds _ (h.made e (hmade ▸ he))

theorem Leads.reaches (h : m.Leads m') (hv : m.Reaches v) : m'.Reaches v := hv.mono h.size

theorem Leads.both (h : m.Leads m') {es : List (Value × Value)} (hes : Both m.Reaches es) :
    Both m'.Reaches es :=
  hes.mono fun _ => h.reaches

theorem Holds.plain (hv : ∀ i, v ≠ .ref i) : m.Holds v :=
  ⟨fun i hi => absurd hi (hv i),fun i _ hi => absurd hi (hv i)⟩

theorem Holds.ne_ref (h : m.Holds v) (hv : m.store.hashable v = true) (i : Nat) : v ≠ .ref i := by
  rintro rfl
  simp only [Store.hashable] at hv
  split at hv
  · exact h.not_tuple _ _ rfl ‹_›
  · contradiction

theorem leads_alloc (m : Maker) (c : Cell) : m.Leads { m with store := (m.store.alloc c).2 } where
  size := by
    rw [Store.size_alloc]
    exact Nat.le_succ _
  holds v hv := by
    refine ⟨hv.reaches.mono (by rw [Store.size_alloc]; exact Nat.le_succ _),fun i xs hi hcell => ?_⟩
    have hold := Array.getElem?_eq_getElem (hv.reaches i hi).2
    exact hv.not_tuple i xs hi (hold.trans ((Store.get?_alloc hold c).symm.trans hcell))

theorem Proper.alloc (h : m.Proper) (hc : ∀ v ∈ c.values, m.Reaches v)
    (hkeyed : ∀ es, c = .map es → Keyed es) : Proper { m with store := (m.store.alloc c).2 } where
  closed := h.closed.alloc hc
  keyed i es hi := by
    rcases Store.get?_alloc_cases hi with hes | hi
    · exact hkeyed es hes.symm
    · exact h.keyed i es hi
  made e he := (m.leads_alloc c).holds _ (h.made e he)

theorem leads_put (m : Maker) (i : Nat) (hc : ∀ xs, c ≠ .tuple xs) :
    m.Leads { m with store := m.store.put i c } where
  size := Nat.le_of_eq (Store.size_put ..).symm
  holds v hv := by
    refine ⟨hv.reaches.mono (Nat.le_of_eq (Store.size_put ..).symm),fun j xs hj hcell => ?_⟩
    rcases Store.get?_put_cases hcell with htuple | hcell
    · exact hc xs htuple.symm
    · exact hv.not_tuple j xs hj hcell

theorem Proper.put (h : m.Proper) (i : Nat) (hc : ∀ v ∈ c.values, m.Reaches v)
    (hno : ∀ xs, c ≠ .tuple xs) (hkeyed : ∀ es, c = .map es → Keyed es) :
    Proper { m with store := m.store.put i c } where
  closed := h.closed.put i hc
  keyed j es hj := by
    rcases Store.get?_put_cases hj with hes | hj
    · exact hkeyed es hes.symm
    · exact h.keyed j es hj
  made e he := (m.leads_put i hno).holds _ (h.made e he)

end Maker

/-! ## Steps -/

/-- Begun in a proper state, a step that succeeds ends in one, with a result that satisfies `Q`
there. -/
def Ends {α : Type} (m : Maker) (x : Make α) (Q : Maker → α → Prop) : Prop :=
  m.Proper → ∀ a m', x.run m = .ok (a, m') → m'.Proper ∧ m.Leads m' ∧ Q m' a

namespace Ends
variable {α β : Type} {m : Maker} {x : Make α} {f : α → Make β} {Q : Maker → α → Prop}
  {R : Maker → β → Prop}

theorem pure {a : α} (h : Q m a) : Ends m (Pure.pure a) Q := by
  intro hm a' m' hrun
  cases hrun
  exact ⟨hm,.refl m,h⟩

theorem throw (p : Problem) : Ends m (MonadExcept.throw p) Q := by
  intro _ a m' hrun
  cases hrun

theorem fault (node : Node) : Ends m (Make.fault node) Q := throw _

theorem bind (hx : Ends m x Q) (hf : ∀ a m', m.Leads m' → Q m' a → Ends m' (f a) R) :
    Ends m (x >>= f) R := by
  intro hm b m'' hrun
  rw [StateT.run_bind] at hrun
  cases hfirst : x.run m with
  | error e =>
    rw [hfirst] at hrun
    cases hrun
  | ok r =>
    rw [hfirst] at hrun
    obtain ⟨hproper,hleads,hQ⟩ := hx hm r.1 r.2 hfirst
    obtain ⟨hproper',hleads',hR⟩ := hf r.1 r.2 hleads hQ hproper b m'' hrun
    exact ⟨hproper',hleads.trans hleads',hR⟩

theorem fault_bind (node : Node) : Ends m (Make.fault node >>= f) R :=
  (fault node).bind (Q := fun _ _ => False) fun _ _ _ h => h.elim

theorem get {f : Maker → Make β} (h : Ends m (f m) R) : Ends m (MonadState.get >>= f) R := h

theorem mono {Q' : Maker → α → Prop} (h : Ends m x Q) (hQ : ∀ m a, Q m a → Q' m a) :
    Ends m x Q' := by
  intro hm a m' hrun
  obtain ⟨hproper,hleads,ha⟩ := h hm a m' hrun
  exact ⟨hproper,hleads,hQ m' a ha⟩

theorem forIn {f : α → β → Make (ForInStep β)}
    (hf : ∀ a b m, R m b → Ends m (f a b) fun m r => R m r.value) {xs : List α} {b : β}
    (hb : R m b) : Ends m (ForIn.forIn xs b f) R := by
  induction xs generalizing m b with
  | nil => exact pure hb
  | cons a xs ih =>
    rw [List.forIn_cons]
    refine (hf a b m hb).bind fun r m' _ hr => ?_
    cases r with
    | done c => exact pure hr
    | yield c => exact ih hr

theorem mapM {P : Maker → α → Prop} (hP : ∀ m m' a, m.Leads m' → P m a → P m' a)
    (hR : ∀ m m' b, m.Leads m' → R m b → R m' b) (hf : ∀ a m, P m a → Ends m (f a) R) {xs : List α}
    (hxs : ∀ a ∈ xs, P m a) : Ends m (xs.mapM f) fun m bs => ∀ b ∈ bs, R m b := by
  induction xs generalizing m with
  | nil => exact pure fun _ h => absurd h List.not_mem_nil
  | cons a xs ih =>
    obtain ⟨ha,hrest⟩ := List.forall_mem_cons.mp hxs
    rw [List.mapM_cons]
    refine (hf a m ha).bind fun b m₁ hm₁ hb => ?_
    refine (ih fun a' ha' => hP m m₁ a' hm₁ (hrest a' ha')).bind fun bs m₂ hm₂ hbs => ?_
    exact pure (List.forall_mem_cons.mpr ⟨hR m₁ m₂ b hm₂ hb,hbs⟩)

end Ends

/-- A step that looks at the nodes only. -/
def Idle {α : Type} (x : Make α) : Prop := ∀ m, Ends m x fun _ _ => True

namespace Idle
variable {α β : Type} {x : Make α} {m : Maker} {R : Maker → β → Prop}

theorem pure (a : α) : Idle (Pure.pure a) := fun _ => .pure trivial

theorem fault (node : Node) : Idle (Make.fault node : Make α) := fun _ => .fault node

theorem lift (r : Except Failure α) : Idle (Make.lift r) := by
  cases r with
  | ok a => exact pure a
  | error e => exact fun _ => .throw _

theorem andThen {f : α → Make β} (hx : Idle x) (hf : ∀ a m', m.Leads m' → Ends m' (f a) R) :
    Ends m (x >>= f) R :=
  (hx m).bind fun a m' hm' _ => hf a m' hm'

theorem bind {f : α → Make β} (hx : Idle x) (hf : ∀ a, Idle (f a)) : Idle (x >>= f) :=
  fun _ => hx.andThen fun a m' _ => hf a m'

theorem forIn {f : α → β → Make (ForInStep β)} (xs : List α) (b : β) (hf : ∀ a b, Idle (f a b)) :
    Idle (ForIn.forIn xs b f) :=
  fun _ => .forIn (R := fun _ _ => True) (fun a b m _ => hf a b m) trivial

theorem updateGraph (f : Maker → Graph) : Idle (modify fun m => { m with graph := f m }) := by
  intro m hm a m' hrun
  cases hrun
  exact ⟨hm.same rfl rfl,.of_store rfl,trivial⟩

end Idle

/-! ## Making values -/

namespace Make
variable {m : Maker}

theorem nodeAt_idle (id : Nat) : Idle (nodeAt id) := fun _ => .get (.pure trivial)

theorem pairsOf_idle (node : Node) : Idle (pairsOf node) := by
  unfold pairsOf
  split
  · exact .pure _
  · exact .fault _

theorem scalarText_idle (fuel : Nat) (node : Node) : Idle (scalarText fuel node) := by
  induction fuel generalizing node with
  | zero =>
    unfold scalarText
    split
    · exact .pure _
    · rename_i h
      cases h
    · exact .fault _
  | succ fuel ih =>
    unfold scalarText
    split
    · exact .pure _
    · rename_i h
      cases h
      refine .bind (.forIn _ _ fun e b => ?_) fun r => ?_
      · refine (nodeAt_idle _).bind fun node => ?_
        split
        · exact (nodeAt_idle _).bind fun node => (ih node).bind fun _ => .pure _
        · exact .pure _
      · dsimp only
        split
        · exact .pure _
        · exact .fault _
    · exact .fault _

theorem flatten_idle (fuel id : Nat) : Idle (flatten fuel id) := by
  induction fuel generalizing id with
  | zero =>
    unfold flatten
    exact (nodeAt_idle id).bind fun _ => .fault _
  | succ fuel ih =>
    unfold flatten
    refine (nodeAt_idle id).bind fun node => (pairsOf_idle node).bind fun pairs => ?_
    refine .bind (.forIn _ _ fun pair acc => ?_) fun _ => ?_
    · refine (nodeAt_idle pair.1).bind fun key => ?_
      split
      · refine (nodeAt_idle pair.2).bind fun source => ?_
        split
        · exact (ih pair.2).bind fun _ => .pure _
        · refine .bind (.forIn _ _ fun item parts => ?_) fun _ => .pure _
          refine (nodeAt_idle item).bind fun part => ?_
          split
          · exact (ih item).bind fun _ => .pure _
          · exact (Idle.fault part).bind fun _ => .pure _
        · exact (Idle.fault source).bind fun _ => .pure _
      · exact (Idle.updateGraph _).bind fun _ => .pure _
      · exact .pure _
    · exact (Idle.updateGraph _).bind fun _ => .pure _

theorem timestamp_ne_ref (text : List Char) (i : Nat) : Plain.timestamp text ≠ .ok (.ref i) := by
  have hmoment : ∀ (z : Except Failure (Option Int)) (m : Option Int → Moment),
      (z >>= fun zone => if (m zone).isValid then pure (Value.moment (m zone)) else Plain.bad) ≠
        .ok (.ref i) := by
    intro z m h
    cases z with
    | error e => cases h
    | ok zone =>
      change (if (m zone).isValid then pure (Value.moment (m zone)) else Plain.bad) = _ at h
      split at h <;> cases h
  unfold Plain.timestamp
  generalize (if text.getLast? = some '\n' then text.dropLast else text) = text
  dsimp only
  split
  · exact nofun
  · split
    · split <;> exact nofun
    · exact hmoment _ _

theorem alloc_ends (id : Nat) {c : Cell} (hc : c.values = []) (hno : ∀ xs, c ≠ .tuple xs) :
    Ends m (alloc id c) Maker.Holds := by
  intro hm v m' hrun
  cases hrun
  have hcell : (m.store.alloc c).2.get? m.store.cells.size = some c := by
    simp [Store.get?,Store.alloc]
  have hproper := hm.alloc (c := c) (by simp [hc]) (by
    rintro es rfl
    cases es with
    | nil => exact .nil
    | cons e es => simp [Cell.values] at hc)
  refine ⟨hproper.same rfl rfl,(m.leads_alloc c).trans (.of_store rfl),?_,?_⟩
  · rintro i hi
    cases hi
    exact ⟨Nat.zero_le _,(Array.getElem?_eq_some_iff.mp hcell).1⟩
  · rintro i xs hi htuple
    cases hi
    exact hno xs (Option.some.inj (hcell.symm.trans htuple))

theorem create_ends (id : Nat) : Ends m (create id) Maker.Holds := by
  unfold create
  refine (nodeAt_idle id).andThen fun node m _ => .get ?_
  have htext : Idle (scalarText m.graph.nodes.size node) := scalarText_idle _ node
  have hscalar : ∀ {α : Type} (read : List Char → Except Failure α) (f : α → Value),
    (∀ a i, f a ≠ .ref i) →
      Ends m (do return f (← lift (read (← scalarText m.graph.nodes.size node)))) Maker.Holds := by
    intro α read f hf
    exact htext.andThen fun text _ _ => (Idle.lift (read text)).andThen fun a _ _ =>
      .pure (.plain (hf a))
  dsimp only
  split
  · exact htext.andThen fun _ _ _ => .pure (.plain nofun)
  · exact hscalar Plain.bool .bool (by simp)
  · exact hscalar Plain.int .int (by simp)
  · exact hscalar Plain.float .float (by simp)
  · refine htext.andThen fun text m' _ => ?_
    cases hread : Plain.timestamp text with
    | error e => exact .throw _
    | ok v => exact .pure (.plain fun i hi => timestamp_ne_ref text i (hi ▸ hread))
  · exact htext.andThen fun _ _ _ => .pure (.plain nofun)
  · refine htext.andThen fun text m' _ => ?_
    split
    · exact .fault_bind _
    · split
      · exact .pure (.plain nofun)
      · exact .fault _
  · exact alloc_ends id rfl nofun
  · exact alloc_ends id rfl nofun
  · exact alloc_ends id rfl nofun
  · exact alloc_ends id rfl nofun
  · exact alloc_ends id rfl nofun
  · exact .fault _
  · exact .fault _
  · exact .fault _

theorem value_ends (id : Nat) : Ends m (value id) Maker.Holds := by
  unfold value
  refine .get ?_
  split
  · rename_i v hv
    intro hm
    obtain ⟨es,es',hmade,-⟩ := List.lookup_eq_some_iff.mp hv
    exact Ends.pure (hm.made (id,v) (by simp [hmade])) hm
  · refine (create_ends id).bind fun v m' _ hv => ?_
    intro hm u m'' hrun
    cases hrun
    have hleads : m'.Leads { m' with made := (id,v) :: m'.made } := .of_store rfl
    refine ⟨⟨hm.closed,hm.keyed,?_⟩,hleads,hleads.holds v hv⟩
    exact List.forall_mem_cons.mpr ⟨hleads.holds v hv,fun e he => hleads.holds _ (hm.made e he)⟩

/-- Entries with plain keys, each once, and values of the document. -/
def Entries (m : Maker) (es : List (Value × Value)) : Prop :=
  Keyed es ∧ Both m.Reaches es

theorem entries_ends (id : Nat) : Ends m (entries id) Entries := by
  unfold entries
  refine (nodeAt_idle id).andThen fun node m _ => (pairsOf_idle node).andThen fun _ m _ => .get ?_
  refine (flatten_idle _ id).andThen fun pairs m _ => ?_
  refine Ends.bind (Ends.forIn (R := Entries) ?_ ⟨.nil,fun _ h => absurd h List.not_mem_nil⟩)
    fun es m _ hes => .pure hes
  intro pair es m hes
  refine (value_ends pair.1).bind fun key m₁ hm₁ hkey => .get ?_
  dsimp only
  split
  · exact (nodeAt_idle _).andThen fun _ _ _ => .fault_bind _
  · rename_i hhash
    have hplain := hkey.ne_ref (by simpa using hhash)
    refine (value_ends pair.2).bind fun x m₂ hm₂ hx => .get (.pure ?_)
    have hgrown := (hm₁.trans hm₂).both hes.2
    exact ⟨Store.keyed_setEntry _ hes.1 hplain x,
      hgrown.setEntry _ (fun i hi => absurd hi (hplain i)) hx.reaches⟩

theorem listed_ends (id : Nat) : Ends m (listed id) fun m => Both m.Reaches := by
  unfold listed
  refine (nodeAt_idle id).andThen fun node m _ => ?_
  split
  · refine .mapM (P := fun _ _ => True) (R := fun m (e : Value × Value) => m.Reaches e.1 ∧
      m.Reaches e.2) (fun _ _ _ _ h => h) (fun m m' e h he => ⟨h.reaches he.1,h.reaches he.2⟩) ?_
      fun _ _ => trivial
    intro item m _
    refine (nodeAt_idle item).andThen fun part m _ => ?_
    split
    · refine (value_ends _).bind fun a m₁ _ ha => (value_ends _).bind fun b m₂ hm₂ hb => ?_
      exact .pure ⟨hm₂.reaches ha.reaches,hb.reaches⟩
    · exact .fault _
  · exact .fault _

theorem fill_ends (cell id : Nat) : Ends m (fill cell id) fun _ _ => True := by
  have hput : ∀ (c : Cell) (m : Maker), (∀ v ∈ c.values, m.Reaches v) →
      (∀ xs, c ≠ .tuple xs) → (∀ es, c = .map es → Keyed es) →
      Ends m (modify fun s => { s with store := s.store.put cell c }) fun _ _ => True := by
    intro c m hc hno hkeyed hm a m' hrun
    cases hrun
    exact ⟨hm.put cell hc hno hkeyed,m.leads_put cell hno,trivial⟩
  unfold fill
  refine (nodeAt_idle id).andThen fun node m _ => ?_
  dsimp only
  split
  · refine (entries_ends id).bind fun es m₁ _ hes => hput _ m₁ hes.2.values nofun ?_
    rintro _ ⟨⟩
    exact hes.1
  · refine (entries_ends id).bind fun es m₁ _ hes => hput _ m₁ ?_ nofun nofun
    intro v hv
    obtain ⟨e,he,rfl⟩ := List.mem_map.mp hv
    exact (hes.2 e he).1
  iterate 2
    · refine (listed_ends id).bind fun es m₁ _ hes => ?_
      refine Ends.bind (Q := fun m vs => ∀ v ∈ vs, Maker.Reaches m v) (Ends.mapM
        (P := fun m (e : Value × Value) => m.Reaches e.1 ∧ m.Reaches e.2) (R := Maker.Reaches)
          (fun m m' e h he => ⟨h.reaches he.1,h.reaches he.2⟩)
            (fun m m' v h hv => h.reaches hv) ?_ hes)
        fun items m₂ _ hitems => hput _ m₂ hitems nofun nofun
      intro e m he hm v m' hrun
      cases hrun
      refine ⟨hm.alloc (by simpa [Cell.values] using he) nofun,m.leads_alloc _,?_⟩
      rintro i hi
      cases hi
      exact ⟨Nat.zero_le _,by simp [Store.alloc]⟩
  · split
    · refine Ends.bind (Q := fun m vs => ∀ v ∈ vs, Maker.Reaches m v)
        (Ends.mapM (P := fun _ _ => True) (R := Maker.Reaches)
        (fun _ _ _ _ h => h) (fun m m' v h hv => h.reaches hv) ?_ fun _ _ => trivial)
        fun items m₂ _ hitems => hput _ m₂ hitems nofun nofun
      exact fun item m _ => (value_ends item).mono fun _ _ h => h.reaches
    · exact .fault_bind _

theorem fillAll_ends (fuel : Nat) : Ends m (fillAll fuel) fun _ _ => True := by
  induction fuel generalizing m with
  | zero => exact .pure trivial
  | succ fuel ih =>
    unfold fillAll
    refine .get ?_
    dsimp only
    split
    · exact .pure trivial
    · refine Ends.bind (Q := fun _ _ => True) ?_ fun _ _ _ _ => ?_
      · intro hm a m' hrun
        cases hrun
        exact ⟨hm.same rfl rfl,Maker.Leads.of_store rfl,trivial⟩
      · refine Ends.bind (Ends.forIn (R := fun _ _ => True) ?_ trivial) fun _ _ _ _ => ih
        exact fun e _ m _ => (fill_ends e.1 e.2).bind fun _ _ _ _ => .pure trivial

end Make

theorem read_proper : Reader.Proper read := by
  intro text d h
  unfold read at h
  dsimp only at h
  generalize firstUnacceptable _ _ = unacceptable at h
  generalize Graph.ofText _ = outcome at h
  cases unacceptable with
  | some e => cases h
  | none =>
    match outcome with
    | .error line => cases h
    | .ok (none, _) =>
      cases h
      exact ⟨nofun,nofun,nofun⟩
    | .ok (some root, graph) =>
      have hmake : Ends { graph, store := {} } (do
          let v ← Make.value root
          Make.fillAll (graph.nodes.size + 1)
          return v) Maker.Reaches :=
        (Make.value_ends root).bind fun v _ _ hv => (Make.fillAll_ends _).bind fun _ _ hm _ =>
          .pure (hm.reaches hv.reaches)
      dsimp only at h
      revert h
      generalize hrun : StateT.run _ _ = made
      intro h
      cases made with
      | error e => cases h
      | ok r =>
        cases h
        obtain ⟨hm,-,hv⟩ := hmake ⟨nofun,nofun,nofun⟩ r.1 r.2 hrun
        exact ⟨hv,hm.closed,hm.keyed⟩

end Yaml

end InterfaceKit
