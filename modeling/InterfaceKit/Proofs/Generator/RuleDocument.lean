import InterfaceKit.Proofs.Generator.Steady

/-!
# Reading a rule document

What a document says of its targets and rules can be read off the store as it was when the document
had been read: what a mapping has under a name, whether a target or a rule applies, and what it
sets. A generator that follows the document comes to the same answers, however far it has come.
-/
namespace InterfaceKit
open Data Model Files

/-! ## What a document says -/

namespace Data.Store

def given (s : Store) (rule : Value) (name : String) : Option Value := (s.bindings rule).get? name

/-- What a target or a rule sets under a name. What is empty sets nothing. -/
def setting? (s : Store) (rule : Value) (name : String) : Option Value :=
  (s.given rule name).filter s.isTrue

/-- Whether a target or a rule asks for nothing, or for some feature that is there. -/
def applies (s : Store) (features : List Value) (rule : Value) : Bool :=
  let asked := (s.given rule "when").getD .null
  !s.isTrue asked || features.any fun f => (s.conditions asked).any (s.equal f)

def isFollowed (s : Store) (features : List Value) (rule : Value) : Bool :=
  s.isTrue rule && s.applies features rule

def targets (s : Store) (document : Value) : List (Value × Value) :=
  ((s.mapping? document).map (·.2)).getD []

/-- Whether a name is not among the bindings that a target or a rule adds. -/
def leaves (s : Store) (rule : Value) (name : String) : Bool :=
  match s.given rule "context" with
  | none => true
  | some extra => s.isMapping extra && !(s.bindings extra).names.contains name

theorem any_equal (s : Store) {fs : List Value} (hfs : ∀ f ∈ fs, ∀ i, f ≠ .ref i) (cs : List Value) :
    (fs.any fun f => cs.any (s.equal f)) = fs.any fun f => cs.any f.sameScalar := by
  induction fs with
  | nil => rfl
  | cons f fs ih =>
    obtain ⟨hf,hfs⟩ := List.forall_mem_cons.mp hfs
    have hequal : s.equal f = f.sameScalar := funext fun c => s.same_of_ne_ref hf _ c
    rw [List.any_cons,List.any_cons,ih hfs,hequal]

end Data.Store

namespace Opening

def Reaches (o : Opening) (v : Value) : Prop := v.Between o.start o.store.cells.size

variable {o : Opening} {v : Value}

theorem reaches_null (o : Opening) : o.Reaches .null := nofun

theorem Reaches.get? {i : Nat} (h : o.Reaches (.ref i)) : ∃ c, o.store.get? i = some c := by
  obtain ⟨-,hlt⟩ := h i rfl
  exact ⟨_,Array.getElem?_eq_getElem hlt⟩

theorem Reaches.entries {i : Nat} {es : List (Value × Value)} (h : o.Reaches v)
    (hes : o.store.mapping? v = some (i, es)) : ∀ e ∈ es, o.Reaches e.1 ∧ o.Reaches e.2 := by
  unfold Store.mapping? at hes
  split at hes
  · rename_i j
    split at hes
    · rename_i es' hcell
      cases hes
      intro e he
      have hvalues := o.closed _ _ (h _ rfl).1 hcell
      constructor
      · exact hvalues _ (List.mem_flatMap.mpr ⟨e,he,by simp⟩)
      · exact hvalues _ (List.mem_flatMap.mpr ⟨e,he,by simp⟩)
    · cases hes
  · cases hes

theorem Reaches.given {rule x : Value} (h : o.Reaches rule) {name : String}
    (hx : o.store.given rule name = some x) :
    o.Reaches x := by
  unfold Store.given Store.bindings at hx
  rcases hmap : o.store.mapping? rule with _ | ⟨i,es⟩
  · rw [hmap] at hx
    cases hx
  · rw [hmap] at hx
    exact (h.entries hmap _ (mem_textEntries.mp (Table.mem_of_get? hx))).2

theorem Reaches.target {document : Value} (h : o.Reaches document) :
    ∀ target ∈ o.store.targets document, o.Reaches target.2 := by
  unfold Store.targets
  rcases hmap : o.store.mapping? document with _ | ⟨i,es⟩
  · exact fun _ h => nomatch h
  · exact fun target htarget => (h.entries hmap target htarget).2

end Opening

namespace Run.Follows
variable {o : Opening} {r : Run} {v : Value} (hr : r.Follows o)
include hr

theorem get?_eq {i : Nat} (h : o.Reaches (.ref i)) : r.workspace.store.get? i = o.store.get? i := by
  obtain ⟨c,hc⟩ := h.get?
  rw [hc]
  exact hr.document i c (h i rfl).1 hc

variable (h : o.Reaches v)
include h

theorem mapping?_eq : r.workspace.store.mapping? v = o.store.mapping? v := by
  cases v with
  | ref i => rw [Store.mapping?,Store.mapping?,hr.get?_eq h]
  | _ => rfl

theorem isTrue_eq : r.workspace.store.isTrue v = o.store.isTrue v := by
  cases v with
  | ref i => rw [Store.isTrue,Store.isTrue,hr.get?_eq h]
  | _ => rfl

theorem conditions_eq : r.workspace.store.conditions v = o.store.conditions v := by
  cases v with
  | ref i => rw [Store.conditions,Store.conditions,hr.get?_eq h]
  | _ => rfl

theorem given_eq (name : String) : r.workspace.store.given v name = o.store.given v name := by
  rw [Store.given,Store.given,Store.bindings,Store.bindings,hr.mapping?_eq h]

theorem applies_eq : r.workspace.store.applies o.features v = o.store.applies o.features v := by
  have hasked : o.Reaches ((o.store.given v "when").getD .null) := by
    cases hwhen : o.store.given v "when" with
    | none => exact o.reaches_null
    | some x => exact h.given hwhen
  simp only [Store.applies,Store.any_equal _ o.plain,hr.given_eq h,hr.isTrue_eq hasked,
    hr.conditions_eq hasked]

theorem isFollowed_eq :
    r.workspace.store.isFollowed o.features v = o.store.isFollowed o.features v := by
  rw [Store.isFollowed,Store.isFollowed,hr.isTrue_eq h,hr.applies_eq h]

end Run.Follows

/-! ## What a generator reads -/

namespace Generate

/-- It leaves everything as it is, and gives `f` if it does not fail. -/
def Reads {α : Type} (x : Generate α) (f : Run → α) : Prop :=
  ∀ r, (∃ e, x.run r = (.error e, r)) ∨ x.run r = (.ok (f r), r)

namespace Reads
variable {α β : Type} {x : Generate α} {f : Run → α}

theorem pure (a : α) : Reads (Pure.pure a) fun _ => a := fun _ => .inr rfl

theorem bind {g : α → Generate β} {h : α → Run → β} (hx : Reads x f) (hg : ∀ a, Reads (g a) (h a)) :
    Reads (x >>= g) fun r => h (f r) r := by
  intro r
  rw [run_bind]
  rcases hx r with ⟨e,he⟩ | ha
  · rw [he]
    exact .inl ⟨e,rfl⟩
  · rw [ha]
    exact hg (f r) r

theorem get : Reads MonadState.get Run.workspace := fun _ => .inr rfl

theorem generator : Reads Generate.generator Run.generator := fun _ => .inr rfl

theorem lift (e : Except Failure Unit) : Reads (liftM (Act.lift e)) fun _ => () := by
  intro r
  cases e with
  | error e => exact .inl ⟨e,rfl⟩
  | ok _ => exact .inr rfl

theorem forIn {xs : List α} {g : α → PUnit → Generate (ForInStep PUnit)}
    (hg : ∀ a, Reads (g a PUnit.unit) fun _ => .yield PUnit.unit) :
    Reads (ForIn.forIn xs PUnit.unit g) fun _ => PUnit.unit := by
  induction xs with
  | nil => exact pure _
  | cons a xs ih =>
    rw [List.forIn_cons]
    exact (hg a).bind (h := fun step _ => PUnit.unit) fun step => by
      cases step with
      | done _ => exact pure _
      | yield _ => exact ih

theorem eq_of_ok (hx : Reads x f) {r r' : Run} {a : α} (h : x.run r = (.ok a, r')) :
    a = f r ∧ r' = r := by
  rcases hx r with ⟨e,he⟩ | ha
  · rw [he] at h
    cases h
  · rw [ha] at h
    cases h
    exact ⟨rfl,rfl⟩

theorem obeys {C : Conduct Run} (hx : Reads x f) : Obeys C x := by
  refine .of_eq fun r => ?_
  rcases hx r with ⟨e,he⟩ | ha
  · rw [he]
  · rw [ha]

end Reads

theorem given?_reads (rule : Value) (name : String) :
    Reads (given? rule name) fun r => r.workspace.store.given rule name := by
  unfold given?
  refine Reads.get.bind (h := fun w _ => w.store.given rule name) fun w => ?_
  dsimp only
  rw [Store.given,Store.bindings]
  rcases w.store.mapping? rule with _ | ⟨i,es⟩
  · exact fun _ => .inl ⟨_,rfl⟩
  · dsimp only
    rw [Store.findEntry_text]
    exact .pure _

theorem applies_reads (rule : Value) :
    Reads (applies rule) fun r => r.workspace.store.applies (r.generator.features.getD []) rule := by
  let answer (x : Option Value) (w : Workspace) (g : Generator) : Bool :=
    !w.store.isTrue (x.getD .null) ||
      (g.features.getD []).any fun f => (w.store.conditions (x.getD .null)).any (w.store.equal f)
  unfold applies
  refine (given?_reads rule "when").bind (h := fun x r => answer x r.workspace r.generator)
    fun x => ?_
  refine Reads.get.bind (h := fun w r => answer x w r.generator) fun w => ?_
  dsimp only
  split
  · rename_i hempty
    simp only [answer,hempty,Bool.true_or]
    exact .pure true
  · rename_i hasked
    refine (Reads.forIn fun c => (Reads.lift _).bind fun _ => .pure _).bind
      (h := fun _ r => answer x w r.generator) fun _ => ?_
    refine Reads.generator.bind (h := fun g _ => answer x w g) fun g => ?_
    simp only [answer,Bool.not_eq_true] at hasked ⊢
    simp only [hasked,Bool.false_or]
    exact .pure _

theorem isFollowed_reads (rule : Value) :
    Reads (isFollowed rule) fun r =>
    r.workspace.store.isFollowed (r.generator.features.getD []) rule := by
  unfold isFollowed
  refine Reads.get.bind (h := fun w r => w.store.isTrue rule &&
    r.workspace.store.applies (r.generator.features.getD []) rule) fun w => ?_
  split
  · rename_i hempty
    simp only [Bool.not_eq_true'] at hempty
    simp only [hempty,Bool.false_and]
    exact .pure false
  · rename_i htrue
    simp only [Bool.not_eq_true',Bool.not_eq_false] at htrue
    simp only [htrue,Bool.true_and]
    exact applies_reads rule

theorem targetsOf_reads (document : Value) : Reads (targetsOf document) fun r =>
    r.workspace.store.targets document := by
  unfold targetsOf
  refine Reads.get.bind (h := fun w _ => w.store.targets document) fun w => ?_
  dsimp only
  rw [Store.targets]
  rcases w.store.mapping? document with _ | ⟨i,es⟩
  · exact fun _ => .inl ⟨_,rfl⟩
  · exact .pure es

/-! ## Entering a target or a rule -/

section
variable {o : Opening} {r r' : Run}

theorem run_generator_bind {α : Type} (f : Generator → Generate α) (r : Run) :
    (generator >>= f).run r = (f r.generator).run r := rfl

variable {v rule : Value} {name : String}

theorem ok_of_bindOne (hr : r.Follows o) (h : (bindOne name v).run r = (.ok (), r')) :
    ∃ s, r.workspace.store.setItem (.ref o.own) (.text name) v = .ok s ∧
    r' = { r with workspace.store := s } := by
  unfold bindOne at h
  rw [run_generator_bind,hr.bindings,setItem_run] at h
  split at h
  · rename_i s hs
    cases h
    exact ⟨s,hs,rfl⟩
  · cases h

theorem bindOne_spec (hr : r.Follows o) (h : (bindOne name v).run r = (.ok (), r')) :
    r.Steady o (· = name) r' ∧ r'.bindings.get? name = some v := by
  obtain ⟨s,hs,rfl⟩ := ok_of_bindOne hr h
  have hsteady : r.Steady o (· = name) { r with workspace.store := s } :=
    hr.setItem o.own_lt hs fun n hn => .inl (Value.text.inj hn).symm
  refine ⟨hsteady,?_⟩
  obtain ⟨i,hi,⟨es,hes,rfl⟩ | ⟨xs,ys,hlist,_⟩⟩ := Store.setItem_cases hs
  · cases hi
    rw [hsteady.follows.bindings_eq (Store.get?_put_self hes _),Store.textEntries_setEntry_text]
    exact Table.get?_set _ _ _
  · cases hi
    obtain ⟨es,hes,-⟩ := hr.entries
    rw [hes] at hlist
    cases hlist

/-- Bindings are added: all names stay that a mapping does not have. -/
theorem bind_spec {extra : Value} (hextra : o.Reaches extra) (hr : r.Follows o)
    (h : (bind extra).run r = (.ok (), r')) :
    r.Steady o (fun n => o.store.isMapping extra → n ∈ (o.store.bindings extra).names) r' := by
  unfold bind at h
  rw [run_generator_bind,hr.bindings] at h
  rcases hmap : o.store.mapping? extra with _ | ⟨i,es⟩
  · have hany := updateAny_steady (o := o) o.own_lt extra r hr
    rw [h] at hany
    exact hany.mono fun n _ hmapping => by simp [Store.isMapping,hmap] at hmapping
  · have hes : r.Steady o (· ∈ (o.store.bindings extra).names)
        ((liftM (Act.update (.ref o.own) extra) : Generate Unit).run r).2 := by
      refine update_steady hr o.own_lt ((hr.mapping?_eq hextra).trans hmap) fun e he n hn => .inl ?_
      obtain ⟨k,v⟩ := e
      cases hn
      rw [Store.bindings,hmap]
      exact List.mem_map.mpr ⟨(n, v),mem_textEntries.mpr he,rfl⟩
    rw [h] at hes
    exact hes.mono fun n hn _ => hn

/-- The path is what a text is written out to with the bindings. -/
def WrittenOut (template : Value) (r : Run) : Prop :=
  ∃ r₁ text, (∀ n, r₁.bindings.get? n = r.bindings.get? n) ∧ ((apply template).run r₁).1 = .ok text ∧
    r.generator.path = Path.ofString text

theorem setPath_spec (hv : o.Reaches v) (hr : r.Follows o) (h : (setPath v).run r = (.ok (), r')) :
    r'.Follows o ∧ (∀ n, r'.bindings.get? n = r.bindings.get? n) ∧
      r'.generator.source = r.generator.source ∧
      (o.store.isTrue v = false → r'.generator.path = r.generator.path) ∧
      (o.store.isTrue v = true → WrittenOut v r') := by
  unfold setPath at h
  obtain ⟨w,r₁,hget,h⟩ := ok_of_bind h
  cases hget
  rw [hr.isTrue_eq hv] at h
  split at h
  · rename_i htrue
    obtain ⟨text,r₁,happly,h⟩ := ok_of_bind h
    have hsteady := apply_steady (o := o) (P := fun _ => False) v r hr
    rw [happly] at hsteady
    cases h
    obtain ⟨hfollows,hbindings⟩ := hsteady.follows.setGenerator
      (g := { r₁.generator with path := Path.ofString text }) rfl rfl
    have hsame : ∀ n, r.bindings.get? n = r₁.bindings.get? n := fun n =>
      (hsteady.bindings n not_false).symm
    refine ⟨hfollows,fun n => ?_,hsteady.source,fun hfalse => ?_,
      fun _ => ⟨r,text,fun n => ?_,?_,rfl⟩⟩
    · rw [hsame]
      exact congrArg (Table.get? · n) hbindings
    · rw [htrue] at hfalse
      cases hfalse
    · rw [hsame]
      exact congrArg (Table.get? · n) hbindings.symm
    · rw [happly]
  · rename_i hfalse
    cases h
    exact ⟨hr,fun _ => rfl,rfl,fun _ => rfl,fun htrue => absurd htrue hfalse⟩

theorem setSource_spec (hv : o.Reaches v) (hr : r.Follows o)
    (h : (setSource v).run r = (.ok (), r')) :
    r'.Follows o ∧ r'.bindings = r.bindings ∧ r'.generator.path = r.generator.path ∧
      r'.generator.source = if o.store.isTrue v then v else r.generator.source := by
  unfold setSource at h
  obtain ⟨w,r₁,hget,h⟩ := ok_of_bind h
  cases hget
  rw [hr.isTrue_eq hv] at h
  split at h
  · rename_i htrue
    cases h
    obtain ⟨hfollows,hbindings⟩ := hr.setGenerator (g := { r.generator with source := v }) rfl rfl
    exact ⟨hfollows,hbindings,rfl,(if_pos htrue).symm⟩
  · rename_i hfalse
    cases h
    exact ⟨hr,rfl,rfl,(if_neg hfalse).symm⟩

theorem given?_spec (hrule : o.Reaches rule) (hr : r.Follows o) {x : Option Value}
    (h : (given? rule name).run r = (.ok x, r')) :
    x = o.store.given rule name ∧ r' = r ∧ o.Reaches (x.getD .null) := by
  obtain ⟨hx,rfl⟩ := (given?_reads rule name).eq_of_ok h
  rw [hr.given_eq hrule] at hx
  refine ⟨hx,rfl,?_⟩
  cases x with
  | none => exact o.reaches_null
  | some x => exact hrule.given hx.symm

theorem bindContext_spec (hrule : o.Reaches rule) (hr : r.Follows o)
    (h : (bindContext rule).run r = (.ok (), r')) :
    r.Steady o (fun n => ¬ o.store.leaves rule n) r' := by
  unfold bindContext at h
  obtain ⟨x,r₁,hgiven,hrest⟩ := ok_of_bind h
  obtain ⟨hx,rfl,hreach⟩ := given?_spec hrule hr hgiven
  cases x with
  | none =>
    cases hrest
    exact .refl hr
  | some extra =>
    refine (bind_spec hreach hr hrest).mono fun n hn hleaves => ?_
    simp only [Store.leaves,← hx,Bool.and_eq_true,Bool.not_eq_true',List.contains_eq_mem,
      decide_eq_false_iff_not] at hleaves
    exact hleaves.2 (hn hleaves.1)

/-- What has become of a generator that has entered a target or a rule. -/
structure Entered (o : Opening) (rule : Value) (r r' : Run) : Prop where
  follows : r'.Follows o
  bindings : ∀ n, o.store.leaves rule n → r'.bindings.get? n = r.bindings.get? n
  path : o.store.setting? rule "path" = none → r'.generator.path = r.generator.path
  written : ∀ template, o.store.setting? rule "path" = some template → WrittenOut template r'
  source : r'.generator.source = (o.store.setting? rule "source").getD r.generator.source

theorem enter_spec (hrule : o.Reaches rule) (hr : r.Follows o)
    (h : (enter rule).run r = (.ok (), r')) : Entered o rule r r' := by
  unfold enter at h
  obtain ⟨_,r₂,hbind,hrest⟩ := ok_of_bind h
  have hsteady := bindContext_spec hrule hr hbind
  obtain ⟨p,r₃,hgiven,hafter⟩ := ok_of_bind hrest
  obtain ⟨hp,rfl,hreach⟩ := given?_spec hrule hsteady.follows hgiven
  obtain ⟨_,r₄,hset,hlast⟩ := ok_of_bind hafter
  obtain ⟨hfollows,hbindings,hsource,hkept,hwritten⟩ := setPath_spec hreach hsteady.follows hset
  obtain ⟨q,r₅,hgiven',hend⟩ := ok_of_bind hlast
  obtain ⟨hq,rfl,hreach'⟩ := given?_spec hrule hfollows hgiven'
  obtain ⟨hfollows',hbindings',hpath',hsource'⟩ := setSource_spec hreach' hfollows hend
  refine ⟨hfollows',fun n hn => ?_,fun hnone => ?_,fun template htemplate => ?_,?_⟩
  · rw [hbindings',hbindings,hsteady.bindings n (not_not_intro hn)]
  · rw [hpath',hkept ?_,hsteady.path]
    rw [Store.setting?,← hp,Option.filter_eq_none_iff] at hnone
    cases p with
    | none => rfl
    | some v => simpa using hnone v rfl
  · rw [Store.setting?,← hp,Option.filter_eq_some_iff] at htemplate
    obtain ⟨rfl,htrue⟩ := htemplate
    obtain ⟨r₀,text,hsame,happly,hpath⟩ := hwritten htrue
    exact ⟨r₀,text,fun n => by rw [hsame,hbindings'],happly,hpath'.trans hpath⟩
  · rw [hsource',hsource,hsteady.source,Store.setting?,← hq]
    cases q with
    | none => rfl
    | some v =>
      cases hv : o.store.isTrue v <;> simp [Option.filter,hv]

end

end Generate

end InterfaceKit
