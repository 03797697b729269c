import InterfaceKit.Proofs.Model.Extending

/-!
# What a walk reads and prints

On its way a walk reads tag lines, default values, numbers and types. Only these can be remarked on,
and only these can stop it. What each of them prints, and why it cannot be read, is known from the
document alone, so the log of a walk and the failure that ends it are known from the row of readings
of its tree.
-/
namespace InterfaceKit.Model
open Data Grammar Lexical

/-- What a walk reads beside names. -/
inductive Reading where
  | tags (lines : List Char)
  | text (quoted : String)
  | number (digits : String)
  | type (layer : Layer)
  /-- A text in which there is a surrogate. -/
  | surrogate

namespace Reading

/-- What is printed about a reading in a module, and why it cannot be made. -/
def outcome [Yaml.Readers] (m : Module) : Reading → Log × Option Failure
  | tags lines =>
    match Yaml.Readers.tags lines with
    | .ok _ => ([], none)
    | .error (.failed e) => ([], some e)
    | .error problem => (Log.line .out problem.message, none)
  | text quoted =>
    match Text.Escape.decodeText ((quoted.toList.drop 1).dropLast) with
    | .ok _ => ([], none)
    | .error _ => ([], some .badEscape)
  | number digits =>
    match integerValue digits with
    | .ok _ => ([], none)
    | .error e => ([], some e)
  | type layer =>
    if Draft.isKnown m layer then ([], none)
    else (Log.line .warning ("Unknown type: " ++ layer.name ++ ". Missing import?"), none)
  | surrogate => ([], some .unencodable)

/-- What is printed when readings are made one after the other, and what the first that cannot be
made fails with. -/
def report [Yaml.Readers] (m : Module) : List Reading → Log × Option Failure
  | [] => ([], none)
  | r :: rs =>
    match r.outcome m with
    | (log, some e) => (log, some e)
    | (log, none) => (log ++ (report m rs).1, (report m rs).2)

section
variable [Yaml.Readers] {m : Module} {r : Reading} {rs ss : List Reading} {e : Failure}

theorem report_cons_of_none (h : (r.outcome m).2 = none) :
    report m (r :: rs) = ((r.outcome m).1 ++ (report m rs).1, (report m rs).2) := by
  rw [report]
  split <;> simp_all

theorem report_cons_of_some (h : (r.outcome m).2 = some e) : report m (r :: rs) = r.outcome m := by
  rw [report]
  split <;> simp_all

theorem report_singleton : report m [r] = r.outcome m := by
  cases h : (r.outcome m).2 with
  | none =>
    rw [report_cons_of_none h,report,List.append_nil]
    exact Prod.ext rfl h.symm
  | some e => exact report_cons_of_some h

theorem report_append_of_none (h : (report m rs).2 = none) :
    report m (rs ++ ss) = ((report m rs).1 ++ (report m ss).1, (report m ss).2) := by
  induction rs with
  | nil => rfl
  | cons r rs ih =>
    cases hr : (r.outcome m).2 with
    | none =>
      rw [report_cons_of_none hr] at h
      rw [List.cons_append,report_cons_of_none hr,report_cons_of_none hr,ih h,List.append_assoc]
    | some e =>
      rw [report_cons_of_some hr,hr] at h
      cases h

theorem report_append_of_some (h : (report m rs).2 = some e) :
    report m (rs ++ ss) = report m rs := by
  induction rs with
  | nil => cases h
  | cons r rs ih =>
    cases hr : (r.outcome m).2 with
    | none =>
      rw [report_cons_of_none hr] at h
      rw [List.cons_append,report_cons_of_none hr,report_cons_of_none hr,ih h]
    | some e => rw [List.cons_append,report_cons_of_some hr,report_cons_of_some hr]

end

/-! ## The readings of a tree -/

def ofTags (t : Tree) : List Reading :=
  let lines := (t.nodesOfRule .tag).map fun l => l.text.toList.drop 1
  if lines.isEmpty then []
  else if (t.nodesOfRule .tag).any (·.hasSurrogate) then [surrogate]
  else [tags (['\n'].intercalate lines)]

def ofType (t : Tree) : List Reading := (Draft.typeOf t).layers.reverse.map type

def ofDefault (t : Tree) : List Reading :=
  (t.token? .string).toList.map fun v => if v.hasSurrogate then surrogate else text v.text

def ofNumber (t : Tree) : List Reading := (t.node? .integer).toList.map fun i => number i.text

def entering : Rule → Tree → List Reading
  | .moduleHead | .interface | .struct | .enum | .signal => ofTags
  | .operation => fun t => ofTags t ++ ofType t
  | .property => fun t => ofTags t ++ (ofType t ++ ofDefault t)
  | .structField => fun t => ofTags t ++ ofDefault t
  | .enumMember => fun t => ofNumber t ++ ofTags t
  | _ => fun _ => []

def leaving : Rule → Tree → List Reading
  | .parameter | .structField => ofType
  | _ => fun _ => []

mutual
/-- What a walk through a tree reads, in this order. -/
def ofTree : Tree → List Reading
  | .leaf _ => []
  | .node r ts => entering r (.node r ts) ++ (ofTrees ts ++ leaving r (.node r ts))

def ofTrees : List Tree → List Reading
  | [] => []
  | t :: ts => ofTree t ++ ofTrees ts
end

theorem ofTrees_eq_nil {ts : List Tree} (h : ∀ t ∈ ts, ofTree t = []) : ofTrees ts = [] := by
  induction ts with
  | nil => rfl
  | cons t ts ih => rw [ofTrees,h t (by simp),ih fun t ht => h t (by simp [ht]),List.append_nil]

theorem ofTree_of_mem_leaves {k : Kind} {o : Option (Word k)} {t : Tree} (h : t ∈ leaves o) :
    ofTree t = [] := by
  cases o with
  | none => cases h
  | some w =>
    obtain rfl := List.mem_singleton.mp h
    rfl

theorem ofTrees_head (y : Phrase.ModuleHead) : ofTrees y.parts = [] := by
  apply ofTrees_eq_nil
  intro t ht
  simp only [Phrase.ModuleHead.parts,Phrase.Annotations.trees,List.mem_append,List.mem_map,
    List.mem_cons,List.not_mem_nil,or_false] at ht
  obtain ((ht | ⟨w,-,rfl⟩) | rfl | rfl | rfl) | ht := ht
  · exact ofTree_of_mem_leaves ht
  · rfl
  · rfl
  · rfl
  · rfl
  · exact ofTree_of_mem_leaves ht

theorem ofTree_import (y : Phrase.Import) : ofTree (.node .importLine y.parts) = [] := by
  have hparts : ofTrees y.parts = [] := by
    apply ofTrees_eq_nil
    intro t ht
    simp only [Phrase.Import.parts,List.mem_append,List.mem_cons,List.not_mem_nil,or_false] at ht
    obtain (rfl | rfl | rfl) | ht := ht
    · rfl
    · rfl
    · rfl
    · exact ofTree_of_mem_leaves ht
  rw [ofTree,hparts]
  rfl

theorem ofTree_document (doc : Phrase.Document) :
    ofTree doc.tree = ofTags (.node .moduleHead doc.header.head.parts) ++
      ofTrees (doc.definitions.map fun x => .node .definition [x.inside]) := by
  have himports : ofTrees (doc.header.imports.map fun y => .node .importLine y.parts) = [] := by
    apply ofTrees_eq_nil
    intro t ht
    obtain ⟨y,-,rfl⟩ := List.mem_map.mp ht
    exact ofTree_import y
  have hhead : ofTree (.node .moduleHead doc.header.head.parts) =
      ofTags (.node .moduleHead doc.header.head.parts) := by
    rw [ofTree,ofTrees_head]
    exact List.append_nil _
  have hheader : ofTree (.node .header doc.header.parts) =
      ofTags (.node .moduleHead doc.header.head.parts) := by
    change [] ++ (ofTrees doc.header.parts ++ []) = _
    rw [Phrase.Header.parts,ofTrees,himports,hhead,List.nil_append,List.append_nil,List.append_nil]
  change [] ++ (ofTrees doc.parts ++ []) = _
  rw [Phrase.Document.parts,ofTrees,hheader,List.nil_append,List.append_nil]

theorem report_ofTags [Yaml.Readers] (m m' : Module) (t : Tree) :
    report m (ofTags t) = report m' (ofTags t) := by
  unfold ofTags
  dsimp only
  split
  · rfl
  · split <;>
    · rw [report_singleton,report_singleton]
      rfl

end Reading

/-! ## Steps that read -/

/-- The module of a draft has the imports of `m`. -/
def Draft.Imports (m : Module) (d : Draft) : Prop := d.module.map (·.imports) = some m.imports

/-- With the imports of `m` an operation prints what the readings print, and fails as the first of
them that fails; or it misses a symbol. -/
def Follows [Yaml.Readers] (m : Module) {α : Type} (x : Drafting α) (rs : List Reading) : Prop :=
  ∀ d : Draft, d.Imports m →
    match x.run d with
    | (.ok _, d') =>
      d'.Imports m ∧ d'.log = d.log ++ (Reading.report m rs).1 ∧ (Reading.report m rs).2 = none
    | (.error (.failed e), d') =>
      d'.log = d.log ++ (Reading.report m rs).1 ∧ (Reading.report m rs).2 = some e
    | (.error _, _) => True

namespace Follows
variable [Yaml.Readers] {m : Module} {α β : Type} {x : Drafting α} {k : α → Drafting β}
  {rs ss : List Reading}

theorem pure (a : α) : Follows m (Pure.pure a) [] := fun _ hd => ⟨hd,(List.append_nil _).symm,rfl⟩

theorem bind (hx : Follows m x rs) (hk : ∀ a, Follows m (k a) ss) :
    Follows m (x >>= k) (rs ++ ss) := by
  intro d hd
  have h := hx d hd
  rw [run_bind]
  revert h
  rcases x.run d with ⟨r,d'⟩
  cases r with
  | ok a =>
    rintro ⟨hd',hlog,hnone⟩
    have h' := hk a d' hd'
    dsimp only
    rw [Reading.report_append_of_none hnone]
    revert h'
    rcases (k a).run d' with ⟨r',d''⟩
    cases r' with
    | ok b =>
      rintro ⟨hd'',hlog',hnone'⟩
      exact ⟨hd'',by rw [hlog',hlog,List.append_assoc],hnone'⟩
    | error o =>
      cases o with
      | failed e =>
        rintro ⟨hlog',hsome⟩
        exact ⟨by rw [hlog',hlog,List.append_assoc],hsome⟩
      | _ => exact id
  | error o =>
    cases o with
    | failed e =>
      rintro ⟨hlog,hsome⟩
      dsimp only
      rw [Reading.report_append_of_some hsome]
      exact ⟨hlog,hsome⟩
    | _ => exact id

theorem after (hx : Follows m x []) (hk : ∀ a, Follows m (k a) ss) : Follows m (x >>= k) ss :=
  hx.bind hk

theorem before (hx : Follows m x rs) (hk : ∀ a, Follows m (k a) []) : Follows m (x >>= k) rs :=
  List.append_nil rs ▸ hx.bind hk

theorem get {f : Draft → Drafting α} (h : ∀ d, d.Imports m → Follows m (f d) rs) :
    Follows m (MonadState.get >>= f) rs := fun d hd => h d hd d hd

theorem modify {f : Draft → Draft} (himports : ∀ d, d.Imports m → (f d).Imports m)
    (hlog : ∀ d, (f d).log = d.log) :
    Follows m (modify f : Drafting Unit) [] :=
  fun d hd => ⟨himports d hd,(hlog d).trans (List.append_nil _).symm,rfl⟩

theorem edit {f : Module → Module} (h : ∀ m, (f m).imports = m.imports) :
    Follows m (Drafting.edit f) [] := by
  refine modify (fun d hd => ?_) fun _ => rfl
  obtain ⟨m',hm',himports⟩ := Option.map_eq_some_iff.mp hd
  change (d.module.map f).map (·.imports) = some m.imports
  rw [hm',Option.map_some,Option.map_some,h,himports]

theorem turn (f : Focus → Focus) : Follows m (Drafting.turn f) [] :=
  modify (fun _ => id) fun _ => rfl

theorem need (o : Obstacle) (ho : ∀ e, o ≠ .failed e) (a : Option α) :
    Follows m (Drafting.need o a) [] := by
  cases a with
  | some a => exact pure a
  | none =>
    intro d hd
    cases o with
    | failed e => exact absurd rfl (ho e)
    | _ => trivial

theorem fresh (name : String) : Follows m (Drafting.fresh name) [] :=
  fun _ hd => ⟨hd,(List.append_nil _).symm,rfl⟩

/-- Nothing is read before there is the symbol of a declaration. -/
theorem declare {γ : Type} {o : Obstacle} (ho : ∀ e, o ≠ .failed e) {f : Draft → Option α}
    {name : String} {k : α → Common → Drafting γ} (hk : ∀ a c, Follows m (k a c) rs) :
    Follows m (do
      let a ← Drafting.need o (f (← MonadState.get))
      let c ← Drafting.fresh name
      k a c) rs :=
  get fun _ _ => after (need o ho _) fun a => after (fresh _) fun c => hk a c

variable {r : Reading}

theorem quiet (h : r.outcome m = ([], none)) (hx : Follows m x []) : Follows m x [r] := by
  unfold Follows
  rw [Reading.report_singleton,h]
  exact hx

theorem print {s : Stream} {text : String} (h : r.outcome m = (Log.line s text, none)) :
    Follows m (Drafting.print s text) [r] := by
  intro d hd
  rw [Reading.report_singleton,h]
  exact ⟨hd,rfl,rfl⟩

theorem throw {e : Failure} (h : r.outcome m = ([], some e)) :
    Follows m (MonadExcept.throw (.failed e) : Drafting α) [r] := by
  intro d hd
  rw [Reading.report_singleton,h]
  exact ⟨(List.append_nil _).symm,rfl⟩

theorem forM {γ : Type} {body : γ → Drafting Unit} {f : γ → Reading}
    (h : ∀ c, Follows m (body c) [f c]) (cs : List γ) :
    Follows m (cs.forM body) (cs.map f) := by
  induction cs with
  | nil => exact pure _
  | cons c cs ih => exact (h c).bind fun _ => ih

end Follows

theorem Module.imports_modifyCommon (m : Module) (p : Place) (f : Common → Common) :
    (m.modifyCommon p f).imports = m.imports := by
  cases p <;> rfl

theorem Draft.isKnown_congr {m m' : Module} (h : m'.imports = m.imports) (l : Layer) :
    isKnown m' l = isKnown m l := by
  rw [isKnown,isKnown,h]

namespace Drafting
variable {m : Module}

/-! ## Values -/

theorem readTags_follows [Yaml.Readers] (p : Place) (t : Tree) :
    Follows m (readTags p t) (Reading.ofTags t) := by
  unfold readTags Reading.ofTags
  dsimp only
  split
  · exact .pure _
  · split
    · exact .throw rfl
    · refine Follows.get fun d _ => ?_
      generalize ['\n'].intercalate _ = lines
      cases hread : (Yaml.Readers.tags lines : Except Yaml.Problem Yaml.Document) with
      | ok x =>
        rw [Yaml.load_of_ok hread]
        refine Follows.quiet (by rw [Reading.outcome,hread])
          (Follows.after (.modify (fun _ => id) fun _ => rfl) fun _ => .edit fun m => ?_)
        exact m.imports_modifyCommon p _
      | error problem =>
        rw [Yaml.load_error_iff.mpr hread]
        cases problem with
        | failed e => exact .throw (by rw [Reading.outcome,hread])
        | _ => exact .print (by rw [Reading.outcome,hread])

theorem annotate_follows [Yaml.Readers] (p : Place) (t : Tree) :
    Follows m (annotate p t) (Reading.ofTags t) := by
  unfold annotate readComment
  refine Follows.after ?_ fun _ => readTags_follows p t
  split
  · exact .edit fun m => m.imports_modifyCommon p _
  · exact .pure _

theorem checkKnown_follows [Yaml.Readers] (l : Layer) : Follows m (checkKnown l) [.type l] := by
  refine Follows.get fun d hd => ?_
  obtain ⟨m',hm',himports⟩ := Option.map_eq_some_iff.mp hd
  have hknown : d.module.all (Draft.isKnown · l) = Draft.isKnown m l := by
    rw [hm',Option.all_some,Draft.isKnown_congr himports]
  rw [hknown]
  cases hl : Draft.isKnown m l with
  | true => exact .quiet (by rw [Reading.outcome,hl]; rfl) (.pure _)
  | false => exact .print (by rw [Reading.outcome,hl]; rfl)

theorem giveType_follows [Yaml.Readers] (p : Place) (t : Tree) :
    Follows m (giveType p t) (Reading.ofType t) :=
  Follows.after (.edit fun m => m.imports_modifyCommon p _) fun _ => .forM checkKnown_follows _

theorem defaultValue_follows [Yaml.Readers] (t : Tree) :
    Follows m (defaultValue t) (Reading.ofDefault t) := by
  unfold defaultValue Reading.ofDefault
  cases t.token? .string with
  | none => exact .pure _
  | some v =>
    dsimp only [Option.toList,List.map]
    split
    · exact .throw rfl
    · cases hdecode : Text.Escape.decodeText ((v.text.toList.drop 1).dropLast) with
      | ok codes => exact .quiet (by rw [Reading.outcome,hdecode]) (.pure _)
      | error _ => exact .throw (by rw [Reading.outcome,hdecode])

theorem memberNumber_follows [Yaml.Readers] (t : Tree) :
    Follows m (memberNumber t) (Reading.ofNumber t) := by
  unfold memberNumber Reading.ofNumber
  cases t.node? .integer with
  | none => exact Follows.get fun _ _ => .pure _
  | some i =>
    dsimp only [Option.toList,List.map]
    cases hvalue : integerValue i.text with
    | ok v => exact .quiet (by rw [Reading.outcome,hvalue]) (.pure _)
    | error e => exact .throw (by rw [Reading.outcome,hvalue])

/-! ## Handlers -/

theorem enter_follows [Yaml.Readers] {r : Rule} (hhead : r ≠ .moduleHead)
    (himport : r ≠ .importLine) (t : Tree) :
    Follows m (enter r t) (Reading.entering r t) := by
  cases r with
  | moduleHead => exact absurd rfl hhead
  | importLine => exact absurd rfl himport
  | interface =>
    refine .declare (by nofun) fun _ _ => .after (.edit fun _ => rfl) fun _ =>
      .after (.turn _) fun _ => ?_
    exact (annotate_follows _ t).before fun _ => .edit fun _ => rfl
  | struct | enum | signal =>
    refine .declare (by nofun) fun _ _ => .after (.edit fun _ => rfl) fun _ =>
      .after (.turn _) fun _ => ?_
    exact annotate_follows _ t
  | enumKind =>
    refine Follows.get fun d _ => Follows.after (.need _ (by nofun) _) fun e =>
      Follows.after (.turn _) fun _ => ?_
    split
    · exact Follows.after (.edit fun _ => rfl) fun _ => .turn _
    · exact .pure _
  | operation =>
    refine .declare (by nofun) fun _ _ => .after (.edit fun _ => rfl) fun _ =>
      .after (.turn _) fun _ => ?_
    exact (annotate_follows _ t).bind fun _ => giveType_follows _ t
  | parameter =>
    refine .declare (f := fun d => d.focus.operation <|> d.focus.signal) (by nofun) fun owner _ => ?_
    refine .after (.edit fun _ => ?_) fun _ => .turn _
    cases owner <;> rfl
  | property =>
    refine .declare (by nofun) fun _ _ => .after (.edit fun _ => rfl) fun _ => ?_
    exact (annotate_follows _ t).bind fun _ => (giveType_follows _ t).bind fun _ =>
      (defaultValue_follows t).before fun _ => .edit fun _ => rfl
  | structField =>
    refine .declare (by nofun) fun _ _ => .after (.edit fun _ => rfl) fun _ =>
      .after (.turn _) fun _ => ?_
    exact (annotate_follows _ t).bind fun _ => (defaultValue_follows t).before fun _ =>
      .edit fun _ => rfl
  | enumMember =>
    refine .declare (by nofun) fun _ _ => .after (.edit fun _ => rfl) fun _ =>
      .after (.turn _) fun _ => ?_
    exact (memberNumber_follows t).bind fun _ => Follows.after (.edit fun _ => rfl) fun _ =>
      (annotate_follows _ t).before fun _ => Follows.get fun d _ => .turn _
  | _ => exact .pure _

theorem exit_follows [Yaml.Readers] (r : Rule) (t : Tree) :
    Follows m (exit r t) (Reading.leaving r t) := by
  cases r with
  | interface | struct | enum | operation | signal | enumMember =>
    unfold exit
    exact .turn _
  | parameter =>
    exact Follows.get fun d _ => Follows.after (.need _ (by nofun) _) fun p => giveType_follows p t
  | structField =>
    refine Follows.get fun d _ => Follows.after (.need _ (by nofun) _) fun p => ?_
    exact (giveType_follows p t).before fun _ => .turn _
  | _ => exact .pure _

/-! ## Trees -/

mutual
theorem walk_follows [Yaml.Readers] (t : Tree)
    (h : ∀ r us, .node r us ∈ t.nodes → r ≠ .moduleHead ∧ r ≠ .importLine) :
    Follows m (walk t) (Reading.ofTree t) := by
  match t with
  | .leaf _ => exact .pure _
  | .node r ts =>
    obtain ⟨hhead,himport⟩ := h r ts (by simp [Tree.nodes])
    refine (enter_follows hhead himport _).bind fun _ => Follows.bind ?_ fun _ => exit_follows r _
    exact walkAll_follows ts fun q us hq => h q us (by simp [Tree.nodes,hq])

theorem walkAll_follows [Yaml.Readers] (ts : List Tree)
    (h : ∀ r us, .node r us ∈ Tree.nodesOf ts → r ≠ .moduleHead ∧ r ≠ .importLine) :
    Follows m (walkAll ts) (Reading.ofTrees ts) := by
  match ts with
  | [] => exact .pure _
  | t :: ts =>
    refine (walk_follows t fun r us hr => h r us (by simp [Tree.nodesOf,hr])).bind fun _ => ?_
    exact walkAll_follows ts fun r us hr => h r us (by simp [Tree.nodesOf,hr])
end

/-! ## Documents -/

theorem walk_imports [Yaml.Readers] (ys : List Phrase.Import) {d : Draft} (hd : d.module = some m) :
    (walkAll (ys.map fun y => .node .importLine y.parts)).run d =
      (.ok (), { d with
        module := some { m with imports := m.imports.setAll (ys.map (·.describes)) } }) := by
  induction ys generalizing d m with
  | nil =>
    cases d
    cases hd
    rfl
  | cons y ys ih =>
    have hwalk : (walk (.node .importLine y.parts)).run d =
        (.ok (), { d with
          module := some { m with imports := m.imports.set y.describes.1 y.describes.2 } }) := by
      rw [walk_import]
      cases d
      cases hd
      rfl
    rw [List.map_cons,walkAll_cons,run_bind,hwalk]
    exact ih (m := { m with imports := m.imports.set y.describes.1 y.describes.2 }) rfl

end Drafting

/-- The log of a walk through a document, and the failure that ends it, are those of its
readings. -/
theorem ofDocument_report [Yaml.Readers] (doc : Phrase.Document) (number : Nat) (store : Store) :
    (Draft.ofDocument number doc.tree store).2.log =
      (Reading.report doc.describes (Reading.ofTree doc.tree)).1 ∧
      (Draft.ofDocument number doc.tree store).1 =
        (Reading.report doc.describes (Reading.ofTree doc.tree)).2.elim (.ok ()) fun e =>
        .error (.failed e) := by
  let definitions := doc.definitions.map fun x => Grammar.Tree.node .definition [x.inside]
  have hcontent : ∀ r us, .node r us ∈ Tree.nodesOf definitions → r ≠ .moduleHead ∧
      r ≠ .importLine := by
    intro r us hr
    have hderives :=
      (Form.Yields.many Phrase.definition_yields definitions).mpr ⟨doc.definitions,rfl⟩
    have hbelow := hderives.rule_below (P := fun r => r.IsInner ∧ r ≠ .importLine)
      (by intro r; cases r <;> decide) (by decide) hr
    exact ⟨hbelow.1.2.2,hbelow.2⟩
  obtain ⟨d₁,hrun,himports,hlog⟩ :
    ∃ d₁ : Draft, (Drafting.walk (.node .moduleHead doc.header.head.parts)).run { number, store } =
        (Drafting.annotate .module (.node .moduleHead doc.header.head.parts)).run d₁ ∧
      d₁.Imports (Drafting.headModule doc.header.head) ∧ d₁.log = [] :=
    ⟨_,Drafting.walk_head doc.header.head { number, store },rfl,rfl⟩
  have hhead :=
    Drafting.annotate_follows .module (.node .moduleHead doc.header.head.parts) d₁ himports
  obtain ⟨q,hneed⟩ := Drafting.document_run doc (d := { number, store }) rfl
  rw [Reading.report_ofTags _ doc.describes] at hhead
  rw [Draft.ofDocument,Reading.ofTree_document]
  rw [Drafting.walk_document,run_bind,hrun] at hneed ⊢
  revert hhead hneed
  rcases (Drafting.annotate .module (.node .moduleHead doc.header.head.parts)).run d₁ with ⟨r,d₂⟩
  cases r with
  | error o =>
    cases o with
    | failed e =>
      rintro ⟨hlog₂,hsome⟩ -
      rw [Reading.report_append_of_some hsome]
      exact ⟨by rw [hlog₂,hlog]; rfl,by rw [hsome]; rfl⟩
    | _ =>
      rintro - ⟨_,hcause⟩
      cases hcause
  | ok u =>
    rintro ⟨hd₂,hlog₂,hnone⟩
    rw [Reading.report_append_of_none hnone]
    obtain ⟨m₂,hm₂,hempty⟩ := Option.map_eq_some_iff.mp hd₂
    have hset : m₂.imports.setAll (doc.header.imports.map (·.describes)) =
        doc.describes.imports := by
      rw [hempty]
      exact Table.setAll_nil _
    have hrest := Drafting.walkAll_follows (m := doc.describes) definitions hcontent
      { d₂ with module := some { m₂ with
        imports := m₂.imports.setAll (doc.header.imports.map (·.describes)) } }
      (congrArg some hset)
    dsimp only
    rw [run_bind,Drafting.walk_imports _ hm₂]
    dsimp only
    revert hrest
    rcases (Drafting.walkAll definitions).run _ with ⟨r',d₃⟩
    cases r' with
    | ok u' =>
      rintro ⟨-,hlog₃,hnone'⟩ -
      exact ⟨by rw [hlog₃,hlog₂,hlog]; rfl,by rw [hnone']; rfl⟩
    | error o =>
      cases o with
      | failed e =>
        rintro ⟨hlog₃,hsome⟩ -
        exact ⟨by rw [hlog₃,hlog₂,hlog]; rfl,by rw [hsome]; rfl⟩
      | _ =>
        rintro - ⟨_,hcause⟩
        cases hcause

end InterfaceKit.Model
