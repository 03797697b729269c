import InterfaceKit.Proofs.Model.Walk

/-!
# Walks side by side

Two walks that meet the same declarations, from drafts that are alike, leave drafts that are alike,
and both end in the same way. The trees may differ in what no handler asks about, and in the words
`const` as far as the likeness allows.

A `Tandem` says what is kept all the while: how the two stores are related, how tags are that refer
to them, how the numbers of the modules are, and what is known of the two sorts of enumeration. It
has to last while symbols are made and documents are loaded.
-/
namespace InterfaceKit.Model
open Data Grammar Lexical

/-! ## Steps -/

/-- What two walks keep of each other. -/
structure Tandem where
  const : Bool → Bool → Prop
  kind : Bool × Bool → Bool × Bool → Prop
  renumber : Nat → Nat
  store : Store → Store → Prop
  tags : Store → Store → Value → Value → Prop
  kind_enum : kind (true, false) (true, false)
  kind_flag : kind (false, true) (false, true)
  isFlag_eq {k k' : Bool × Bool} : kind k k' → k.2 = k'.2
  alloc {s s' : Store} : store s s' →
    (tags (s.alloc (.map [])).2 (s'.alloc (.map [])).2 (.ref (s.alloc (.map [])).1)
      (.ref (s'.alloc (.map [])).1) ∧
      store (s.alloc (.map [])).2 (s'.alloc (.map [])).2) ∧
    ∀ v v', tags s s' v v' → tags (s.alloc (.map [])).2 (s'.alloc (.map [])).2 v v'
  load {s s' : Store} : store s s' → ∀ text d, Yaml.Readers.tags text = .ok d →
    (tags (s.append d.store) (s'.append d.store) (d.root.shift s.cells.size)
      (d.root.shift s'.cells.size) ∧
      store (s.append d.store) (s'.append d.store)) ∧
    ∀ v v', tags s s' v v' → tags (s.append d.store) (s'.append d.store) v v'

/-- Walks over the same stores. -/
def Tandem.exact (const : Bool → Bool → Prop) : Tandem where
  const := const
  kind := Eq
  renumber := id
  store := Eq
  tags _ _ := Eq
  kind_enum := rfl
  kind_flag := rfl
  isFlag_eq h := congrArg Prod.snd h
  alloc h := by simp [h]
  load h _ _ _ := by simp [h]

/-- A walk beside itself. -/
def Tandem.same : Tandem := .exact Eq

/-- The likeness of symbols whose tags are kept in these stores. -/
def Tandem.likeness (T : Tandem) (s s' : Store) : Likeness where
  tags := T.tags s s'
  const := T.const
  kind := T.kind
  origin o o' := o' = o.renumber T.renumber

section
variable {T : Tandem} {s s' : Store} {c c' : Common} (hc : c.Like (T.likeness s s') c')
include hc

/-- What two walks make for symbols that are alike is alike. -/
theorem Common.Like.made {name : String} {tags tags' : Value} (htags : T.tags s s' tags tags')
    (p : Place) :
    (Common.inside { name, tags } c p).Like (T.likeness s s')
      (Common.inside { name, tags := tags' } c' p) where
  name := rfl
  comment := rfl
  type := rfl
  tags := htags
  origin := by
    change c'.origin.inside p = (c.origin.inside p).renumber T.renumber
    rw [Origin.renumber_inside,hc.origin]

theorem Common.Like.withType (type : TypeExpr) :
    (c.withType type).Like (T.likeness s s') (c'.withType type) := by
  refine { hc with type := rfl, origin := ?_ }
  change c'.origin.typed type.layers.length = (c.origin.typed type.layers.length).renumber T.renumber
  rw [Origin.renumber_typed,hc.origin]

end

structure Draft.Like (T : Tandem) (d d' : Draft) : Prop where
  number : d'.number = T.renumber d.number
  module : Option.Rel (Module.Like (T.likeness d.store d'.store)) d.module d'.module
  focus : d.focus = d'.focus
  log : d.log = d'.log
  store : T.store d.store d'.store

namespace Draft.Like
variable {T : Tandem} {d d' : Draft}

theorem grow (h : d.Like T d') {s s' : Store} (hs : T.store s s')
    (htags : ∀ v v', T.tags d.store d'.store v v' → T.tags s s' v v') :
    Draft.Like T { d with store := s } { d' with store := s' } := by
  refine ⟨h.number,?_,h.focus,h.log,hs⟩
  rcases rel_cases h.module with ⟨hm,hm'⟩ | ⟨m,m',hm,hm',hlike⟩
  · simp only [hm,hm']
    exact .none
  · simp only [hm,hm']
    have hgrown : ∀ v v', (T.likeness d.store d'.store).tags v v' → (T.likeness s s').tags v v' :=
      htags
    exact .some (hlike.imp hgrown id id id)

theorem edit (h : d.Like T d') {f f' : Module → Module}
    (hf : ∀ m m', m.Like (T.likeness d.store d'.store) m' →
      (f m).Like (T.likeness d.store d'.store) (f' m')) :
    Draft.Like T { d with module := d.module.map f } { d' with module := d'.module.map f' } := by
  refine { h with module := ?_ }
  rcases rel_cases h.module with ⟨hm,hm'⟩ | ⟨m,m',hm,hm',hlike⟩
  · simp only [hm,hm']
    exact .none
  · simp only [hm,hm']
    exact .some (hf m m' hlike)

end Draft.Like

/-- From drafts that are alike both steps end in the same way, with results that are related, in
drafts that are alike. -/
def Parallel (T : Tandem) {α : Type} (A : α → α → Prop) (x y : Drafting α) : Prop :=
  ∀ d d' : Draft, d.Like T d' →
    (x.run d).2.Like T (y.run d').2 ∧
      match (x.run d).1, (y.run d').1 with
      | .ok a, .ok b => A a b
      | .error o, .error o' => o = o'
      | _, _ => False

/-- Steps that end side by side and give nothing. -/
abbrev Lockstep (T : Tandem) (x y : Drafting Unit) : Prop := Parallel T Eq x y

namespace Parallel
variable {T : Tandem} {α β : Type} {A : α → α → Prop} {B : β → β → Prop}

theorem pure {a b : α} (h : A a b) : Parallel T A (Pure.pure a) (Pure.pure b) := fun _ _ hd => ⟨hd,h⟩

theorem throw (o : Obstacle) : Parallel T A (MonadExcept.throw o) (MonadExcept.throw o) :=
  fun _ _ hd => ⟨hd,rfl⟩

theorem bind {x y : Drafting α} {k k' : α → Drafting β} (hx : Parallel T A x y)
    (hk : ∀ a b, A a b → Parallel T B (k a) (k' b)) : Parallel T B (x >>= k) (y >>= k') := by
  intro d d' hd
  have h := hx d d' hd
  rw [run_bind,run_bind]
  revert h
  rcases x.run d with ⟨r,e⟩
  rcases y.run d' with ⟨r',e'⟩
  rintro ⟨he,hr⟩
  cases r with
  | error o =>
    cases r' with
    | error o' => exact ⟨he,hr⟩
    | ok b => exact hr.elim
  | ok a =>
    cases r' with
    | error o' => exact hr.elim
    | ok b => exact hk a b hr e e' he

theorem andThen {x y : Drafting Unit} {k k' : Unit → Drafting β} (hx : Lockstep T x y)
    (hk : Parallel T B (k ()) (k' ())) : Parallel T B (x >>= k) (y >>= k') :=
  bind hx fun _ _ _ => hk

theorem get {k k' : Draft → Drafting β} (hk : ∀ d d', d.Like T d' → Parallel T B (k d) (k' d')) :
    Parallel T B (MonadState.get >>= k) (MonadState.get >>= k') :=
  fun d d' hd => hk d d' hd d d' hd

theorem modify {f f' : Draft → Draft} (h : ∀ d d', d.Like T d' → (f d).Like T (f' d')) :
    Lockstep T (modify f) (modify f') :=
  fun d d' hd => ⟨h d d' hd,rfl⟩

end Parallel

namespace Drafting
open Parallel
variable {T : Tandem} {β : Type} {B : β → β → Prop}

theorem edit_lockstep {f f' : Module → Module}
    (h : ∀ {s s'} (m m' : Module), m.Like (T.likeness s s') m' →
      (f m).Like (T.likeness s s') (f' m')) :
    Lockstep T (edit f) (edit f') :=
  modify fun _ _ hd => hd.edit h

theorem editCommon_lockstep {f : Common → Common} (p : Place)
    (h : ∀ {s s'} (c c' : Common), c.Like (T.likeness s s') c' →
      (f c).Like (T.likeness s s') (f c')) :
    Lockstep T (edit (·.modifyCommon p f)) (edit (·.modifyCommon p f)) :=
  edit_lockstep fun _ _ hm => hm.modifyCommon p h

theorem turn_lockstep (f : Focus → Focus) : Lockstep T (turn f) (turn f) :=
  modify fun _ _ hd => { hd with focus := congrArg f hd.focus }

theorem print_lockstep (s : Stream) (text : String) : Lockstep T (print s text) (print s text) :=
  modify fun _ _ hd => { hd with log := congrArg (· ++ Log.line s text) hd.log }

theorem need_parallel {α : Type} {A : α → α → Prop} (o : Obstacle) {a b : Option α}
    (h : Option.Rel A a b) :
    Parallel T A (need o a) (need o b) := by
  cases h with
  | none => exact throw o
  | some h => exact pure h

theorem needModule_parallel {k k' : Module → Drafting β} (h : ∀ m m', Parallel T B (k m) (k' m')) :
    Parallel T B (MonadState.get >>= fun d => need .noModule d.module >>= k)
      (MonadState.get >>= fun d => need .noModule d.module >>= k') :=
  get fun _ _ hd => bind (need_parallel _ hd.module) fun m m' _ => h m m'

theorem needFocus_parallel {α : Type} (o : Obstacle) (g : Focus → Option α) {k k' : α → Drafting β}
    (h : ∀ a, Parallel T B (k a) (k' a)) :
    Parallel T B (MonadState.get >>= fun d => need o (g d.focus) >>= k)
      (MonadState.get >>= fun d => need o (g d.focus) >>= k') := by
  refine get fun d d' hd => ?_
  rw [← hd.focus]
  refine bind (A := Eq) (need_parallel o ?_) ?_
  · cases g d.focus with
    | none => exact .none
    | some a => exact .some rfl
  · rintro a _ rfl
    exact h a

/-- Symbols that are made for symbols that are alike. -/
abbrev MadeAlike (T : Tandem) (s s' : Store) (c c' : Common) : Prop :=
  ∀ {x x'} (p : Place), x.Like (T.likeness s s') x' →
    (c.inside x p).Like (T.likeness s s') (c'.inside x' p)

theorem declare_parallel (name : String) {f f' : Common → Module → Module}
    {k k' : Common → Unit → Drafting β} (h : ∀ {s s'} (tags tags' : Value) (m m' : Module),
      MadeAlike T s s' { name, tags } { name, tags := tags' } →
        m.Like (T.likeness s s') m' →
        (f { name, tags } m).Like (T.likeness s s') (f' { name, tags := tags' } m'))
    (hk : ∀ tags tags', Parallel T B (k { name, tags } ()) (k' { name, tags := tags' } ())) :
    Parallel T B (fresh name >>= fun c => edit (f c) >>= k c)
      (fresh name >>= fun c => edit (f' c) >>= k' c) := by
  intro d d' hd
  have halloc := T.alloc hd.store
  have hgrown := hd.grow halloc.1.2 halloc.2
  exact hk _ _ _ _ (hgrown.edit fun m m' => h _ _ m m' fun p hx => hx.made halloc.1.1 p)

/-! ## Comments, tags, types and values -/

theorem annotate_lockstep (p : Place) (t : Tree) : Lockstep T (annotate p t) (annotate p t) := by
  have hcomment : Lockstep T (readComment p t) (readComment p t) := by
    unfold readComment
    split
    · exact editCommon_lockstep p fun c c' hc => { hc with comment := rfl }
    · exact pure rfl
  have htags : Lockstep T (readTags p t) (readTags p t) := by
    unfold readTags
    simp only
    split
    · exact pure rfl
    · split
      · exact throw (A := Eq) _
      · intro d d' hd
        have hget : ∀ d : Draft, (MonadState.get : Drafting Draft).run d = (.ok d, d) := fun _ => rfl
        rw [run_bind,run_bind,hget,hget]
        dsimp only
        generalize ['\n'].intercalate _ = text
        cases hread : (Yaml.Readers.tags text : Except Yaml.Problem Yaml.Document) with
        | ok x =>
          have hload := T.load hd.store text x hread
          have hgrown := hd.grow hload.1.2 hload.2
          rw [Yaml.load_of_ok hread,Yaml.load_of_ok hread]
          exact ⟨hgrown.edit fun m m' hm => hm.modifyCommon p fun c c' hc =>
            { hc with tags := hload.1.1 },rfl⟩
        | error e =>
          rw [Yaml.load_error_iff.mpr hread,Yaml.load_error_iff.mpr hread]
          cases e with
          | failed e => exact throw (A := Eq) _ d d' hd
          | _ => exact print_lockstep _ _ d d' hd
  exact andThen hcomment htags

theorem checkKnown_lockstep (l : Layer) : Lockstep T (checkKnown l) (checkKnown l) := by
  refine get fun d d' hd => ?_
  have hknown : (d.module.all fun m => Draft.isKnown m l) = d'.module.all fun m =>
      Draft.isKnown m l := by
    rcases rel_cases hd.module with ⟨hm,hm'⟩ | ⟨m,m',hm,hm',hlike⟩
    · rw [hm,hm']
    · simp only [hm,hm',Option.all_some,Draft.isKnown,hlike.imports]
  rw [hknown]
  split
  · exact print_lockstep _ _
  · exact pure rfl

theorem giveType_lockstep (p : Place) (t : Tree) : Lockstep T (giveType p t) (giveType p t) := by
  have hall : ∀ ls : List Layer, Lockstep T (ls.forM checkKnown) (ls.forM checkKnown) := by
    intro ls
    induction ls with
    | nil => exact pure rfl
    | cons l ls ih => exact andThen (checkKnown_lockstep l) ih
  exact andThen (editCommon_lockstep p fun c c' hc => hc.withType _) (hall _)

theorem defaultValue_parallel (t : Tree) : Parallel T Eq (defaultValue t) (defaultValue t) := by
  unfold defaultValue
  split
  · exact pure rfl
  · split
    · exact throw _
    · split
      · exact pure rfl
      · exact throw _

theorem memberNumber_parallel (t : Tree) : Parallel T Eq (memberNumber t) (memberNumber t) := by
  unfold memberNumber
  split
  · split
    · exact pure rfl
    · exact throw _
  · refine get fun d d' hd => pure ?_
    rw [hd.focus]

end Drafting

/-! ## Trees that are alike -/

def askedKinds : List Kind := [.identifier,.version,.docComment,.string,.flagWord]

def hasModifier (t : Tree) (k : Kind) : Bool :=
  ((t.node? .propertyModifier).bind (·.token? k)).isSome

/-- Two nodes of which handlers learn the same, but for the words `const`. -/
structure TreesAlike (K : Bool → Bool → Prop) (t t' : Tree) : Prop where
  words : ∀ k ∈ askedKinds, t.tokensOfKind k = t'.tokensOfKind k
  tags : t.nodesOfRule .tag = t'.nodesOfRule .tag
  type : t.node? .type = t'.node? .type
  integer : t.node? .integer = t'.node? .integer
  readonly : hasModifier t .readonlyWord = hasModifier t' .readonlyWord
  const : K (hasModifier t .constWord) (hasModifier t' .constWord)
  isConst : K (t.node? .operationModifier).isSome (t'.node? .operationModifier).isSome

namespace TreesAlike
variable {K : Bool → Bool → Prop} {t t' : Tree}

protected theorem refl (hK : ∀ b, K b b) (t : Tree) : TreesAlike K t t :=
  ⟨fun _ _ => rfl,rfl,rfl,rfl,rfl,hK _,hK _⟩

variable (h : TreesAlike K t t')
include h

theorem token? {k : Kind} (hk : k ∈ askedKinds) : t.token? k = t'.token? k := by
  simp only [Tree.token?,h.words k hk]

theorem nameOf : Drafting.nameOf t = Drafting.nameOf t' := by
  simp only [Drafting.nameOf,Drafting.textOf,h.token? (k := .identifier) (by decide)]

theorem version : Drafting.textOf t .version = Drafting.textOf t' .version := by
  simp only [Drafting.textOf,h.token? (k := .version) (by decide)]

theorem annotate (p : Place) : Drafting.annotate p t = Drafting.annotate p t' := by
  simp only [Drafting.annotate,Drafting.readComment,Drafting.readTags,
    h.token? (k := .docComment) (by decide),h.tags]

theorem giveType (p : Place) : Drafting.giveType p t = Drafting.giveType p t' := by
  simp only [Drafting.giveType,Draft.typeOf,h.type]

theorem defaultValue : Drafting.defaultValue t = Drafting.defaultValue t' := by
  simp only [Drafting.defaultValue,h.token? (k := .string) (by decide)]

theorem memberNumber : Drafting.memberNumber t = Drafting.memberNumber t' := by
  simp only [Drafting.memberNumber,h.integer]

end TreesAlike

/-! ## Handlers -/

namespace Drafting
open Parallel

section
variable {T : Tandem} {t t' : Tree} (h : TreesAlike T.const t t')
include h

theorem enterModule_lockstep : Lockstep T (enterModule t) (enterModule t') := by
  simp only [enterModule,h.nameOf,h.version,h.annotate]
  intro d d' hd
  have halloc := T.alloc hd.store
  refine annotate_lockstep .module t' _ _ ⟨hd.number,.some ?_,hd.focus,hd.log,halloc.1.2⟩
  exact ⟨⟨rfl,rfl,rfl,halloc.1.1,congrArg Origin.root hd.number⟩,rfl,rfl,.nil,.nil,.nil⟩

theorem enterImport_lockstep : Lockstep T (enterImport t) (enterImport t') := by
  simp only [enterImport,h.nameOf,h.version]
  refine needModule_parallel fun _ _ => edit_lockstep fun m m' hm => { hm with imports := ?_ }
  simp only [hm.imports]

theorem enterInterface_lockstep : Lockstep T (enterInterface t) (enterInterface t') := by
  simp only [enterInterface,h.nameOf,h.annotate,h.words .identifier (by decide)]
  refine needModule_parallel fun _ _ => declare_parallel _ (fun _ _ m m' hc hm => ?_) fun _ _ =>
    andThen (turn_lockstep _) <| andThen (annotate_lockstep _ t') (edit_lockstep fun m m' hm => ?_)
  · exact { hm with interfaces := hm.interfaces.set _ ⟨hc _ hm.common,rfl,.nil,.nil,.nil⟩ }
  · exact hm.modifyInterface _ fun x x' hx => { hx with base := rfl }

theorem enterStruct_lockstep : Lockstep T (enterStruct t) (enterStruct t') := by
  simp only [enterStruct,h.nameOf,h.annotate]
  refine needModule_parallel fun _ _ => declare_parallel _ (fun _ _ m m' hc hm => ?_) fun _ _ =>
    andThen (turn_lockstep _) (annotate_lockstep _ t')
  exact { hm with structs := hm.structs.set _ ⟨hc _ hm.common,.nil⟩ }

theorem enterEnum_lockstep : Lockstep T (enterEnum t) (enterEnum t') := by
  simp only [enterEnum,h.nameOf,h.annotate]
  refine needModule_parallel fun _ _ => declare_parallel _ (fun _ _ m m' hc hm => ?_) fun _ _ =>
    andThen (turn_lockstep _) (annotate_lockstep _ t')
  exact { hm with enums := hm.enums.set _ ⟨hc _ hm.common,T.kind_enum,.nil⟩ }

theorem enterEnumKind_lockstep : Lockstep T (enterEnumKind t) (enterEnumKind t') := by
  simp only [enterEnumKind,h.token? (k := .flagWord) (by decide)]
  refine needFocus_parallel _ (·.enum) fun e => andThen (turn_lockstep _) ?_
  split
  · refine andThen (edit_lockstep fun m m' hm => ?_) (turn_lockstep _)
    exact hm.modifyEnum e fun x x' hx => { hx with kind := T.kind_flag }
  · exact pure rfl

theorem enterOperation_lockstep : Lockstep T (enterOperation t) (enterOperation t') := by
  simp only [enterOperation,h.nameOf,h.annotate,h.giveType]
  refine needFocus_parallel _ (·.interface) fun i =>
    declare_parallel _ (fun _ _ m m' hc hm => ?_) fun _ _ =>
    andThen (turn_lockstep _) <| andThen (annotate_lockstep _ t') (giveType_lockstep _ t')
  exact hm.modifyInterface i fun x x' hx =>
    { hx with operations := hx.operations.set _ ⟨hc _ hx.common,h.isConst,.nil⟩ }

theorem enterSignal_lockstep : Lockstep T (enterSignal t) (enterSignal t') := by
  simp only [enterSignal,h.nameOf,h.annotate]
  refine needFocus_parallel _ (·.interface) fun i =>
    declare_parallel _ (fun _ _ m m' hc hm => ?_) fun _ _ =>
    andThen (turn_lockstep _) (annotate_lockstep _ t')
  exact hm.modifyInterface i fun x x' hx =>
    { hx with signals := hx.signals.set _ ⟨hc _ hx.common,.nil⟩ }

theorem enterParameter_lockstep : Lockstep T (enterParameter t) (enterParameter t') := by
  simp only [enterParameter,h.nameOf]
  refine needFocus_parallel _ (fun f => f.operation <|> f.signal) fun owner =>
    declare_parallel _ (fun _ _ m m' hc hm => ?_) fun _ _ => turn_lockstep _
  exact hm.enter (fun _ _ => hc _) owner _

theorem exitParameter_lockstep : Lockstep T (exitParameter t) (exitParameter t') := by
  simp only [exitParameter,h.giveType]
  exact needFocus_parallel _ (·.parameter) fun p => giveType_lockstep p t'

theorem enterProperty_lockstep : Lockstep T (enterProperty t) (enterProperty t') := by
  simp only [enterProperty,h.nameOf,h.annotate,h.giveType,h.defaultValue]
  refine needFocus_parallel _ (·.interface) fun i =>
    declare_parallel _ (fun _ _ m m' hc hm => ?_) fun _ _ =>
    andThen (annotate_lockstep _ t') <| andThen (giveType_lockstep _ t') <| bind
      (defaultValue_parallel t') ?_
  · exact hm.modifyInterface i fun x x' hx =>
      { hx with properties := hx.properties.set _ ⟨hc _ hx.common,h.readonly,h.const,rfl⟩ }
  · rintro value _ rfl
    exact edit_lockstep fun m m' hm => hm.modifyProperty i _ fun x x' hx => { hx with value := rfl }

theorem enterField_lockstep : Lockstep T (enterField t) (enterField t') := by
  simp only [enterField,h.nameOf,h.annotate,h.defaultValue]
  refine needFocus_parallel _ (·.struct) fun s =>
    declare_parallel _ (fun _ _ m m' hc hm => ?_) fun _ _ =>
    andThen (turn_lockstep _) <| andThen (annotate_lockstep _ t') <| bind
      (defaultValue_parallel t') ?_
  · exact hm.modifyStruct s fun x x' hx => { hx with fields := hx.fields.set _ ⟨hc _ hx.common,rfl⟩ }
  · rintro value _ rfl
    exact edit_lockstep fun m m' hm => hm.modifyField s _ fun x x' hx => { hx with value := rfl }

theorem exitField_lockstep : Lockstep T (exitField t) (exitField t') := by
  simp only [exitField,h.giveType]
  exact needFocus_parallel _ (·.field) fun p => andThen (giveType_lockstep p t') (turn_lockstep _)

theorem enterMember_lockstep : Lockstep T (enterMember t) (enterMember t') := by
  simp only [enterMember,h.nameOf,h.annotate,h.memberNumber]
  refine needFocus_parallel _ (·.enum) fun e =>
    declare_parallel _ (fun _ _ m m' hc hm => ?_) fun _ _ =>
    andThen (turn_lockstep _) <| bind (memberNumber_parallel t') ?_
  · exact hm.modifyEnum e fun x x' hx => { hx with members := hx.members.set _ ⟨hc _ hx.common,rfl⟩ }
  · rintro value _ rfl
    refine andThen (edit_lockstep fun m m' hm => ?_) <| andThen
      (annotate_lockstep _ t') <| get fun d d' hd => ?_
    · exact hm.modifyMember e _ fun x x' hx => { hx with value := rfl }
    · have hflag : ((d.module.bind (·.enums.get? e)).any (·.isFlag)) =
          (d'.module.bind (·.enums.get? e)).any (·.isFlag) := by
        rcases rel_cases hd.module with ⟨hm,hm'⟩ | ⟨m,m',hm,hm',hlike⟩
        · rw [hm,hm']
        · rw [hm,hm',Option.bind_some,Option.bind_some]
          rcases rel_cases (hlike.enums.get? e) with ⟨hx,hx'⟩ | ⟨x,x',hx,hx',hkind⟩
          · rw [hx,hx']
          · rw [hx,hx']
            exact T.isFlag_eq hkind.kind
      rw [hflag]
      exact turn_lockstep _

theorem enter_lockstep (r : Rule) : Lockstep T (enter r t) (enter r t') := by
  cases r with
  | moduleHead => exact enterModule_lockstep h
  | importLine => exact enterImport_lockstep h
  | interface => exact enterInterface_lockstep h
  | struct => exact enterStruct_lockstep h
  | enum => exact enterEnum_lockstep h
  | enumKind => exact enterEnumKind_lockstep h
  | operation => exact enterOperation_lockstep h
  | signal => exact enterSignal_lockstep h
  | parameter => exact enterParameter_lockstep h
  | property => exact enterProperty_lockstep h
  | structField => exact enterField_lockstep h
  | enumMember => exact enterMember_lockstep h
  | _ => exact pure rfl

theorem exit_lockstep (r : Rule) : Lockstep T (exit r t) (exit r t') := by
  cases r with
  | interface | struct | enum | operation | signal | enumMember => exact turn_lockstep _
  | parameter => exact exitParameter_lockstep h
  | structField => exact exitField_lockstep h
  | _ => exact pure rfl

end

end Drafting

/-! ## Walks -/

/-- Two rows of trees in which a walk meets the same declarations. -/
inductive Corresponds (K : Bool → Bool → Prop) : List Tree → List Tree → Prop
  | nil : Corresponds K [] []
  | left {t : Tree} {ts us : List Tree} :
      Drafting.walk t = pure () → Corresponds K ts us → Corresponds K (t :: ts) us
  | right {t : Tree} {ts us : List Tree} :
      Drafting.walk t = pure () → Corresponds K ts us → Corresponds K ts (t :: us)
  | node {r : Rule} {as bs ts us : List Tree} :
      TreesAlike K (.node r as) (.node r bs) → Corresponds K as bs →
      Corresponds K ts us → Corresponds K (.node r as :: ts) (.node r bs :: us)

protected theorem Corresponds.refl {K : Bool → Bool → Prop} (hK : ∀ b, K b b) :
    (ts : List Tree) → Corresponds K ts ts
  | [] => .nil
  | .leaf t :: ts =>
    .left (Drafting.walk_leaf t) (.right (Drafting.walk_leaf t) (Corresponds.refl hK ts))
  | .node _ us :: ts => .node (.refl hK _) (Corresponds.refl hK us) (Corresponds.refl hK ts)

theorem Corresponds.lockstep {T : Tandem} {ts us : List Tree} (h : Corresponds T.const ts us) :
    Lockstep T (Drafting.walkAll ts) (Drafting.walkAll us) := by
  induction h with
  | nil => exact .pure rfl
  | left ht _ ih | right ht _ ih =>
    rw [Drafting.walkAll_cons,ht,pure_bind]
    exact ih
  | @node r as bs ts us hr _ _ ihr ih =>
    rw [Drafting.walkAll_cons,Drafting.walkAll_cons,Drafting.walk,Drafting.walk]
    refine .andThen ?_ ih
    exact .andThen (Drafting.enter_lockstep hr r) (.andThen ihr (Drafting.exit_lockstep hr r))

/-- Documents that correspond are read alike. -/
theorem Corresponds.ofDocument {T : Tandem} {t t' : Tree} (h : Corresponds T.const [t] [t'])
    {s s' : Store} (hs : T.store s s') (number : Nat) :
    (Draft.ofDocument number t s).1 = (Draft.ofDocument (T.renumber number) t' s').1 ∧
      (Draft.ofDocument number t s).2.Like T (Draft.ofDocument (T.renumber number) t' s').2 := by
  have hwalk : ∀ t, Drafting.walkAll [t] = Drafting.walk t := by
    intro t
    rw [Drafting.walkAll_cons,Drafting.walkAll_nil,bind_pure_unit]
  have hstep := h.lockstep { number, store := s } { number := T.renumber number, store := s' }
    ⟨rfl,.none,rfl,rfl,hs⟩
  rw [hwalk,hwalk] at hstep
  refine ⟨?_,hstep.1⟩
  have hresult := hstep.2
  simp only [Draft.ofDocument]
  revert hresult
  cases ((Drafting.walk t).run { number, store := s }).1 <;>
    cases ((Drafting.walk t').run { number := T.renumber number, store := s' }).1 <;>
      intro hresult <;> simp_all

end InterfaceKit.Model
