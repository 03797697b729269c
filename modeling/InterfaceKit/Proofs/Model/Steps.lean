import InterfaceKit.Proofs.Grammar.Naming
import InterfaceKit.Proofs.Model.Effect
import InterfaceKit.Proofs.Yaml.Relocation
import Mathlib.Logic.Relation

/-!
# The steps of a walk

What handlers can do to a draft is said here once: a module is begun, a symbol without a type is put
into it, a symbol is given its comment, its tags or its type, or something else is noted. A walk is
a row of such steps, whether it comes to its end or not. So what no step breaks holds of everything
that a walk leaves.
-/
namespace InterfaceKit.Model
open Data Grammar Lexical

/-- The symbols in interfaces, structures and enumerations. -/
def Place.isPart : Place → Bool
  | .module | .interface _ | .struct _ | .enum _ => false
  | _ => true

/-- The symbol that a node declares, made for another one. -/
def made (t : Tree) (tags : Value) (holder : Common) (p : Place) : Common :=
  Common.inside { name := Drafting.nameOf t, tags } holder p

/-- What the handlers of a rule can do to the module when they are at a node. -/
inductive Change (r : Rule) (t : Tree) (m : Module) : Module → Prop
  | comment (p : Place) (comment : String) :
      Change r t m (m.modifyCommon p fun c => { c with comment })
  | tags (p : Place) (tags : Value) : Change r t m (m.modifyCommon p fun c => { c with tags })
  | type (p : Place) (hp : p.isPart = true) :
      Change r t m (m.modifyCommon p fun c => c.withType (Draft.typeOf t))
  | imports (imports : Table String) : Change r t m { m with imports }
  | interface (hr : r.Declares) (tags : Value) :
      Change r t m { m with
        interfaces := m.interfaces.set (Drafting.nameOf t)
          { common := made t tags m.common (.interface (Drafting.nameOf t)) } }
  | struct (hr : r.Declares) (tags : Value) :
      Change r t m { m with
        structs := m.structs.set (Drafting.nameOf t)
          { common := made t tags m.common (.struct (Drafting.nameOf t)) } }
  | enum (hr : r.Declares) (tags : Value) :
      Change r t m { m with
        enums := m.enums.set (Drafting.nameOf t)
          { common := made t tags m.common (.enum (Drafting.nameOf t)) } }
  | operation (hr : r.Declares) (i : String) (tags : Value) (isConst : Bool) :
      Change r t m (m.modifyInterface i fun x => { x with
        operations := x.operations.set (Drafting.nameOf t)
          { common := made t tags x.common (.operation i (Drafting.nameOf t)), isConst } })
  | signal (hr : r.Declares) (i : String) (tags : Value) :
      Change r t m (m.modifyInterface i fun x => { x with
        signals := x.signals.set (Drafting.nameOf t)
          { common := made t tags x.common (.signal i (Drafting.nameOf t)) } })
  | parameter (hr : r.Declares) (owner : Callable) (tags : Value) :
      Change r t m (owner.enter (Drafting.nameOf t)
        (made t tags · (owner.parameter (Drafting.nameOf t))) m)
  | property (hr : r.Declares) (i : String) (tags : Value) (readonly const : Bool) :
      Change r t m (m.modifyInterface i fun x => { x with
        properties := x.properties.set (Drafting.nameOf t)
          { common := made t tags x.common (.property i (Drafting.nameOf t)), readonly, const } })
  | field (hr : r.Declares) (s : String) (tags : Value) :
      Change r t m (m.modifyStruct s fun x => { x with
        fields := x.fields.set (Drafting.nameOf t)
          { common := made t tags x.common (.field s (Drafting.nameOf t)) } })
  | member (hr : r.Declares) (e : String) (tags : Value) :
      Change r t m (m.modifyEnum e fun x => { x with
        members := x.members.set (Drafting.nameOf t)
          { common := made t tags x.common (.member e (Drafting.nameOf t)) } })
  | base (i : String) (base : Option String) :
      Change r t m (m.modifyInterface i fun x => { x with base })
  | flag (e : String) :
      Change r t m (m.modifyEnum e fun x => { x with isEnum := false, isFlag := true })
  | propertyValue (i p : String) (value : Option String) :
      Change r t m (m.modifyProperty i p fun x => { x with value })
  | fieldValue (s f : String) (value : Option String) :
      Change r t m (m.modifyField s f fun x => { x with value })
  | memberValue (e n : String) (value : Int) :
      Change r t m (m.modifyMember e n fun x => { x with value })

/-- One step at a node: the module is begun or changed, or something happens beside it. Cells stay
in any case. -/
inductive Draft.Step (r : Rule) (t : Tree) (d : Draft) : Draft → Prop
  | aside {d' : Draft} (hnumber : d'.number = d.number) (hmodule : d'.module = d.module)
      (hcells : ∀ i c, d.store.get? i = some c → d'.store.get? i = some c) : Step r t d d'
  | begin (hr : r = .moduleHead) (tags : Value) :
      Step r t d { d with
        module := some {
          common := { name := Drafting.nameOf t, tags, origin := .root d.number }
          version := Drafting.textOf t .version } }
  | edit {m m' : Module} (hm : d.module = some m) (h : Change r t m m') :
      Step r t d { d with module := some m' }

/-- The second draft comes from the first one by steps at nodes of `N`. -/
def Draft.Reaches (N : Rule → Tree → Prop) : Draft → Draft → Prop :=
  Relation.ReflTransGen fun d d' => ∃ r t, N r t ∧ d.Step r t d'

/-- The parameter and the field that are being read stand in other symbols. -/
def Focus.OnParts (f : Focus) : Prop :=
  (∀ p, f.parameter = some p → p.isPart = true) ∧ ∀ p, f.field = some p → p.isPart = true

/-- With such a focus the operation takes steps at nodes of `N`, also when it fails, and the focus
is such a one again. -/
def Stepwise (N : Rule → Tree → Prop) {α : Type} (x : Drafting α) : Prop :=
  ∀ d : Draft, d.focus.OnParts → d.Reaches N (x.run d).2 ∧ (x.run d).2.focus.OnParts

namespace Stepwise
variable {N : Rule → Tree → Prop} {r : Rule} {t : Tree} {α β : Type} {x : Drafting α}
  {k : α → Drafting β}

theorem pure (a : α) : Stepwise N (Pure.pure a) := fun _ hd => ⟨.refl,hd⟩

theorem throw (o : Obstacle) : Stepwise N (MonadExcept.throw o : Drafting α) :=
  fun _ hd => ⟨.refl,hd⟩

theorem get : Stepwise N (MonadState.get : Drafting Draft) := fun _ hd => ⟨.refl,hd⟩

theorem bind (hx : Stepwise N x) (hk : ∀ a, Stepwise N (k a)) : Stepwise N (x >>= k) := by
  intro d hd
  have h := hx d hd
  rw [run_bind]
  revert h
  rcases x.run d with ⟨a,d'⟩
  rintro ⟨h,hd'⟩
  cases a with
  | error o => exact ⟨h,hd'⟩
  | ok a => exact ⟨h.trans (hk a d' hd').1,(hk a d' hd').2⟩

theorem getThen {f : Draft → Drafting α} (h : ∀ d : Draft, d.focus.OnParts →
    d.Reaches N ((f d).run d).2 ∧ ((f d).run d).2.focus.OnParts) :
      Stepwise N (MonadState.get >>= f) := h

theorem modify {f : Draft → Draft} (hN : N r t) (h : ∀ d : Draft, d.Step r t (f d))
    (hfocus : ∀ d : Draft, d.focus.OnParts → (f d).focus.OnParts) :
    Stepwise N (modify f : Drafting Unit) :=
  fun d hd => ⟨.single ⟨r,t,hN,h d⟩,hfocus d hd⟩

/-- A step that is known to be taken comes first. -/
theorem after {d d' : Draft} (hN : N r t) (h : d.Step r t d') (hx : Stepwise N x)
    (hd : d'.focus.OnParts) :
    d.Reaches N (x.run d').2 ∧ (x.run d').2.focus.OnParts :=
  ⟨.head ⟨r,t,hN,h⟩ (hx d' hd).1,(hx d' hd).2⟩

end Stepwise

namespace Drafting
open Stepwise

section
variable {N : Rule → Tree → Prop} {r : Rule} {t : Tree}

theorem edit_stepwise {f : Module → Module} (hN : N r t) (h : ∀ m, Change r t m (f m)) :
    Stepwise N (edit f) := by
  refine modify hN (fun d => ?_) fun _ => id
  cases hm : d.module with
  | none => exact .aside rfl hm.symm fun _ _ hi => hi
  | some m => exact .edit hm (h m)

theorem turn_stepwise (hN : N r t) (f : Focus → Focus)
    (h : ∀ x : Focus, x.OnParts → (f x).OnParts) : Stepwise N (turn f) :=
  modify hN (fun _ => .aside rfl rfl fun _ _ hi => hi) fun d => h d.focus

theorem print_stepwise (hN : N r t) (s : Stream) (text : String) : Stepwise N (print s text) :=
  modify hN (fun _ => .aside rfl rfl fun _ _ hi => hi) fun _ => id

variable {α : Type} {name : String}

theorem need_stepwise (o : Obstacle) (a : Option α) : Stepwise N (need o a) := by
  cases a with
  | none => exact throw o
  | some a => exact pure a

theorem fresh_stepwise (hN : N r t) {k : Common → Drafting α}
    (h : ∀ tags, Stepwise N (k { name, tags })) : Stepwise N (fresh name >>= k) := by
  intro d hd
  have hstep : d.Step r t { d with store := (d.store.alloc (.map [])).2 } :=
    .aside rfl rfl fun _ _ hi => Store.get?_alloc hi _
  have hrest := after hN hstep (h (.ref (d.store.alloc (.map [])).1)) hd
  exact hrest

theorem annotate_stepwise [Yaml.Readers] (hN : N r t) (p : Place) : Stepwise N (annotate p t) := by
  have hcomment : Stepwise N (readComment p t) := by
    unfold readComment
    split
    · exact edit_stepwise hN fun _ => .comment p _
    · exact pure ()
  have htags : Stepwise N (readTags p t) := by
    unfold readTags
    simp only
    split
    · exact pure ()
    · split
      · exact throw _
      · apply Stepwise.getThen
        intro d hd
        split
        · rename_i tags store hload
          have hstep : d.Step r t { d with store } := .aside rfl rfl fun _ _ => Yaml.load_keeps hload
          have hedit : Stepwise N (edit (·.modifyCommon p fun x => { x with tags })) :=
            edit_stepwise hN fun _ => .tags p tags
          have hrest := after hN hstep hedit hd
          exact hrest
        · exact throw _ d hd
        · exact print_stepwise hN _ _ d hd
  exact bind hcomment fun _ => htags

theorem giveType_stepwise (hN : N r t) {p : Place} (hp : p.isPart = true) :
    Stepwise N (giveType p t) := by
  have hcheck : ∀ l, Stepwise N (checkKnown l) := by
    intro l
    apply get.bind
    intro d
    split
    · exact print_stepwise hN _ _
    · exact pure ()
  have hall : ∀ ls : List Layer, Stepwise N (ls.forM checkKnown) := by
    intro ls
    induction ls with
    | nil => exact pure ()
    | cons l ls ih => exact (hcheck l).bind fun _ => ih
  exact (edit_stepwise hN fun _ => .type p hp).bind fun _ => hall _

theorem defaultValue_stepwise (u : Tree) : Stepwise N (defaultValue u) := by
  unfold defaultValue
  split
  · exact pure none
  · split
    · exact throw _
    · split
      · exact pure _
      · exact throw _

theorem memberNumber_stepwise (u : Tree) : Stepwise N (memberNumber u) := by
  unfold memberNumber
  split
  · split
    · exact pure _
    · exact throw _
  · exact get.bind fun _ => pure _

/-! ## Handlers -/

theorem declare_stepwise {β : Type} (hN : N r t) {o : Obstacle} {f : Draft → Option α}
    {k : α → Common → Drafting β} (h : ∀ a tags, Stepwise N (k a { name, tags })) :
    Stepwise N (do
      let a ← need o (f (← get))
      let c ← fresh name
      k a c) :=
  get.bind fun _ => (need_stepwise o _).bind fun a => fresh_stepwise hN fun tags => h a tags

theorem enterModule_stepwise [Yaml.Readers] (hN : N .moduleHead t) : Stepwise N (enterModule t) := by
  apply fresh_stepwise hN
  intro tags
  apply (modify hN (fun d => .begin rfl tags) fun _ => id).bind
  intro _
  exact annotate_stepwise hN _

section
variable (hN : N r t)
include hN

theorem enterImport_stepwise : Stepwise N (enterImport t) :=
  get.bind fun _ => (need_stepwise _ _).bind fun _ => edit_stepwise hN fun _ => .imports _

theorem enterInterface_stepwise [Yaml.Readers] (hr : r.Declares) :
    Stepwise N (enterInterface t) := by
  apply declare_stepwise hN
  intro _ tags
  refine bind (edit_stepwise hN fun _ => .interface hr tags) fun _ => ?_
  refine bind (turn_stepwise hN _ fun _ => id) fun _ => ?_
  exact (annotate_stepwise hN _).bind fun _ => edit_stepwise hN fun _ => .base _ _

theorem enterStruct_stepwise [Yaml.Readers] (hr : r.Declares) : Stepwise N (enterStruct t) := by
  apply declare_stepwise hN
  intro _ tags
  refine bind (edit_stepwise hN fun _ => .struct hr tags) fun _ => ?_
  exact bind (turn_stepwise hN _ fun _ => id) fun _ => annotate_stepwise hN _

theorem enterEnum_stepwise [Yaml.Readers] (hr : r.Declares) : Stepwise N (enterEnum t) := by
  apply declare_stepwise hN
  intro _ tags
  refine bind (edit_stepwise hN fun _ => .enum hr tags) fun _ => ?_
  exact bind (turn_stepwise hN _ fun _ => id) fun _ => annotate_stepwise hN _

theorem enterEnumKind_stepwise : Stepwise N (enterEnumKind t) := by
  apply get.bind
  intro _
  apply (need_stepwise _ _).bind
  intro e
  refine bind (turn_stepwise hN _ fun _ => id) fun _ => ?_
  split
  · exact (edit_stepwise hN fun _ => .flag e).bind fun _ => turn_stepwise hN _ fun _ => id
  · exact pure ()

theorem enterOperation_stepwise [Yaml.Readers] (hr : r.Declares) :
    Stepwise N (enterOperation t) := by
  apply declare_stepwise hN
  intro i tags
  refine bind (edit_stepwise hN fun _ => .operation hr i tags _) fun _ => ?_
  refine bind (turn_stepwise hN _ fun _ => id) fun _ => ?_
  exact (annotate_stepwise hN _).bind fun _ => giveType_stepwise hN rfl

theorem enterSignal_stepwise [Yaml.Readers] (hr : r.Declares) : Stepwise N (enterSignal t) := by
  apply declare_stepwise hN
  intro i tags
  refine bind (edit_stepwise hN fun _ => .signal hr i tags) fun _ => ?_
  exact bind (turn_stepwise hN _ fun _ => id) fun _ => annotate_stepwise hN _

theorem enterParameter_stepwise (hr : r.Declares) : Stepwise N (enterParameter t) := by
  apply declare_stepwise hN
  intro owner tags
  refine (edit_stepwise hN fun _ => .parameter hr owner tags).bind fun _ =>
    turn_stepwise hN _ fun _ hx => ⟨?_,hx.2⟩
  rintro _ ⟨⟩
  cases owner <;> rfl

theorem exitParameter_stepwise : Stepwise N (exitParameter t) := by
  apply Stepwise.getThen
  intro d hd
  cases hp : d.focus.parameter with
  | none => exact throw _ d hd
  | some p => exact giveType_stepwise hN (hd.1 p hp) d hd

theorem enterProperty_stepwise [Yaml.Readers] (hr : r.Declares) : Stepwise N (enterProperty t) := by
  apply declare_stepwise hN
  intro i tags
  refine bind (edit_stepwise hN fun _ => .property hr i tags _ _) fun _ => ?_
  apply (annotate_stepwise hN _).bind
  intro _
  apply (giveType_stepwise hN rfl).bind
  intro _
  exact (defaultValue_stepwise t).bind fun value => edit_stepwise hN fun _ =>
    .propertyValue i _ value

theorem enterField_stepwise [Yaml.Readers] (hr : r.Declares) : Stepwise N (enterField t) := by
  apply declare_stepwise hN
  intro s tags
  refine bind (edit_stepwise hN fun _ => .field hr s tags) fun _ => ?_
  refine (turn_stepwise hN _ ?_).bind fun _ => ?_
  · exact fun _ hx => ⟨hx.1,by rintro _ ⟨⟩; rfl⟩
  apply (annotate_stepwise hN _).bind
  intro _
  exact (defaultValue_stepwise t).bind fun value => edit_stepwise hN fun _ => .fieldValue s _ value

theorem exitField_stepwise : Stepwise N (exitField t) := by
  apply Stepwise.getThen
  intro d hd
  cases hp : d.focus.field with
  | none => exact throw _ d hd
  | some p =>
    have hturn : Stepwise N (turn fun f => { f with field := none }) :=
      turn_stepwise hN _ fun _ hx => ⟨hx.1,by rintro _ ⟨⟩⟩
    exact (giveType_stepwise hN (hd.2 p hp)).bind (fun _ => hturn) d hd

theorem enterMember_stepwise [Yaml.Readers] (hr : r.Declares) : Stepwise N (enterMember t) := by
  apply declare_stepwise hN
  intro e tags
  refine bind (edit_stepwise hN fun _ => .member hr e tags) fun _ => ?_
  refine (turn_stepwise hN _ ?_).bind fun _ => ?_
  · exact fun _ hx => ⟨hx.1,by rintro _ ⟨⟩; rfl⟩
  apply (memberNumber_stepwise t).bind
  intro value
  apply (edit_stepwise hN fun _ => .memberValue e _ value).bind
  intro _
  exact (annotate_stepwise hN _).bind fun _ => get.bind fun _ => turn_stepwise hN _ fun _ => id

theorem enter_stepwise [Yaml.Readers] : Stepwise N (enter r t) := by
  cases r with
  | moduleHead => exact enterModule_stepwise hN
  | importLine => exact enterImport_stepwise hN
  | interface => exact enterInterface_stepwise hN (by decide)
  | struct => exact enterStruct_stepwise hN (by decide)
  | enum => exact enterEnum_stepwise hN (by decide)
  | enumKind => exact enterEnumKind_stepwise hN
  | operation => exact enterOperation_stepwise hN (by decide)
  | signal => exact enterSignal_stepwise hN (by decide)
  | parameter => exact enterParameter_stepwise hN (by decide)
  | property => exact enterProperty_stepwise hN (by decide)
  | structField => exact enterField_stepwise hN (by decide)
  | enumMember => exact enterMember_stepwise hN (by decide)
  | _ => exact pure ()

end

theorem exit_stepwise (hN : N r t) : Stepwise N (exit r t) := by
  cases r with
  | interface | struct | enum | operation | signal => exact turn_stepwise hN _ fun _ => id
  | enumMember => exact turn_stepwise hN _ fun _ hx => ⟨hx.1,by rintro _ ⟨⟩⟩
  | parameter => exact exitParameter_stepwise hN
  | structField => exact exitField_stepwise hN
  | _ => exact pure ()

end

mutual
theorem walk_stepwise [Yaml.Readers] {N : Rule → Tree → Prop} :
    (t : Tree) → (∀ r us, .node r us ∈ t.nodes → N r (.node r us)) →
    Stepwise N (walk t)
  | .leaf _, _ => pure ()
  | .node r ts, h => by
      have hN : N r (.node r ts) := h r ts (by simp [Tree.nodes])
      rw [walk]
      apply (enter_stepwise hN).bind
      intro _
      apply (walkAll_stepwise ts fun q us hn => h q us (by simp [Tree.nodes,hn])).bind
      intro _
      exact exit_stepwise hN

theorem walkAll_stepwise [Yaml.Readers] {N : Rule → Tree → Prop} : (ts : List Tree) →
    (∀ r us, .node r us ∈ Tree.nodesOf ts → N r (.node r us)) → Stepwise N (walkAll ts)
  | [], _ => pure ()
  | t :: ts, h => by
      rw [walkAll]
      apply (walk_stepwise t fun q us hn => h q us (by simp [Tree.nodesOf,hn])).bind
      intro _
      exact walkAll_stepwise ts fun q us hn => h q us (by simp [Tree.nodesOf,hn])
end

end Drafting

/-- What a new module has and no change breaks holds of every module that a walk leaves. -/
theorem ofDocument_invariant [Yaml.Readers] {I : Module → Prop} {t : Tree} {number : Nat}
    (hbegin : ∀ us tags, .node .moduleHead us ∈ t.nodes →
      I { common := { name := Drafting.nameOf (.node .moduleHead us), tags, origin := .root number }
          version := Drafting.textOf (.node .moduleHead us) .version })
    (hchange : ∀ r us m m', .node r us ∈ t.nodes → Change r (.node r us) m m' → I m → I m') (store :
      Store) {m : Module}
    (hm : (Draft.ofDocument number t store).2.module = some m) : I m := by
  let N : Rule → Tree → Prop := fun r u => ∃ us, u = .node r us ∧ .node r us ∈ t.nodes
  have hsteps : ∀ d : Draft, Draft.Reaches N { number, store } d →
      d.number = number ∧ ∀ m, d.module = some m → I m := by
    intro d hd
    induction hd with
    | refl => exact ⟨rfl,fun _ h => nomatch h⟩
    | tail _ hstep ih =>
      obtain ⟨r,_,⟨us,rfl,hn⟩,hs⟩ := hstep
      cases hs with
      | aside hnumber hmodule _ =>
        exact ⟨hnumber.trans ih.1,fun m hm => ih.2 m (hmodule.symm.trans hm)⟩
      | begin hr tags =>
        subst hr
        refine ⟨ih.1,fun m hm => ?_⟩
        obtain rfl := Option.some.inj hm
        rw [ih.1]
        exact hbegin us tags hn
      | edit hm₀ hc =>
        refine ⟨ih.1,fun m hm => ?_⟩
        obtain rfl := Option.some.inj hm
        exact hchange r us _ _ hn hc (ih.2 _ hm₀)
  have hwalk : Stepwise N (Drafting.walk t) := Drafting.walk_stepwise t fun r us hn => ⟨us,rfl,hn⟩
  exact (hsteps _ (hwalk { number, store } ⟨nofun,nofun⟩).1).2 m hm

end InterfaceKit.Model
