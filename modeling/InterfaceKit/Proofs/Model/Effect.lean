import InterfaceKit.Proofs.Model.Description
import InterfaceKit.Proofs.Model.Likeness
import InterfaceKit.Workspace.Inquiry

/-!
# What a step of a walk does

A draft shows its module, without the tags and the origins, and its focus. `Ensures x m f Q` says of
a step `x` that begins with the module `m` and the focus `f` on show: either it fails to read a
value, or it ends as `Q` says. It never misses a symbol. Steps are put together by `Ensures.bind`.
-/
namespace InterfaceKit.Model
open Data Grammar Lexical

/-! ## Modules without their tags and origins -/

def Common.plain (c : Common) : Common := { c with tags := .null, origin := default }

def Module.plain (m : Module) : Module := m.mapCommon Common.plain

/-- Likeness to a module without tags and origins. -/
def Likeness.untagged : Likeness := ⟨fun _ v => v = .null,Eq,Eq,fun _ o => o = default⟩

variable {m m' : Module} {f f' : Focus} {x : Drafting Unit}

theorem Module.Like.plain (h : m.Like .untagged m') : m.plain = m' := by
  have hlike : m.plain.Like .exact m' :=
    h.mapCommon (fun hc => { hc with tags := hc.tags.symm, origin := hc.origin.symm }) id id
  exact hlike.eq

namespace Module

theorem plain_eq_mapCommon (m : Module) : m.plain = m.mapCommon Common.plain := rfl

theorem modifyCommon_eq_self {g : Common → Common} (h : ∀ c, g c = c) (m : Module) (p : Place) :
    m.modifyCommon p g = m := by
  cases p <;>
    simp [modifyCommon,modifyInterface,modifyOperation,modifySignal,modifyProperty,modifyStruct,
      modifyField,modifyEnum,modifyMember,Table.modify_eq_self,h]

end Module

/-! ## Steps -/

/-- What a draft shows. -/
structure Draft.Shows (d : Draft) (m : Module) (f : Focus) : Prop where
  like : ∃ m₀, d.module = some m₀ ∧ m₀.Like .untagged m
  focus : d.focus = f

variable {d : Draft}

theorem Draft.Shows.module (h : d.Shows m f) : d.module.map Module.plain = some m := by
  obtain ⟨m₀,hm₀,hlike⟩ := h.like
  rw [hm₀,Option.map_some,hlike.plain]

def Ensures {α : Type} (x : Drafting α) (m : Module) (f : Focus) (Q : α → Module → Focus → Prop) :
    Prop :=
  ∀ d : Draft, d.Shows m f →
    match x.run d with
    | (.ok a, d') => ∃ m' f', d'.Shows m' f' ∧ Q a m' f'
    | (.error o, _) => ∃ cause, o = .failed cause

namespace Ensures
variable {α β : Type} {m : Module} {f : Focus} {Q : α → Module → Focus → Prop}

theorem pure {a : α} (h : Q a m f) : Ensures (Pure.pure a) m f Q := fun _ hd => ⟨m,f,hd,h⟩

theorem bind {x : Drafting α} {k : α → Drafting β} {R : β → Module → Focus → Prop}
    (h : Ensures x m f Q) (hk : ∀ a m' f', Q a m' f' → Ensures (k a) m' f' R) :
    Ensures (x >>= k) m f R := by
  intro d hd
  have hx := h d hd
  rw [run_bind]
  revert hx
  rcases x.run d with ⟨r,d'⟩
  cases r with
  | error o => exact id
  | ok a =>
    rintro ⟨m',f',hs,hq⟩
    exact hk a m' f' hq d' hs

theorem get {k : Draft → Drafting α} (h : ∀ d, d.Shows m f → Ensures (k d) m f Q) :
    Ensures (MonadState.get >>= k) m f Q := fun d hd => h d hd d hd

end Ensures

/-- The step shows another module and focus. -/
def Leads (x : Drafting Unit) (m : Module) (f : Focus) (m' : Module) (f' : Focus) : Prop :=
  Ensures x m f fun _ m₁ f₁ => m₁ = m' ∧ f₁ = f'

theorem Leads.run (h : Leads x m f m' f') (hd : d.Shows m f) :
    match x.run d with
    | (.ok _, d') => d'.Shows m' f'
    | (.error o, _) => ∃ cause, o = .failed cause := by
  have hx := h d hd
  revert hx
  rcases x.run d with ⟨r,d'⟩
  cases r with
  | error o => exact id
  | ok a =>
    rintro ⟨_,_,hs,rfl,rfl⟩
    exact hs

theorem Ensures.after {β : Type} {k : Unit → Drafting β}
    {Q : β → Module → Focus → Prop} (h : Leads x m f m' f') (hk : Ensures (k ()) m' f' Q) :
    Ensures (x >>= k) m f Q := by
  refine bind h ?_
  rintro _ _ _ ⟨rfl,rfl⟩
  exact hk

namespace Leads
variable {m m' : Module} {f f' : Focus}

theorem pure : Leads (Pure.pure ()) m f m f := Ensures.pure ⟨rfl,rfl⟩

theorem edit (g g' : Module → Module)
    (hg : ∀ m m', m.Like .untagged m' → (g m).Like .untagged (g' m')) :
    Leads (Drafting.edit g) m f (g' m) f := by
  intro d hd
  obtain ⟨m₀,hm₀,hlike⟩ := hd.like
  exact ⟨g' m,f,⟨⟨g m₀,congrArg (Option.map g) hm₀,hg m₀ m hlike⟩,hd.focus⟩,rfl,rfl⟩

theorem editCommon {g g' : Common → Common} (p : Place)
    (hg : ∀ c c', c.Like .untagged c' → (g c).Like .untagged (g' c')) :
    Leads (Drafting.edit (·.modifyCommon p g)) m f (m.modifyCommon p g') f :=
  edit _ (·.modifyCommon p g') fun _ _ hm => hm.modifyCommon p hg

theorem turn (g : Focus → Focus) : Leads (Drafting.turn g) m f m (g f) :=
  fun _ hd => ⟨m,g f,⟨hd.like,congrArg g hd.focus⟩,rfl,rfl⟩

theorem print (s : Stream) (text : String) : Leads (Drafting.print s text) m f m f :=
  fun _ hd => ⟨m,f,⟨hd.like,hd.focus⟩,rfl,rfl⟩

theorem forM {α : Type} {body : α → Drafting Unit} (h : ∀ a, Leads (body a) m f m f) (as : List α) :
    Leads (as.forM body) m f m f := by
  induction as with
  | nil => exact pure
  | cons a as ih => exact Ensures.after (h a) ih

end Leads

/-! ## Comments, tags, types and values -/

namespace Drafting
variable {m : Module} {f : Focus}

/-- A new symbol gets its tags from the store. -/
theorem fresh_bind {α : Type} {name : String} {k : Common → Drafting α}
    {Q : α → Module → Focus → Prop} (h : ∀ tags, Ensures (k { name, tags }) m f Q) :
    Ensures (fresh name >>= k) m f Q := by
  have hfresh : Ensures (fresh name) m f fun c m' f' =>
      (∃ tags, c = { name, tags }) ∧ m' = m ∧ f' = f :=
    fun _ hd => ⟨m,f,⟨hd.like,hd.focus⟩,⟨_,rfl⟩,rfl,rfl⟩
  refine Ensures.bind hfresh ?_
  rintro _ _ _ ⟨⟨tags,rfl⟩,rfl,rfl⟩
  exact h tags

/-- What is shown of a module when the comment of a declaration has been read. -/
def commented (p : Place) (t : Tree) (m : Module) : Module :=
  match t.token? .docComment with
  | some c => m.modifyCommon p fun x => { x with comment := c.text }
  | none => m

theorem readComment_leads (p : Place) (t : Tree) :
    Leads (readComment p t) m f (commented p t m) f := by
  unfold readComment commented
  cases t.token? .docComment with
  | none => exact Leads.pure
  | some c => exact Leads.editCommon p fun _ _ hx => { hx with comment := rfl }

theorem giveTags_leads (p : Place) (tags : Value) :
    Leads (edit (·.modifyCommon p fun x => { x with tags })) m f m f := by
  have hedit := Leads.edit (m := m) (f := f) (·.modifyCommon p fun x => { x with tags })
    (·.modifyCommon p fun x => x)
    fun _ _ hm => hm.modifyCommon p fun _ _ hc => { hc with tags := hc.tags }
  rwa [Module.modifyCommon_eq_self fun _ => rfl] at hedit

theorem readTags_leads [Yaml.Readers] (p : Place) (t : Tree) : Leads (readTags p t) m f m f := by
  unfold readTags
  simp only
  split
  · exact Leads.pure
  · split
    · exact fun _ _ => ⟨_,rfl⟩
    · refine Ensures.get fun d hd => ?_
      split
      · refine Ensures.after ?_ (giveTags_leads p _)
        exact fun _ hd => ⟨m,f,⟨hd.like,hd.focus⟩,rfl,rfl⟩
      · exact fun _ _ => ⟨_,rfl⟩
      · exact Leads.print _ _

theorem annotate_leads [Yaml.Readers] (p : Place) (t : Tree) :
    Leads (annotate p t) m f (commented p t m) f :=
  Ensures.after (readComment_leads p t) (readTags_leads p t)

theorem checkKnown_leads (l : Layer) : Leads (checkKnown l) m f m f := by
  refine Ensures.get fun d hd => ?_
  split
  · exact Leads.print _ _
  · exact Leads.pure

theorem giveType_leads (p : Place) (t : Tree) :
    Leads (giveType p t) m f (m.modifyCommon p fun x => { x with type := Draft.typeOf t }) f := by
  have hedit : Leads (edit (·.modifyCommon p fun x => x.withType (Draft.typeOf t))) m f
      (m.modifyCommon p fun x => { x with type := Draft.typeOf t }) f :=
    Leads.editCommon p fun _ _ hx => { hx with type := rfl, origin := hx.origin }
  exact Ensures.after hedit (Leads.forM checkKnown_leads _)

def readable (t : Tree) : Option String := (t.token? .string).bind Phrase.unquoted

theorem defaultValue_ensures (t : Tree) :
    Ensures (defaultValue t) m f fun v m' f' => v = readable t ∧ m' = m ∧ f' = f := by
  unfold defaultValue readable
  cases t.token? .string with
  | none => exact Ensures.pure ⟨rfl,rfl,rfl⟩
  | some v =>
    simp only [Option.bind_some,Phrase.unquoted]
    cases v.hasSurrogate with
    | true => exact fun _ _ => ⟨_,rfl⟩
    | false =>
      cases Text.Escape.decodeText ((v.text.toList.drop 1).dropLast) with
      | ok codes => exact Ensures.pure ⟨rfl,rfl,rfl⟩
      | error e => exact fun _ _ => ⟨_,rfl⟩

end Drafting

end InterfaceKit.Model
