import InterfaceKit.Proofs.Workspace.Consulting

/-!
# What resolving a type leaves as it is

A note about the reference of a type changes one layer of one symbol. What is written of all symbols
stays, and so does what is known of the other types. A type that does not dangle therefore gives the
same answer after any others have been resolved.
-/
namespace InterfaceKit.Model

namespace Table
variable {α β : Type} {t : Table α} {m n : String} {f : α → α}

theorem bind_get?_modify {k : α → Option β} (h : m = n → ∀ a, k (f a) = k a) :
    (t.modify m f).get? n >>= k = t.get? n >>= k := by
  induction t with
  | nil => rfl
  | cons e t ih =>
    obtain ⟨l,a⟩ := e
    rw [modify]
    split
    · next hl =>
        subst hl
        rw [get?_cons,get?_cons]
        split
        · next hn => exact h hn.symm a
        · rfl
    · rw [get?_cons,get?_cons]
      split
      · rfl
      · exact ih

theorem map_get?_modify {k : α → β} (h : m = n → ∀ a, k (f a) = k a) :
    ((t.modify m f).get? n).map k = (t.get? n).map k := by
  rw [Option.map_eq_bind,Option.map_eq_bind]
  exact bind_get?_modify fun hn a => congrArg some (h hn a)

theorem map_values_modify {k : α → β} (h : ∀ a, k (f a) = k a) (t : Table α) (n : String) :
    (t.modify n f).values.map k = t.values.map k := by
  induction t with
  | nil => rfl
  | cons e t ih =>
    obtain ⟨m,a⟩ := e
    unfold values at ih ⊢
    rw [modify]
    split
    · rw [List.map_cons,List.map_cons,List.map_cons,List.map_cons,h]
    · rw [List.map_cons,List.map_cons,List.map_cons,List.map_cons,ih]

end Table

namespace Module

/-- A change of one symbol is not seen at another place. -/
theorem common?_modifyCommon_of_ne {p q : Place} (h : p ≠ q) (m : Module) (f : Common → Common) :
    (m.modifyCommon p f).common? q = m.common? q := by
  cases p <;> cases q
  case module.module => exact absurd rfl h
  case interface.interface | struct.struct | enum.enum =>
    exact Table.map_get?_modify fun hi => absurd (by rw [hi]) h
  case property.property | operation.operation | signal.signal | field.field | member.member =>
    exact Table.bind_get?_modify fun hi _ => Table.map_get?_modify fun hk => absurd (by rw [hi,hk]) h
  case operationParameter.operationParameter | signalParameter.signalParameter =>
    refine Table.bind_get?_modify fun hi _ => Table.bind_get?_modify fun ho _ =>
      Table.map_get?_modify fun hk => ?_
    exact absurd (by rw [hi,ho,hk]) h
  all_goals first
    | rfl
    | exact Table.map_get?_modify fun _ _ => rfl
    | exact Table.bind_get?_modify fun _ _ => rfl
    | exact Table.bind_get?_modify fun _ _ => Table.map_get?_modify fun _ _ => rfl
    | exact Table.bind_get?_modify fun _ _ => Table.bind_get?_modify fun _ _ => rfl

/-- Whether an enumeration of the module is a plain one, and the names of its members. -/
def enumeration? (m : Module) (e : String) : Option (Bool × List String) :=
  (m.enums.get? e).map fun x => (x.isEnum, x.members.values.map (·.common.name))

theorem enumeration?_note (m : Module) (p : Place) (depth : Nat) (g : Resolution → Resolution)
    (e : String) :
    (m.note p depth g).enumeration? e = m.enumeration? e := by
  cases p with
  | enum e' => exact Table.map_get?_modify fun _ _ => rfl
  | member e' k =>
    refine Table.map_get?_modify fun _ x => congrArg (x.isEnum, ·) ?_
    apply Table.map_values_modify
    intro y
    rfl
  | _ => rfl

end Module

namespace System
variable {s s' : System} {t t' : TypeHandle} {h h' : Handle}

theorem common?_modifyCommon_of_ne (hne : h ≠ h') (s : System) (f : Common → Common) :
    (s.modifyCommon h f).common? h' = s.common? h' := by
  obtain ⟨id,p⟩ := h
  obtain ⟨id',q⟩ := h'
  rw [common?,modifyCommon,modifyModule,module?,List.getElem?_modify,common?,module?]
  by_cases hid : id = id'
  · subst hid
    have hplace : p ≠ q := fun hplace => hne (by rw [hplace])
    simp only [if_true]
    cases s.archive[id]? with
    | none => rfl
    | some m => exact m.common?_modifyCommon_of_ne hplace f
  · simp [hid]

theorem layer?_note_of_ne (hne : t ≠ t') (s : System) (g : Resolution → Resolution) :
    (s.note t g).layer? t' = s.layer? t' := by
  obtain ⟨owner,depth⟩ := t
  obtain ⟨owner',depth'⟩ := t'
  by_cases howner : owner = owner'
  · subst howner
    have hdepth : depth ≠ depth' := fun hdepth => hne (by rw [hdepth])
    exact (s.layer?_modifyLayer ⟨owner,depth⟩ depth' (·.note g)).trans (if_neg hdepth)
  · rw [note,modifyLayer,layer?,common?_modifyCommon_of_ne howner,layer?]

theorem wording?_note_all (s : System) (t : TypeHandle) (g : Resolution → Resolution) (h : Handle) :
    (s.note t g).wording? h = s.wording? h := by
  by_cases howner : t.owner = h
  · subst howner
    exact s.wording?_note t g
  · rw [wording?,note,modifyLayer,common?_modifyCommon_of_ne howner,wording?]

/-- Whether an enumeration is a plain one, and the names of its members. -/
def enumeration? (s : System) (id : Nat) (e : String) : Option (Bool × List String) :=
  (s.module? id).bind (·.enumeration? e)

theorem enumeration?_note (s : System) (t : TypeHandle) (g : Resolution → Resolution) (id : Nat)
    (e : String) :
    (s.note t g).enumeration? id e = s.enumeration? id e := by
  rw [enumeration?,module?_note,enumeration?]
  split
  · cases s.module? id with
    | none => rfl
    | some m => exact m.enumeration?_note _ _ g e
  · rfl

/-! ## Answers -/

/-- What a type answers depends on its layer and on what its name is looked up to. -/
theorem Sound.reference_eq (hs : s.Sound) (t : TypeHandle) :
    (s.reference t).1 = (s.layer? t).elim (.ok none) fun l =>
      if l.isComplex && !l.resolution.attempted then
      (s.lookupFrom t.owner.module l.name none).map some
      else .ok l.resolution.target := by
  have hreferring := hs.referring t
  revert hreferring
  rcases s.reference t with ⟨r,s'⟩
  intro hreferring
  cases hreferring with
  | none hl => simp [hl]
  | again hl ha => simp [hl,ha]
  | plain hl ha hc => simp [hl,hc]
  | found hl ha hc he | dangling hl ha hc he => simp [hl,ha,hc,he,Except.map]

/-- A type dangles if and only if it fails to answer. -/
theorem Sound.dangles_iff (hs : s.Sound) (t : TypeHandle) :
    s.Dangles t ↔ ∃ failure, (s.reference t).1 = .error failure := by
  rcases hs.answer t with ⟨hanswer,hnot⟩ | ⟨⟨name,hanswer⟩,hdangles⟩
  · refine ⟨fun hdangles => absurd hdangles hnot,fun ⟨failure,he⟩ => ?_⟩
    rw [hanswer] at he
    cases he
  · exact ⟨fun _ => ⟨_,hanswer⟩,fun _ => hdangles⟩

/-- Another type is asked, or the same one again. -/
theorem Sound.reference_reference (hs : s.Sound) (hnot : ¬ s.Dangles t) (t' : TypeHandle) :
    ((s.reference t').2.reference t).1 = (s.reference t).1 := by
  by_cases heq : t' = t
  · subst heq
    rcases hs.answer t' with ⟨hanswer,-⟩ | ⟨-,hdangles⟩
    · rw [(hs.referring t').settled,hanswer]
    · exact absurd hdangles hnot
  · have hlayer : (s.reference t').2.layer? t = s.layer? t :=
      (hs.referring t').invariant (·.layer? t) fun s g => layer?_note_of_ne heq s g
    rw [(hs.reference t').reference_eq,hs.reference_eq,hlayer]
    cases hl : s.layer? t with
    | none => rfl
    | some l =>
      cases hc : l.isComplex with
      | false => simp [hc]
      | true =>
        simp only [Option.elim_some,
          lookupFrom_congr (s.outline_reference t') _ (hs.complex hl hc).2]

/-- Whatever is resolved, what is written of symbols stays. -/
theorem Sound.wording?_resolves (hs : s.Sound) (h' : s.Resolves s') (h : Handle) :
    s'.wording? h = s.wording? h := by
  induction h' with
  | refl => rfl
  | @step s' hresolves t ih =>
    have hreferring := (hs.resolves hresolves).referring t
    exact (hreferring.invariant (·.wording? h) fun s g => s.wording?_note_all t g h).trans ih

/-- Whatever is resolved, what is written of symbols and enumerations stays, and so does the answer
of a type that does not dangle. -/
structure Agree (t : TypeHandle) (s s' : System) : Prop where
  answer : (s'.reference t).1 = (s.reference t).1
  wording : ∀ h, s'.wording? h = s.wording? h
  enumeration : ∀ id e, s'.enumeration? id e = s.enumeration? id e

theorem Sound.agree (hs : s.Sound) (hnot : ¬ s.Dangles t) (h : s.Resolves s') : Agree t s s' := by
  induction h with
  | refl => exact ⟨rfl,fun _ => rfl,fun _ _ => rfl⟩
  | @step s' hresolves t' ih =>
    have hs' := hs.resolves hresolves
    have hnot' : ¬ s'.Dangles t := by
      rw [hs'.dangles_iff,ih.answer,← hs.dangles_iff]
      exact hnot
    exact
      { answer := (hs'.reference_reference hnot' t').trans ih.answer
        wording := hs.wording?_resolves (.step hresolves t')
        enumeration := fun id e =>
          ((hs'.referring t').invariant (·.enumeration? id e) fun s g =>
            s.enumeration?_note t' g id e).trans
            (ih.enumeration id e) }

end System

end InterfaceKit.Model
