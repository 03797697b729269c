import InterfaceKit.Proofs.Model.Walk

/-!
# Walking through structures and enumerations

The fields of a structure get their types when the walk leaves them, the members of an enumeration
their numbers when it enters them. Both stand in the same place of the focus, which is empty in
between.
-/
namespace InterfaceKit.Grammar.Phrase

theorem EnumMember.node?_integer (k : EnumMember) :
    (Tree.node .enumMember k.parts).node? .integer = k.number.map fun n =>
    .node .integer [.leaf n.2.val] := by
  cases k with
  | mk a n number cm => cases number <;> simp [Tree.node?_node,EnumMember.parts]

theorem text_integer (w : WordOf [.integer,.hexInteger]) :
    (Tree.node .integer [.leaf w.val]).text = w.val.text := by
  simp [Tree.text,String.join]

theorem Enum.token?_flagWord (e : Enum) :
    ((Tree.node .enumKind [.leaf e.word.val]).token? .flagWord).isSome = e.isFlag := by
  by_cases hk : e.word.val.kind = .flagWord <;> simp [Tree.token?_node,wordsIn_leaf,hk,Enum.isFlag]

end InterfaceKit.Grammar.Phrase

namespace InterfaceKit.Model
open Grammar Lexical

def Struct.putField (x : Struct) (n : String) (y : Field) : Struct :=
  { x with fields := x.fields.set n y }

def Enum.putMember (x : Enum) (n : String) (y : Member) : Enum :=
  { x with members := x.members.set n y }

namespace Module
variable {m : Module} {s e n : String}

theorem modifyField_put (x : Struct) (y : Field) (g : Field → Field) :
    (m.putStruct s (x.putField n y)).modifyField s n g = m.putStruct s (x.putField n (g y)) := by
  simp only [modifyField,modifyStruct_put,Struct.putField,Table.modify_set]

theorem modifyMember_put (x : Enum) (y : Member) (g : Member → Member) :
    (m.putEnum e (x.putMember n y)).modifyMember e n g = m.putEnum e (x.putMember n (g y)) := by
  simp only [modifyMember,modifyEnum_put,Enum.putMember,Table.modify_set]

end Module

namespace Leads
variable {m : Module} {f : Focus} {s e n : String}

theorem editStruct {x : Struct} (g g' : Struct → Struct)
    (h : ∀ x x', x.Like .untagged x' → (g x).Like .untagged (g' x')) :
    Leads (Drafting.edit (·.modifyStruct s g)) (m.putStruct s x) f (m.putStruct s (g' x)) f := by
  rw [← Module.modifyStruct_put]
  exact edit _ (·.modifyStruct s g') fun _ _ hm => hm.modifyStruct s h

theorem editField {x : Struct} {y : Field} (g g' : Field → Field)
    (h : ∀ y y', y.Like .untagged y' → (g y).Like .untagged (g' y')) :
    Leads (Drafting.edit (·.modifyField s n g)) (m.putStruct s (x.putField n y)) f
      (m.putStruct s (x.putField n (g' y))) f := by
  rw [← Module.modifyField_put]
  exact edit _ (·.modifyField s n g') fun _ _ hm => hm.modifyField s n h

theorem editEnum {x : Enum} (g g' : Enum → Enum)
    (h : ∀ x x', x.Like .untagged x' → (g x).Like .untagged (g' x')) :
    Leads (Drafting.edit (·.modifyEnum e g)) (m.putEnum e x) f (m.putEnum e (g' x)) f := by
  rw [← Module.modifyEnum_put]
  exact edit _ (·.modifyEnum e g') fun _ _ hm => hm.modifyEnum e h

theorem editMember {x : Enum} {y : Member} (g g' : Member → Member)
    (h : ∀ y y', y.Like .untagged y' → (g y).Like .untagged (g' y')) :
    Leads (Drafting.edit (·.modifyMember e n g)) (m.putEnum e (x.putMember n y)) f
      (m.putEnum e (x.putMember n (g' y))) f := by
  rw [← Module.modifyMember_put]
  exact edit _ (·.modifyMember e n g') fun _ _ hm => hm.modifyMember e n h

end Leads

namespace Drafting
variable {m : Module} {q : Option Place}

/-! ## Structures -/

variable {e s : String} {x : Enum} {f : Focus}

theorem enterField_leads [Yaml.Readers] {x : Struct} (y : Phrase.Field) :
    Leads (enterField (.node .structField y.parts))
      (m.putStruct s x) { struct := some s, parameter := q }
      (m.putStruct s (x.putField y.name.val.text
        { common := { name := y.name.val.text, comment := y.annotations.text }
          value := Phrase.defaultText y.value }))
      { struct := some s, parameter := q, field := some (.field s y.name.val.text) } := by
  have hname : nameOf (.node .structField y.parts) = y.name.val.text :=
    nameOf_node (by simp [Phrase.Field.parts])
  have hvalue : readable (.node .structField y.parts) = Phrase.defaultText y.value :=
    readable_node (by simp [Phrase.Field.parts])
  have hs : Sits (.field s y.name.val.text) fun c =>
      m.putStruct s (x.putField y.name.val.text { common := c }) :=
    fun c g => Module.modifyField_put x _ _
  refine Ensures.get fun d hd => ?_
  simp only [hd.focus,need,pure_bind]
  refine fresh_bind fun tags => ?_
  simp only [hname]
  refine Ensures.after (Leads.editStruct _ (fun x => x.putField y.name.val.text
    { common := { name := y.name.val.text } }) fun _ _ hx => ?_) ?_
  · exact { hx with fields := hx.fields.set _ ⟨⟨rfl,rfl,rfl,rfl,rfl⟩,rfl⟩ }
  refine Ensures.after (Leads.turn _) ?_
  refine Ensures.after (annotate_seat hs y.annotations (by simp [Phrase.Field.parts]) _) ?_
  refine Ensures.bind (defaultValue_ensures _) ?_
  rintro _ _ _ ⟨rfl,rfl,rfl⟩
  rw [hvalue]
  exact Leads.editField _ (fun z => { z with value := Phrase.defaultText y.value })
    fun _ _ hz => { hz with value := rfl }

theorem field_leads [Yaml.Readers] {x : Struct} (y : Phrase.Field) :
    Leads (walk (.node .structField y.parts)) (m.putStruct s x) { struct := some s, parameter := q }
      (m.putStruct s (x.putField y.describes.1 y.describes.2))
      { struct := some s, parameter := q } := by
  have hnodes : nodesIn .type y.parts = [y.type.tree] := by simp [Phrase.Field.parts]
  have hchildren : walkAll y.parts = pure () := by simp [Phrase.Field.parts]
  have hs : Sits (.field s y.name.val.text) fun c =>
      m.putStruct s
        (x.putField y.name.val.text { common := c, value := Phrase.defaultText y.value }) :=
    fun c g => Module.modifyField_put x _ _
  rw [walk,hchildren]
  simp only [pure_bind]
  refine Ensures.after (enterField_leads y) (Ensures.get fun d hd => ?_)
  simp only [hd.focus,need,pure_bind]
  exact Ensures.after (giveType_seat hs (typeOf_node hnodes) _)
    (Leads.turn fun f => { f with field := none })

theorem fields_leads [Yaml.Readers] {x : Struct} (ys : List Phrase.Field) :
    Leads (walkAll (ys.map fun y => .node .structField y.parts))
      (m.putStruct s x) { struct := some s, parameter := q }
      (m.putStruct s { x with fields := x.fields.setAll (ys.map (·.describes)) })
      { struct := some s, parameter := q } := by
  induction ys generalizing x with
  | nil => exact Leads.pure
  | cons y ys ih => exact Ensures.after (field_leads y) ih

theorem nameOf_struct (y : Phrase.Struct) : nameOf (.node .struct y.parts) = y.name.val.text :=
  nameOf_node (by simp [Phrase.Struct.parts])

theorem enterStruct_leads [Yaml.Readers] (y : Phrase.Struct) :
    Leads (enterStruct (.node .struct y.parts)) m { parameter := q }
      (m.putStruct y.name.val.text
        { common := { name := y.name.val.text, comment := y.annotations.text } })
      { struct := some y.name.val.text, parameter := q } := by
  have hs : Sits (.struct y.name.val.text) fun c => m.putStruct y.name.val.text { common := c } :=
    fun c g => Module.modifyStruct_put _ _
  refine Ensures.get fun d hd => ?_
  obtain ⟨m₀,hm₀,-⟩ := hd.like
  simp only [hm₀,need,pure_bind]
  refine fresh_bind fun tags => ?_
  simp only [nameOf_struct]
  refine Ensures.after (Leads.edit _ (fun m => m.putStruct y.name.val.text
    { common := { name := y.name.val.text } }) fun _ _ hm => ?_) ?_
  · exact { hm with structs := hm.structs.set _ ⟨⟨rfl,rfl,rfl,rfl,rfl⟩,.nil⟩ }
  refine Ensures.after (Leads.turn _) ?_
  exact annotate_seat hs y.annotations (by simp [Phrase.Struct.parts]) _

theorem struct_leads [Yaml.Readers] (y : Phrase.Struct) :
    Leads (walk (.node .struct y.parts)) m { parameter := q }
      (m.putStruct y.describes.1 y.describes.2) { parameter := q } := by
  have hchildren : walkAll y.parts = walkAll (y.fields.map fun z => .node .structField z.parts) := by
    simp [Phrase.Struct.parts]
  have hfields := fields_leads (m := m) (q := q) (s := y.name.val.text)
    (x := { common := { name := y.name.val.text, comment := y.annotations.text } }) y.fields
  simp only [Table.setAll_nil] at hfields
  rw [walk,hchildren]
  refine Ensures.after (enterStruct_leads y) (Ensures.after hfields ?_)
  exact Leads.turn fun f => { f with struct := none }

/-! ## Enumerations -/

theorem flag_of_shows {d : Draft} (h : d.Shows (m.putEnum e x) f) :
    (d.module.bind (·.enums.get? e)).any (·.isFlag) = x.isFlag := by
  obtain ⟨m₀,hm₀,hlike⟩ := h.like
  obtain ⟨y,hy,hkind⟩ := hlike.enums.exists_get? (Table.get?_set m.enums e x)
  rw [hm₀,Option.bind_some,hy]
  exact congrArg Prod.snd hkind.kind

theorem automaticNumber_succ (flag : Bool) (position : Nat) :
    (if flag then 2 * Phrase.automaticNumber flag position
      else Phrase.automaticNumber flag position + 1) =
      Phrase.automaticNumber flag (position + 1) := by
  cases flag with
  | false => rfl
  | true => exact (Nat.pow_succ').symm

theorem memberNumber_ensures (k : Phrase.EnumMember) (flag : Bool) (position : Nat)
    (hf : f.counter = Phrase.automaticNumber flag position) :
    Ensures (memberNumber (.node .enumMember k.parts)) m f fun v m' f' =>
      v = k.value flag position ∧ m' = m ∧ f' = f := by
  rw [memberNumber,k.node?_integer,Phrase.EnumMember.value]
  cases k.number with
  | none =>
    refine Ensures.get fun d hd => ?_
    rw [hd.focus,hf]
    exact Ensures.pure ⟨rfl,rfl,rfl⟩
  | some n =>
    simp only [Option.map_some,Phrase.text_integer]
    cases integerValue n.2.val.text with
    | ok v => exact Ensures.pure ⟨rfl,rfl,rfl⟩
    | error e => exact fun _ _ => ⟨_,rfl⟩

theorem words_enumMember (k : Phrase.EnumMember) :
    wordsIn .docComment k.parts = k.annotations.comment.toList.map (·.val) ∧
      wordsIn .identifier k.parts = [k.name.val] := by
  cases k with
  | mk a n number cm => cases number <;> simp [Phrase.EnumMember.parts]

theorem nameOf_enumMember (k : Phrase.EnumMember) :
    nameOf (.node .enumMember k.parts) = k.name.val.text :=
  nameOf_node (by rw [(words_enumMember k).2]; rfl)

theorem enterMember_leads [Yaml.Readers] (k : Phrase.EnumMember) (position : Nat) :
    Leads (enterMember (.node .enumMember k.parts)) (m.putEnum e x)
      { enum := some e, counter := Phrase.automaticNumber x.isFlag position, parameter := q }
      (m.putEnum e (x.putMember (k.describes x.isFlag position).1 (k.describes x.isFlag position).2))
      { enum := some e, counter := Phrase.automaticNumber x.isFlag (position + 1), parameter := q
        field := some (.member e k.name.val.text) } := by
  have hcomment := (words_enumMember k).1
  have hs : Sits (.member e k.name.val.text) fun c => m.putEnum e (x.putMember k.name.val.text
      { common := c, value := k.value x.isFlag position }) :=
    fun c g => Module.modifyMember_put x _ _
  refine Ensures.get fun d hd => ?_
  simp only [hd.focus,need,pure_bind]
  refine fresh_bind fun tags => ?_
  simp only [nameOf_enumMember]
  refine Ensures.after (Leads.editEnum _ (fun x => x.putMember k.name.val.text
    { common := { name := k.name.val.text } }) fun _ _ hx => ?_) ?_
  · exact { hx with members := hx.members.set _ ⟨⟨rfl,rfl,rfl,rfl,rfl⟩,rfl⟩ }
  refine Ensures.after (Leads.turn _) ?_
  refine Ensures.bind (memberNumber_ensures k x.isFlag position rfl) ?_
  rintro _ _ _ ⟨rfl,rfl,rfl⟩
  refine Ensures.after (Leads.editMember _
    (fun y => { y with value := k.value x.isFlag position }) fun _ _ hy =>
      { hy with value := rfl }) ?_
  refine Ensures.after (annotate_seat hs k.annotations hcomment _) ?_
  refine Ensures.get fun d hd => ?_
  have hflag : (d.module.bind (·.enums.get? e)).any (·.isFlag) = x.isFlag :=
    (flag_of_shows hd).trans rfl
  simp only [hflag,← automaticNumber_succ x.isFlag position]
  exact Leads.turn fun f => { f with counter := if x.isFlag then 2 * f.counter else f.counter + 1 }

theorem enumMember_leads [Yaml.Readers] (k : Phrase.EnumMember) (position : Nat) :
    Leads (walk (.node .enumMember k.parts)) (m.putEnum e x)
      { enum := some e, counter := Phrase.automaticNumber x.isFlag position, parameter := q }
      (m.putEnum e (x.putMember (k.describes x.isFlag position).1 (k.describes x.isFlag position).2))
      { enum := some e, counter := Phrase.automaticNumber x.isFlag (position +
        1), parameter := q } := by
  have hchildren : walkAll k.parts = pure () := by
    cases k with
    | mk a n number cm => cases number <;> simp [Phrase.EnumMember.parts,walk,enter,exit]
  rw [walk,hchildren]
  simp only [pure_bind]
  exact Ensures.after (enterMember_leads k position) (Leads.turn fun f => { f with field := none })

theorem enumMembers_leads [Yaml.Readers] (ks : List Phrase.EnumMember) (position : Nat) :
    Leads (walkAll (ks.map fun k => .node .enumMember k.parts)) (m.putEnum e x)
      { enum := some e, counter := Phrase.automaticNumber x.isFlag position, parameter := q }
      (m.putEnum e { x with
        members := x.members.setAll (ks.mapIdx fun j k => k.describes x.isFlag (position + j)) })
      { enum := some e, counter := Phrase.automaticNumber x.isFlag (position +
        ks.length), parameter := q } := by
  induction ks generalizing x position with
  | nil => exact Leads.pure
  | cons k ks ih =>
    have hrest :=
      ih (x := x.putMember (k.describes x.isFlag position).1 (k.describes x.isFlag position).2)
      (position + 1)
    have hshift : ∀ j, position + (j + 1) = position + 1 + j := by omega
    have hidx : (fun j (k : Phrase.EnumMember) => k.describes x.isFlag (position + (j + 1))) =
        fun j k => k.describes x.isFlag (position + 1 + j) := by
      funext j k
      rw [hshift]
    rw [List.mapIdx_cons,List.length_cons,hidx,hshift ks.length]
    exact Ensures.after (enumMember_leads k position) hrest

theorem nameOf_enum (y : Phrase.Enum) : nameOf (.node .enum y.parts) = y.name.val.text :=
  nameOf_node (by simp [Phrase.Enum.parts])

theorem enterEnum_leads [Yaml.Readers] (y : Phrase.Enum) :
    Leads (enterEnum (.node .enum y.parts)) m { parameter := q }
      (m.putEnum y.name.val.text
        { common := { name := y.name.val.text, comment := y.annotations.text } })
      { enum := some y.name.val.text, parameter := q } := by
  have hs : Sits (.enum y.name.val.text) fun c => m.putEnum y.name.val.text { common := c } :=
    fun c g => Module.modifyEnum_put _ _
  refine Ensures.get fun d hd => ?_
  obtain ⟨m₀,hm₀,-⟩ := hd.like
  simp only [hm₀,need,pure_bind]
  refine fresh_bind fun tags => ?_
  simp only [nameOf_enum]
  refine Ensures.after (Leads.edit _ (fun m => m.putEnum y.name.val.text
    { common := { name := y.name.val.text } }) fun _ _ hm => ?_) ?_
  · exact { hm with enums := hm.enums.set _ ⟨⟨rfl,rfl,rfl,rfl,rfl⟩,rfl,.nil⟩ }
  refine Ensures.after (Leads.turn _) ?_
  exact annotate_seat hs y.annotations (by simp [Phrase.Enum.parts]) _

theorem enumKind_leads [Yaml.Readers] {c : Common} (y : Phrase.Enum) :
    Leads (walk (.node .enumKind [.leaf y.word.val])) (m.putEnum e { common := c })
      { enum := some e, parameter := q }
      (m.putEnum e { common := c, isEnum := !y.isFlag, isFlag := y.isFlag })
      { enum := some e, counter := Phrase.automaticNumber y.isFlag 0, parameter := q } := by
  rw [walk]
  simp only [walkAll_cons,walk_leaf,walkAll_nil,pure_bind,enter,exit,bind_pure_unit]
  refine Ensures.get fun d hd => ?_
  simp only [hd.focus,need,pure_bind,y.token?_flagWord]
  refine Ensures.after (Leads.turn _) ?_
  cases y.isFlag with
  | false => exact Leads.pure
  | true =>
    refine Ensures.after (Leads.editEnum _ (fun x => { x with isEnum := false, isFlag := true })
      fun _ _ hx => { hx with kind := rfl }) ?_
    exact Leads.turn fun f => { f with counter := 1 }

theorem enum_leads [Yaml.Readers] (y : Phrase.Enum) :
    Leads (walk (.node .enum y.parts)) m { parameter := q }
      (m.putEnum y.describes.1 y.describes.2) { parameter := q } := by
  have hchildren : walkAll y.parts = walk (.node .enumKind [.leaf y.word.val]) >>= fun _ =>
      walkAll (y.members.map fun k => .node .enumMember k.parts) := by
    simp [Phrase.Enum.parts]
  have hmembers := enumMembers_leads (m := m) (q := q) (e := y.name.val.text)
    (x := { common := { name := y.name.val.text, comment := y.annotations.text }
            isEnum := !y.isFlag, isFlag := y.isFlag }) y.members 0
  simp only [Table.setAll_nil,Nat.zero_add] at hmembers
  rw [walk,hchildren]
  simp only [bind_assoc]
  refine Ensures.after (enterEnum_leads y)
    (Ensures.after (enumKind_leads y) (Ensures.after hmembers ?_))
  exact Leads.turn fun f => { f with enum := none, counter := 0 }

end Drafting

end InterfaceKit.Model
