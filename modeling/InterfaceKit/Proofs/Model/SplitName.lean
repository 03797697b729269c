import InterfaceKit.Model.System
import Mathlib.Data.List.Basic

/-!
# Names taken apart

A name is divided at its last number sign, and what stands before it at its last dot.
`Text.splitLast?` finds the last occurrence of a character, so the parts of a name are known from
the characters that they lack. Put together, the parts give the name again.
-/
namespace InterfaceKit.Text
variable {sep : Char} {text : List Char}

theorem splitLast?_eq_none (h : sep ∉ text) : splitLast? sep text = none := by
  induction text with
  | nil => rfl
  | cons c text ih =>
    have hc : c ≠ sep := fun hc => h (by simp [hc])
    have hrest : sep ∉ text := fun hrest => h (by simp [hrest])
    simp [splitLast?,ih hrest,hc]

theorem splitLast?_append (before : List Char) {behind : List Char} (h : sep ∉ behind) :
    splitLast? sep (before ++ sep :: behind) = some (before, behind) := by
  induction before with
  | nil => simp [splitLast?,splitLast?_eq_none h]
  | cons c before ih => simp [splitLast?,ih]

/-- A text that holds the character is divided at its last occurrence. -/
theorem exists_splitLast (h : sep ∈ text) :
    ∃ before behind, text = before ++ sep :: behind ∧ sep ∉ behind := by
  induction text with
  | nil => cases h
  | cons c text ih =>
    by_cases hrest : sep ∈ text
    · obtain ⟨before,behind,rfl,hbehind⟩ := ih hrest
      exact ⟨c :: before,behind,rfl,hbehind⟩
    · have hc : c = sep := by simpa [hrest,eq_comm] using h
      exact ⟨[],text,by rw [hc]; rfl,hrest⟩

end InterfaceKit.Text

namespace InterfaceKit.Model
variable {t m f name : String}

theorem splitName_type (hdot : '.' ∉ t.toList) (hsign : '#' ∉ t.toList) :
    splitName t = ⟨none,t,none⟩ := by
  simp [splitName,Text.splitLast?_eq_none hsign,Text.splitLast?_eq_none hdot]

theorem splitName_symbol (hm : '#' ∉ m.toList) (ht : '#' ∉ t.toList) (hdot : '.' ∉ t.toList) :
    splitName (m ++ "." ++ t) = ⟨some m,t,none⟩ := by
  have htext : (m ++ "." ++ t).toList = m.toList ++ '.' :: t.toList := by simp
  have hsign : '#' ∉ m.toList ++ '.' :: t.toList := by simp [hm,ht]
  simp [splitName,htext,Text.splitLast?_eq_none hsign,Text.splitLast?_append _ hdot]

theorem splitName_fragment (hf : '#' ∉ f.toList) (hdot : '.' ∉ t.toList) :
    splitName (m ++ "." ++ t ++ "#" ++ f) = ⟨some m,t,some f⟩ := by
  have htext : (m ++ "." ++ t ++ "#" ++ f).toList =
      (m.toList ++ '.' :: t.toList) ++ '#' :: f.toList := by
    simp
  simp only [splitName,htext,Text.splitLast?_append _ hf,Text.splitLast?_append _ hdot,
    String.ofList_toList]

theorem splitName_part (hf : '#' ∉ f.toList) (hdot : '.' ∉ t.toList) :
    splitName (t ++ "#" ++ f) = ⟨none,t,some f⟩ := by
  have htext : (t ++ "#" ++ f).toList = t.toList ++ '#' :: f.toList := by simp
  simp only [splitName,htext,Text.splitLast?_append _ hf,Text.splitLast?_eq_none hdot,
    String.ofList_toList]

/-- Every name is the name of a type, or of a type of a module. -/
theorem exists_qualified (name : String) :
    '.' ∉ name.toList ∨ ∃ m t : String, name = m ++ "." ++ t ∧ '.' ∉ t.toList := by
  by_cases h : '.' ∈ name.toList
  · obtain ⟨before,behind,htext,hbehind⟩ := Text.exists_splitLast h
    refine .inr ⟨String.ofList before,String.ofList behind,?_,by simpa using hbehind⟩
    apply String.toList_inj.mp
    simp [htext]
  · exact .inl h

theorem exists_symbolName (hsign : '#' ∉ name.toList) :
    '.' ∉ name.toList ∨ ∃ m t : String, name = m ++ "." ++ t ∧ '#' ∉ m.toList ∧ '#' ∉ t.toList ∧
    '.' ∉ t.toList := by
  rcases exists_qualified name with hdot | ⟨m,t,rfl,hdot⟩
  · exact .inl hdot
  · have hboth : '#' ∉ m.toList ∧ '#' ∉ t.toList := by simpa using hsign
    exact .inr ⟨m,t,rfl,hboth.1,hboth.2,hdot⟩

/-! ## Names put together -/

namespace NameParts

def text (p : NameParts) : String :=
  p.module.elim "" (· ++ ".") ++ p.type ++ p.fragment.elim "" ("#" ++ ·)

/-- No part holds a sign at which the name would be divided elsewhere. -/
structure Separated (p : NameParts) : Prop where
  type : '.' ∉ p.type.toList
  fragment : ∀ f ∈ p.fragment, '#' ∉ f.toList
  bare : p.fragment = none → '#' ∉ p.type.toList ∧ ∀ m ∈ p.module, '#' ∉ m.toList

end NameParts

theorem splitName_text {p : NameParts} (h : p.Separated) : splitName p.text = p := by
  obtain ⟨m,t,f⟩ := p
  obtain ⟨htype,hfragment,hbare⟩ := h
  cases f with
  | none =>
    obtain ⟨ht,hm⟩ := hbare rfl
    cases m with
    | none => simpa [NameParts.text] using splitName_type htype ht
    | some m => simpa [NameParts.text] using splitName_symbol (hm m rfl) ht htype
  | some f =>
    have hf := hfragment f rfl
    cases m with
    | none => simpa [NameParts.text,String.append_assoc] using splitName_part hf htype
    | some m => simpa [NameParts.text,String.append_assoc] using splitName_fragment (m := m) hf htype

theorem exists_parts (name : String) : ∃ p : NameParts, p.Separated ∧ p.text = name := by
  by_cases hsign : '#' ∈ name.toList
  · obtain ⟨before,behind,htext,hbehind⟩ := Text.exists_splitLast hsign
    have hname : name = String.ofList before ++ "#" ++ String.ofList behind := by
      apply String.toList_inj.mp
      simp [htext]
    have hf : ∀ f ∈ some (String.ofList behind), '#' ∉ f.toList := by simpa using hbehind
    rw [hname]
    rcases exists_qualified (String.ofList before) with hdot | ⟨m,t,hqualified,hdot⟩
    · refine ⟨⟨none,String.ofList before,some (String.ofList behind)⟩,⟨hdot,hf,nofun⟩,?_⟩
      simp [NameParts.text,String.append_assoc]
    · refine ⟨⟨some m,t,some (String.ofList behind)⟩,⟨hdot,hf,nofun⟩,?_⟩
      simp [NameParts.text,hqualified,String.append_assoc]
  · rcases exists_symbolName hsign with hdot | ⟨m,t,rfl,hm,ht,hdot⟩
    · exact ⟨⟨none,name,none⟩,⟨hdot,nofun,fun _ => ⟨hsign,nofun⟩⟩,by simp [NameParts.text]⟩
    · exact ⟨⟨some m,t,none⟩,⟨hdot,nofun,fun _ => ⟨ht,by simpa using hm⟩⟩,by simp [NameParts.text]⟩

theorem text_splitName (name : String) : (splitName name).text = name := by
  obtain ⟨p,hp,rfl⟩ := exists_parts name
  rw [splitName_text hp]

theorem separated_splitName (name : String) : (splitName name).Separated := by
  obtain ⟨p,hp,rfl⟩ := exists_parts name
  rwa [splitName_text hp]

/-- A name comes apart into just those parts that make it up and of which none holds a sign at which
the name would be divided elsewhere. So nothing of it is lost, and what was put together is found
again. -/
theorem splitName_eq_iff (name : String) (p : NameParts) :
    splitName name = p ↔ p.text = name ∧ p.Separated := by
  constructor
  · rintro rfl
    exact ⟨text_splitName name,separated_splitName name⟩
  · rintro ⟨rfl,hp⟩
    exact splitName_text hp

theorem splitName_module_eq_none (hdot : '.' ∉ name.toList) : (splitName name).module = none := by
  cases hm : (splitName name).module with
  | none => rfl
  | some m =>
    refine absurd ?_ hdot
    rw [← text_splitName name]
    simp [NameParts.text,hm]

end InterfaceKit.Model
