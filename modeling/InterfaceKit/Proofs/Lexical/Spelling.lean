import InterfaceKit.Lexical.Lexicon
import InterfaceKit.Proofs.Lexical.Language

/-!
# How the tokens are spelt

The spellings of each kind of token in words, and that the patterns of the lexicon match just them.
-/
namespace InterfaceKit.Lexical

def IsLetter (c : Char) : Prop := c.isAlpha = true ∨ c = '_'

def IsNamePart (c : Char) : Prop := c.isAlphanum = true ∨ c = '_' ∨ c = '.'

def IsHexDigit (c : Char) : Prop := c.isDigit = true ∨ ('a' ≤ c ∧ c ≤ 'f') ∨ ('A' ≤ c ∧ c ≤ 'F')

def IsName (u : List Char) : Prop := ∃ c v, IsLetter c ∧ (∀ d ∈ v, IsNamePart d) ∧ u = c :: v

instance : DecidablePred IsNamePart :=
  fun c => inferInstanceAs (Decidable (c.isAlphanum = true ∨ c = '_' ∨ c = '.'))

theorem IsName.notMem {u : List Char} (h : IsName u) {c : Char} (hc : ¬ IsNamePart c) : c ∉ u := by
  obtain ⟨d,v,hd,hv,rfl⟩ := h
  rintro (_ | ⟨_,hmem⟩)
  · rcases hd with hd | rfl
    · exact hc (.inl (by simp [Char.isAlphanum,hd]))
    · exact hc (.inr (.inl rfl))
  · exact hc (hv c hmem)

def IsNumeral (u : List Char) : Prop := u ≠ [] ∧ ∀ c ∈ u, c.isDigit = true

def InLine (u : List Char) : Prop := ∀ c ∈ u, c ≠ '\r' ∧ c ≠ '\n'

/-- What may stand between two marks `q`: no such mark, and a backslash only in an escape. -/
inductive Quotable (q : Char) : List Char → Prop
  | nil : Quotable q []
  | escape {c : Char} {u : List Char} (hc : c ∈ ['"','\\','/','b','f','n','r','t']) (hu :
      Quotable q u) :
      Quotable q ('\\' :: c :: u)
  | plain {c : Char} {u : List Char} (hq : c ≠ q) (hc : c ≠ '\\') (hu : Quotable q u) :
      Quotable q (c :: u)

def Quoted (q : Char) (u : List Char) : Prop := ∃ v, Quotable q v ∧ u = q :: (v ++ [q])

/-- The text runs up to its first star with a slash behind. -/
def Closes (u : List Char) : Prop :=
  ['*','/'] <:+ u ∧ ∀ v, v <+: u → ['*','/'] <:+ v → v = u

/-- The texts that are tokens of a kind. -/
def Kind.Spells (k : Kind) (u : List Char) : Prop :=
  match k.spelling?, k with
  | some s, _ => u = s.toList
  | none, .string => Quoted '"' u ∨ Quoted '\'' u
  | none, .doubleString => Quoted '"' u
  | none, .singleString => Quoted '\'' u
  | none, .tagLine => ∃ v, InLine v ∧ u = '@' :: v
  | none, .integer => ∃ v, IsNumeral v ∧ (u = v ∨ u = '+' :: v ∨ u = '-' :: v)
  | none, .hexInteger => ∃ v, v ≠ [] ∧ (∀ c ∈ v, IsHexDigit c) ∧ u = '0' :: 'x' :: v
  | none, .tagIdentifier => ∃ v, IsName v ∧ u = '@' :: v
  | none, .identifier => IsName u
  | none, .version => ∃ a b, a.isDigit = true ∧ b.isDigit = true ∧ u = [a,'.',b]
  | none, .docComment => ∃ v, Closes v ∧ u = '/' :: '*' :: '*' :: v
  | none, .whitespace => u ≠ [] ∧ ∀ c ∈ u, c ∈ [' ','\t','\r','\n']
  | none, .lineComment => ∃ v, InLine v ∧ u = '/' :: '/' :: v
  | none, .blockComment => ∃ v, Closes v ∧ u = '/' :: '*' :: v
  | none, _ => False

section Comments

theorem Closes.ne_nil {u : List Char} (h : Closes u) : u ≠ [] := by
  rintro rfl
  exact absurd h.1 (by decide)

/-- A character that does not begin the closing pair may be left out in front. -/
theorem closes_cons_iff {d : Char} {v : List Char} (h : ¬ ['*','/'] <+: d :: v) :
    Closes (d :: v) ↔ Closes v := by
  have hskip : ∀ w, w <+: v → ['*','/'] <:+ d :: w → ['*','/'] <:+ w := by
    intro w hw hs
    rcases List.suffix_cons_iff.mp hs with he | hs
    · exact absurd (he ▸ (List.prefix_cons_inj d).mpr hw) h
    · exact hs
  constructor
  · rintro ⟨hs,hfirst⟩
    refine ⟨hskip v (List.prefix_refl v) hs,?_⟩
    intro w hw hsw
    exact (List.cons.inj
      (hfirst (d :: w) ((List.prefix_cons_inj d).mpr hw) (List.suffix_cons_iff.mpr (.inr hsw)))).2
  · rintro ⟨hs,hfirst⟩
    refine ⟨List.suffix_cons_iff.mpr (.inr hs),?_⟩
    intro w hw hsw
    rcases List.prefix_cons_iff.mp hw with rfl | ⟨w',rfl,hw'⟩
    · exact absurd hsw (by decide)
    · rw [hfirst w' hw' (hskip w' hw' hsw)]

theorem closes_pair_iff {u : List Char} : Closes ('*' :: '/' :: u) ↔ u = [] := by
  constructor
  · rintro ⟨-,hfirst⟩
    have h := hfirst ['*','/'] ⟨u,rfl⟩ (List.suffix_refl _)
    simpa using h.symm
  · rintro rfl
    refine ⟨List.suffix_refl _,?_⟩
    intro v hv hs
    exact hv.eq_of_length_le hs.length_le

namespace Pattern

theorem nil_notMem_upToClose : [] ∉ upToClose.language := by
  rw [← acceptsEmpty_iff]
  decide

theorem upToClose_after {c : Char} (h : c ≠ '*') : upToClose.after c = upToClose := by
  simp [upToClose,after,plus,join,either,acceptsEmpty,h]

theorem starred_after {c : Char} (hs : c ≠ '*') (hc : c ≠ '/') :
    (upToClose.after '*').after c = upToClose := by
  simp [upToClose,after,plus,join,either,acceptsEmpty,hs,hc]

theorem starred_after_star : (upToClose.after '*').after '*' = upToClose.after '*' := by decide

theorem starred_after_slash : (upToClose.after '*').after '/' = done := by decide

theorem cons_mem_upToClose {d : Char} {v : List Char} (h : ¬ ['*','/'] <+: d :: v) :
    d :: v ∈ upToClose.language ↔ v ∈ upToClose.language := by
  by_cases hd : d = '*'
  · subst hd
    cases v with
    | nil => simp only [← accepts_iff]; decide
    | cons c w =>
      have hc : c ≠ '/' := by
        rintro rfl
        exact h ⟨w,rfl⟩
      simp only [← mem_after]
      by_cases hs : c = '*'
      · rw [hs,starred_after_star]
      · rw [starred_after hs hc,upToClose_after hs]
  · rw [← mem_after,upToClose_after hd]

theorem mem_upToClose (u : List Char) : u ∈ upToClose.language ↔ Closes u := by
  induction u with
  | nil => exact iff_of_false nil_notMem_upToClose fun h => h.ne_nil rfl
  | cons d v ih =>
    by_cases h : ['*','/'] <+: d :: v
    · obtain ⟨w,hw⟩ := h
      obtain ⟨rfl,rfl⟩ : '*' = d ∧ '/' :: w = v := by simpa using hw
      rw [closes_pair_iff,← mem_after,← mem_after,starred_after_slash,mem_done]
    · rw [cons_mem_upToClose h,closes_cons_iff h,ih]

end Pattern

end Comments

section Classes

theorem contains_ranges (ranges : List (Char × Char)) (c : Char) :
    CharSet.contains { ranges } c = true ↔ ∃ r ∈ ranges, r.1 ≤ c ∧ c ≤ r.2 := by
  simp [CharSet.contains]

theorem isDigit_iff (c : Char) : c.isDigit = true ↔ '0' ≤ c ∧ c ≤ '9' := by
  simp [Char.isDigit,Char.le_def]

theorem isAlpha_iff (c : Char) : c.isAlpha = true ↔ ('a' ≤ c ∧ c ≤ 'z') ∨ ('A' ≤ c ∧ c ≤ 'Z') := by
  have hletter :
    c.isAlpha = (decide ('A' ≤ c ∧ c ≤ 'Z') || (decide ('a' ≤ c) && decide (c ≤ 'z'))) := rfl
  simp [hletter,or_comm]

theorem contains_digit (c : Char) :
    CharSet.contains { ranges := [('0', '9')] } c = true ↔ c.isDigit = true := by
  simp [contains_ranges,isDigit_iff]

theorem contains_letter (c : Char) :
    CharSet.contains { ranges := Pattern.letters } c = true ↔ IsLetter c := by
  simp [contains_ranges,Pattern.letters,IsLetter,isAlpha_iff,CharSet.range_iff,or_assoc]

theorem contains_namePart (c : Char) :
    CharSet.contains { ranges := Pattern.letters ++ [('0', '9'),('.', '.')] } c = true ↔
    IsNamePart c := by
  simp only [contains_ranges,Pattern.letters,IsNamePart,Char.isAlphanum,Bool.or_eq_true,isAlpha_iff,
    isDigit_iff,List.cons_append,List.nil_append,List.exists_mem_cons_iff,List.not_mem_nil,
      false_and,exists_false,
    CharSet.range_iff]
  tauto

theorem contains_hexDigit (c : Char) :
    CharSet.contains { ranges := [('0', '9'),('a', 'f'),('A', 'F')] } c = true ↔ IsHexDigit c := by
  simp [contains_ranges,IsHexDigit,isDigit_iff]

end Classes

namespace Pattern

theorem mem_name (u : List Char) : u ∈ name.language ↔ IsName u := by
  simp [name,IsName,contains_letter,contains_namePart]

theorem mem_restOfLine (u : List Char) : u ∈ restOfLine.language ↔ InLine u := by
  simp [restOfLine,InLine]

theorem mem_plus_digit (u : List Char) : u ∈ (plus digit).language ↔ IsNumeral u := by
  simp [digit,IsNumeral,contains_digit]

theorem mem_signed (u : List Char) :
    u ∈ (seq (optional (char (.ofList ['+','-']))) (plus digit)).language ↔
      ∃ v, IsNumeral v ∧ (u = v ∨ u = '+' :: v ∨ u = '-' :: v) := by
  rw [mem_seq]
  constructor
  · rintro ⟨a,ha,v,hv,rfl⟩
    refine ⟨v,(mem_plus_digit v).mp hv,?_⟩
    rcases ha with ⟨c,hc,rfl⟩ | rfl
    · have hsign : c = '+' ∨ c = '-' := by simpa using hc
      rcases hsign with rfl | rfl
      · exact .inr (.inl rfl)
      · exact .inr (.inr rfl)
    · exact .inl rfl
  · rintro ⟨v,hv,hu⟩
    rw [← mem_plus_digit] at hv
    rcases hu with rfl | rfl | rfl
    · exact ⟨[],.inr rfl,u,hv,rfl⟩
    · exact ⟨['+'],.inl ⟨'+',by decide,rfl⟩,v,hv,rfl⟩
    · exact ⟨['-'],.inl ⟨'-',by decide,rfl⟩,v,hv,rfl⟩

/-- A backslash and one of the letters that it may stand before. -/
def escape : Pattern :=
  seq (char (.single '\\')) (char (.ofList ['"','\\','/','b','f','n','r','t']))

theorem mem_quotable (q : Char) (u : List Char) :
    u ∈ (star (alt escape (char (.noneOf [q,'\\'])))).language ↔ Quotable q u := by
  constructor
  · intro h
    obtain ⟨us,rfl,hus⟩ := mem_star.mp h
    clear h
    induction us with
    | nil => exact .nil
    | cons v us ih =>
      obtain ⟨hv,hrest⟩ := List.forall_mem_cons.mp hus
      rcases hv with hv | hv
      · obtain ⟨b,w,hb,⟨c,hc,rfl⟩,rfl⟩ := mem_seq_char.mp hv
        obtain rfl : b = '\\' := by simpa using hb
        exact .escape (by simpa using hc) (ih hrest)
      · obtain ⟨c,hc,rfl⟩ := mem_char.mp hv
        have hne : c ≠ q ∧ c ≠ '\\' := by simpa using hc
        exact .plain hne.1 hne.2 (ih hrest)
  · intro h
    induction h with
    | nil => exact Language.nil_mem_kstar _
    | @escape c u hc hu ih =>
      have hpair : ['\\',c] ∈ escape.language :=
        mem_seq_char.mpr ⟨'\\',[c],by simp,⟨c,by simpa using hc,rfl⟩,rfl⟩
      exact append_mem_star (mem_alt.mpr (.inl hpair)) ih
    | @plain c u hq hc hu ih =>
      have hone : [c] ∈ (char (.noneOf [q,'\\'])).language := ⟨c,by simp [hq,hc],rfl⟩
      exact append_mem_star (mem_alt.mpr (.inr hone)) ih

theorem mem_quoted (q : Char) (u : List Char) : u ∈ (quoted q).language ↔ Quoted q u := by
  change u ∈ (seq (char (.single q))
    (seq (star (alt escape (char (.noneOf [q,'\\'])))) (char (.single q)))).language ↔ _
  simp [mem_seq,mem_quotable,Quoted,eq_comm]

theorem quoted_live {q : Char} (h : 'a' ≠ q) : (quoted q).Live := by
  have hmark : (char (.single q)).Live := .char q (by simp)
  have hplain : (char (.noneOf [q,'\\'])).Live := .char 'a' (by simp [h])
  have hescape : escape.Live := .seq (.char '\\' (by decide)) (.char 'b' (by decide))
  exact .seq hmark (.seq (.star (.alt hescape hplain)) hmark)

theorem Live.plus {p : Pattern} (h : p.Live) : (plus p).Live := .seq h (.star h)

theorem digit_live : digit.Live := .char '0' (by decide)

theorem name_live : name.Live := .seq (.char 'a' (by decide)) (.star (.char 'a' (by decide)))

theorem restOfLine_live : restOfLine.Live := .star (.char 'a' (by decide))

theorem upToClose_live : upToClose.Live := by
  have hstar : (plus (char (.single '*'))).Live := Live.plus (.char '*' (by decide))
  have hother : (char (.noneOf ['*','/'])).Live := .char 'a' (by decide)
  exact .seq (.star (.alt (.char 'a' (by decide)) (.seq hstar hother)))
    (.seq hstar (.char '/' (by decide)))

end Pattern

namespace Kind
open Pattern

variable {k : Kind} {s : String}

theorem pattern_word (h : k.spelling? = some s) : k.pattern = literal s.toList := by simp [pattern,h]

theorem spells_word (h : k.spelling? = some s) (u : List Char) : k.Spells u ↔ u = s.toList := by
  simp [Spells,h]

/-- The pattern of a kind matches its spellings and nothing else. -/
theorem mem_pattern (k : Kind) (u : List Char) : u ∈ k.pattern.language ↔ k.Spells u := by
  cases h : k.spelling? with
  | some s => rw [pattern_word h,mem_literal,spells_word h]
  | none =>
    cases k with
    | string => exact or_congr (mem_quoted '"' u) (mem_quoted '\'' u)
    | doubleString => exact mem_quoted '"' u
    | singleString => exact mem_quoted '\'' u
    | tagLine => simp [pattern,spelling?,Spells,mem_restOfLine]
    | integer => exact mem_signed u
    | hexInteger => simp [pattern,spelling?,Spells,mem_seq_literal,contains_hexDigit,and_assoc]
    | tagIdentifier => simp [pattern,spelling?,Spells,mem_name]
    | identifier => exact mem_name u
    | version => simp [pattern,spelling?,Spells,Pattern.digit,contains_digit]
    | docComment | blockComment => simp [pattern,spelling?,Spells,mem_seq_literal,mem_upToClose]
    | whitespace => simp [pattern,spelling?,Spells]
    | lineComment => simp [pattern,spelling?,Spells,mem_seq_literal,mem_restOfLine]
    | _ => cases h

theorem pattern_live (k : Kind) : k.pattern.Live := by
  cases h : k.spelling? with
  | some s => exact pattern_word h ▸ Live.literal _
  | none =>
    cases k with
    | string => exact .alt (quoted_live (by decide)) (quoted_live (by decide))
    | doubleString | singleString => exact quoted_live (by decide)
    | tagLine => exact .seq (.char '@' (by decide)) restOfLine_live
    | integer => exact .seq (.alt (.char '+' (by decide)) .done) digit_live.plus
    | hexInteger => exact .seq (Live.literal _) (Live.plus (.char '0' (by decide)))
    | tagIdentifier => exact .seq (.char '@' (by decide)) name_live
    | identifier => exact name_live
    | version => exact .seq digit_live (.seq (.char '.' (by decide)) digit_live)
    | docComment | blockComment => exact .seq (Live.literal _) upToClose_live
    | whitespace => exact Live.plus (.char ' ' (by decide))
    | lineComment => exact .seq (Live.literal _) restOfLine_live
    | _ => nomatch h

theorem Spells.ne_nil {u : List Char} (h : k.Spells u) : u ≠ [] := by
  rintro rfl
  rw [← mem_pattern,← acceptsEmpty_iff] at h
  cases k <;> exact absurd h (by decide)

end Kind

end InterfaceKit.Lexical
