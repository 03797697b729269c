import InterfaceKit.Doc.Comment
import Mathlib.Data.List.TakeWhile

/-!
# Inline tags written out

A text is read from left to right as a row of pieces: wherever an inline tag begins it is taken
whole, with all the blanks behind its name, and else a single character is taken. There is one such
row for every text. Without a form of their own the tags are written as they were read, but for the
blanks behind the name, which become one. Doing so cannot bring about a tag, undo one or move one,
so a second time nothing changes.
-/
namespace InterfaceKit.Doc
open Text

/-- A part of a text: one character, or an inline tag with its name, the blanks behind it and its
value. -/
inductive Piece where
  | char (c : Char)
  | tag (name gap value : List Char)
  deriving DecidableEq, Repr

namespace Piece

def written : Piece → List Char
  | char c => [c]
  | tag name gap value => '\x7b' :: '@' :: (name ++ gap ++ value ++ ['\x7d'])

def tidied : Piece → Piece
  | char c => char c
  | tag name _ value => tag name [' '] value

end Piece

def textOf (ps : List Piece) : List Char := ps.flatMap Piece.written

/-- A word, all the blanks behind it, of which there is one at least, and a value without a closing
brace. -/
structure IsTag (name gap value : List Char) : Prop where
  name_ne : name ≠ []
  name_word : ∀ c ∈ name, isWord c = true
  gap_ne : gap ≠ []
  gap_blank : ∀ c ∈ gap, isBlank c = true
  value_front : ∀ c ∈ value.head?, isBlank c = false
  value_open : '\x7d' ∉ value

/-- An inline tag stands at the front of the text. -/
def TagAhead (text : List Char) : Prop :=
  ∃ name gap value rest, IsTag name gap value ∧ text = (Piece.tag name gap value).written ++ rest

/-- Tags are taken where they begin. -/
inductive Divided : List Piece → Prop
  | nil : Divided []
  | char {c : Char} {ps : List Piece} (hc : ¬ TagAhead (c :: textOf ps)) (h : Divided ps) :
      Divided (.char c :: ps)
  | tag {name gap value : List Char} {ps : List Piece} (htag : IsTag name gap value) (h :
      Divided ps) :
      Divided (.tag name gap value :: ps)

/-! ## Recognising a tag -/

variable {ps : List Piece} {c : Char} {text front rest name gap value : List Char}

/-- No blank is a part of a word. -/
theorem isWord_of_isBlank (h : isBlank c = true) : isWord c = false := by
  have hall : ∀ r ∈ [(9, 13),(28, 32),(133, 133),(160, 160),(5760, 5760),(8192, 8202),(8232, 8233),
      (8239, 8239),(8287, 8287),(12288, 12288)], ∀ n ∈ List.range' r.1 (r.2 + 1 - r.1),
      isWord (Char.ofNat n) = false := by
    decide +kernel
  obtain ⟨r,hr,hc⟩ := List.any_eq_true.mp h
  have hrange : r.1 ≤ c.toNat ∧ c.toNat ≤ r.2 := by simpa using hc
  rw [← Char.ofNat_toNat c]
  exact hall r hr _ (List.mem_range'_1.mpr (by omega))

theorem span_append {p : Char → Bool} (rest : List Char) (hfront : ∀ c ∈ front, p c = true)
    (hrest : ∀ c ∈ rest.head?, p c = false) : (front ++ rest).takeWhile p = front ∧
      (front ++ rest).dropWhile p = rest := by
  rw [List.takeWhile_append_of_pos hfront,List.dropWhile_append_of_pos hfront]
  cases rest with
  | nil => simp
  | cons c rest => simp [hrest c rfl]

theorem written_append (rest : List Char) : (Piece.tag name gap value).written ++ rest =
    '\x7b' :: ('@' :: (name ++ gap) ++ (value ++ '\x7d' :: rest)) := by simp [Piece.written]

theorem inlineTag?_written (htag : IsTag name gap value) (rest : List Char) :
    inlineTag? ((Piece.tag name gap value).written ++ rest) = some (name, value, rest) := by
  obtain ⟨n,ns,rfl⟩ := List.exists_cons_of_ne_nil htag.name_ne
  obtain ⟨g,gs,rfl⟩ := List.exists_cons_of_ne_nil htag.gap_ne
  have hg : isWord g = false := isWord_of_isBlank (htag.gap_blank g List.mem_cons_self)
  have hv : ∀ c ∈ (value ++ '\x7d' :: rest).head?, isBlank c = false := by
    cases value with
    | nil => simp [show isBlank '\x7d' = false by decide]
    | cons c value => simpa using htag.value_front
  have hne : ∀ c ∈ value, decide (c ≠ '\x7d') = true := by
    intro c hc
    exact decide_eq_true fun heq => htag.value_open (heq ▸ hc)
  obtain ⟨hname,hafter⟩ :=
    span_append (g :: gs ++ (value ++ '\x7d' :: rest)) htag.name_word (by simpa using hg)
  obtain ⟨hgap,hbehind⟩ := span_append _ htag.gap_blank hv
  obtain ⟨hopen,hclosed⟩ := span_append ('\x7d' :: rest) hne (by simp)
  rw [written_append,List.cons_append,List.append_assoc,inlineTag?]
  simp only [hname,hafter,hgap,hbehind,hopen,hclosed]

theorem head_dropWhile {p : Char → Bool} (h : text.dropWhile p = c :: rest) : p c = false := by
  have hhead := List.head?_dropWhile_not p text
  rw [h] at hhead
  simpa using hhead

/-- What is recognised is a tag with all the blanks behind its name. -/
theorem exists_of_inlineTag? (h : inlineTag? text = some (name, value, rest)) :
    ∃ gap, IsTag name gap value ∧ text = (Piece.tag name gap value).written ++ rest := by
  unfold inlineTag? at h
  split at h
  · rename_i body
    extract_lets word afterName behind found at h
    split at h
    · cases h
    · cases h
    · cases h
    · rename_i brace after hclosed hword hgap
      obtain ⟨rfl,rfl,rfl⟩ : word = name ∧ found = value ∧ after = rest := by simpa using h
      obtain rfl : brace = '\x7d' := by simpa using head_dropWhile hclosed
      have hbehind : behind = found ++ '\x7d' :: after := by
        rw [← hclosed,List.takeWhile_append_dropWhile]
      have hbody : body = word ++ (afterName.takeWhile isBlank ++ behind) := by
        rw [List.takeWhile_append_dropWhile,List.takeWhile_append_dropWhile]
      refine ⟨afterName.takeWhile isBlank,⟨hword,?_,hgap,?_,?_,?_⟩,?_⟩
      · exact fun c hc => List.mem_takeWhile_imp hc
      · exact fun c hc => List.mem_takeWhile_imp hc
      · intro c hc
        obtain ⟨cs,hcs⟩ := List.head?_eq_some_iff.mp hc
        exact head_dropWhile (hbehind.trans (congrArg (· ++ _) hcs))
      · intro hmem
        simpa using List.mem_takeWhile_imp hmem
      · simp [Piece.written,hbody,hbehind]
  · cases h

theorem inlineTag?_eq_none_iff : inlineTag? text = none ↔ ¬ TagAhead text := by
  constructor
  · rintro hnone ⟨name,gap,value,rest,htag,rfl⟩
    exact nomatch hnone.symm.trans (inlineTag?_written htag rest)
  · intro h
    rw [Option.eq_none_iff_forall_ne_some]
    rintro ⟨name,value,rest⟩ hfound
    obtain ⟨gap,htag,htext⟩ := exists_of_inlineTag? hfound
    exact h ⟨name,gap,value,rest,htag,htext⟩

/-! ## Dividing a text -/

theorem exists_divided (text : List Char) : ∃ ps, Divided ps ∧ textOf ps = text := by
  induction hn : text.length using Nat.strongRecOn generalizing text with
  | _ n ih =>
    cases text with
    | nil => exact ⟨[],.nil,rfl⟩
    | cons c cs =>
      cases hfound : inlineTag? (c :: cs) with
      | none =>
        obtain ⟨ps,hps,rfl⟩ := ih cs.length (by simp [← hn]) cs rfl
        exact ⟨.char c :: ps,.char (inlineTag?_eq_none_iff.mp hfound) hps,rfl⟩
      | some found =>
        obtain ⟨name,value,rest⟩ := found
        obtain ⟨gap,htag,htext⟩ := exists_of_inlineTag? hfound
        have hlength : rest.length < n := by
          rw [← hn,htext,written_append]
          simp only [List.length_cons,List.length_append]
          omega
        obtain ⟨ps,hps,rfl⟩ := ih rest.length hlength rest rfl
        exact ⟨.tag name gap value :: ps,.tag htag hps,htext.symm⟩

/-- A text is divided in one way only. -/
theorem Divided.eq_of_textOf {qs : List Piece} (hps : Divided ps) (hqs : Divided qs)
    (h : textOf ps = textOf qs) :
    ps = qs := by
  induction hps generalizing qs with
  | nil =>
    cases hqs with
    | nil => rfl
    | _ => simp [textOf,Piece.written] at h
  | char hc _ ih =>
    cases hqs with
    | nil => simp [textOf,Piece.written] at h
    | char _ hqs =>
      obtain ⟨rfl,htext⟩ := List.cons.inj h
      rw [ih hqs htext]
    | tag htag => exact absurd ⟨_,_,_,_,htag,h⟩ hc
  | @tag name gap value ps htag _ ih =>
    cases hqs with
    | nil => simp [textOf,Piece.written] at h
    | char hc => exact absurd ⟨_,_,_,_,htag,h.symm⟩ hc
    | tag htag' hqs =>
      have hfound : some _ = some _ := (inlineTag?_written htag _).symm.trans
        ((congrArg inlineTag? h).trans (inlineTag?_written htag' _))
      simp only [Option.some.injEq,Prod.mk.injEq] at hfound
      obtain ⟨rfl,rfl,htext⟩ := hfound
      obtain rfl := ih hqs htext
      simpa [textOf,Piece.written] using h

/-! ## Writing the tags out -/

theorem replaceInlineUpTo_textOf (hps : Divided ps) {limit : Nat}
    (hlimit : (textOf ps).length ≤ limit) :
    replaceInlineUpTo keepInline limit (textOf ps) = textOf (ps.map Piece.tidied) := by
  induction hps generalizing limit with
  | nil => cases limit <;> rfl
  | @char c ps hc _ ih =>
    change (c :: textOf ps).length ≤ limit at hlimit
    obtain ⟨limit,rfl⟩ := Nat.exists_eq_add_one_of_ne_zero (Nat.ne_zero_of_lt hlimit)
    change replaceInlineUpTo keepInline (limit + 1) (c :: textOf ps) =
      c :: textOf (ps.map Piece.tidied)
    rw [replaceInlineUpTo,inlineTag?_eq_none_iff.mpr hc,ih (by simpa using hlimit)]
  | @tag name gap value ps htag _ ih =>
    have hfound := inlineTag?_written htag (textOf ps)
    change ((Piece.tag name gap value).written ++ textOf ps).length ≤ limit at hlimit
    change replaceInlineUpTo keepInline limit ((Piece.tag name gap value).written ++ textOf ps) = _
    rw [written_append] at hlimit hfound ⊢
    obtain ⟨limit,rfl⟩ := Nat.exists_eq_add_one_of_ne_zero (Nat.ne_zero_of_lt hlimit)
    have hrest : (textOf ps).length ≤ limit := by
      simp only [List.length_cons,List.length_append] at hlimit
      omega
    have hwritten : keepInline name value = (Piece.tag name gap value).tidied.written := by
      simp [keepInline,Piece.tidied,Piece.written]
    rw [replaceInlineUpTo,hfound]
    dsimp only
    rw [ih hrest,hwritten]
    rfl

theorem replaceInline_textOf (hps : Divided ps) :
    replaceInline keepInline (textOf ps) = textOf (ps.map Piece.tidied) :=
  replaceInlineUpTo_textOf hps le_rfl

/-! ## Tidied texts -/

theorem brace_mem_textOf_tidied (h : '\x7d' ∈ textOf (ps.map Piece.tidied)) :
    '\x7d' ∈ textOf ps := by
  obtain ⟨_,hq,hbrace⟩ := List.mem_flatMap.mp h
  obtain ⟨p,hp,rfl⟩ := List.mem_map.mp hq
  refine List.mem_flatMap.mpr ⟨p,hp,?_⟩
  cases p with
  | char c => exact hbrace
  | tag name gap value => simp [Piece.written]

theorem head?_textOf_tidied (ps : List Piece) :
    (textOf (ps.map Piece.tidied)).head? = (textOf ps).head? := by
  cases ps with
  | nil => rfl
  | cons p ps => cases p <;> rfl

/-- Up to the next opening brace a text and the tidied one are the same. -/
theorem exists_textOf_of_tidied (hfront : '\x7b' ∉ front)
    (h : textOf (ps.map Piece.tidied) = front ++ rest) :
    ∃ qs, textOf ps = front ++ textOf qs ∧ textOf (qs.map Piece.tidied) = rest := by
  induction front generalizing ps with
  | nil => exact ⟨ps,rfl,h⟩
  | cons c front ih =>
    cases ps with
    | nil => simp [textOf] at h
    | cons p ps =>
      cases p with
      | char d =>
        obtain ⟨rfl,htext⟩ := List.cons.inj h
        obtain ⟨qs,hps,hqs⟩ := ih (fun hmem => hfront (List.mem_cons_of_mem _ hmem)) htext
        exact ⟨qs,congrArg (d :: ·) hps,hqs⟩
      | tag name gap value =>
        obtain ⟨rfl,-⟩ := List.cons.inj h
        exact absurd List.mem_cons_self hfront

theorem IsTag.brace_notMem (h : IsTag name gap value) : '\x7b' ∉ '@' :: (name ++ gap) := by
  intro hmem
  rcases List.mem_append.mp ((List.mem_cons.mp hmem).resolve_left (by decide)) with hname | hgap
  · exact absurd (h.name_word _ hname) (by decide)
  · exact absurd (h.gap_blank _ hgap) (by decide)

/-- Tidying brings about no tag. -/
theorem TagAhead.of_tidied (h : TagAhead (c :: textOf (ps.map Piece.tidied))) :
    TagAhead (c :: textOf ps) := by
  obtain ⟨name,gap,value,rest,htag,htext⟩ := h
  obtain ⟨rfl,hfront⟩ := List.cons.inj (htext.trans (written_append rest))
  obtain ⟨qs,hps,hqs⟩ := exists_textOf_of_tidied htag.brace_notMem hfront
  have hbrace : '\x7d' ∈ textOf qs := brace_mem_textOf_tidied (by simp [hqs])
  obtain ⟨value',rest',hclosed,hvalue'⟩ := List.eq_append_cons_of_mem hbrace
  have hfront' : ∀ c ∈ value'.head?, isBlank c = false := by
    have hsame := head?_textOf_tidied qs
    rw [hqs,hclosed] at hsame
    cases value' with
    | nil => simp
    | cons c' value' =>
      cases value with
      | nil => simp_all
      | cons d value =>
        obtain rfl : d = c' := by simpa using hsame
        simpa using htag.value_front
  refine ⟨name,gap,value',rest',{ htag with value_front := hfront', value_open := hvalue' },?_⟩
  simp [hps,hclosed,Piece.written]

theorem Divided.tidied (h : Divided ps) : Divided (ps.map Piece.tidied) := by
  induction h with
  | nil => exact .nil
  | char hc _ ih => exact .char (fun h => hc h.of_tidied) ih
  | tag htag _ ih =>
    exact .tag { htag with gap_ne := by simp, gap_blank := List.forall_mem_singleton.mpr rfl } ih

theorem tidied_tidied (p : Piece) : p.tidied.tidied = p.tidied := by
  cases p <;> rfl

/-- A text is divided into characters and tags in one way, tags being taken where they begin.
Written out it is the same but for the blanks behind the name of each tag, which become one, and
written out again it stays as it is. -/
theorem replaceInline_tidies (text : List Char) :
    (∃ ps, Divided ps ∧ textOf ps = text ∧ (∀ qs, Divided qs → textOf qs = text → qs = ps) ∧
        replaceInline keepInline text = textOf (ps.map Piece.tidied)) ∧
      replaceInline keepInline (replaceInline keepInline text) = replaceInline keepInline text := by
  obtain ⟨ps,hps,rfl⟩ := exists_divided text
  refine ⟨⟨ps,hps,rfl,fun qs hqs h => hqs.eq_of_textOf hps h,replaceInline_textOf hps⟩,?_⟩
  rw [replaceInline_textOf hps,replaceInline_textOf hps.tidied,List.map_map]
  simp [Function.comp_def,tidied_tidied]

end InterfaceKit.Doc
