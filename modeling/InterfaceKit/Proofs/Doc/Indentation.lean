import InterfaceKit.Proofs.Doc.Ownership

/-!
# Indentation

The blanks and stars in front of a line of a comment do not matter. A tab does: it is text, and so
is all that stands behind it. So two rows of blanks, tabs and stars can be taken for each other if
they are the same from the first tab on, and only then.
-/
namespace InterfaceKit

namespace Text

/-! ## Cutting a text between two lines -/

/-- What stands before is empty or ends with a line break, which does not go on in what stands
behind. -/
structure BetweenLines (u s : List Char) : Prop where
  ends : ∀ b ∈ u.getLast?, isLineBreak b = true
  whole : ¬ (u.getLast? = some '\r' ∧ s.head? = some '\n')

variable {c : Char} {cs s : List Char}

theorem BetweenLines.tail (h : BetweenLines (c :: cs) s) : BetweenLines cs s := by
  cases cs with
  | nil => exact ⟨by simp,by simp⟩
  | cons d ds => exact ⟨by simpa using h.ends,by simpa using h.whole⟩

theorem linesFrom_plain (hc : isLineBreak c = false) (line cs : List Char) :
    linesFrom line (c :: cs) = linesFrom (c :: line) cs := by
  rw [linesFrom.eq_3,if_neg (by simp [hc])]
  rintro _ rfl
  exact absurd hc (by decide)

theorem linesFrom_break (hc : isLineBreak c = true) (h : BetweenLines [c] cs)
    (line : List Char) : linesFrom line (c :: cs) = line.reverse :: lines cs := by
  rw [linesFrom.eq_3,if_pos hc]
  · rfl
  · rintro ds rfl rfl
    exact h.whole ⟨rfl,rfl⟩

/-- Reading starts anew behind a line break. -/
theorem linesFrom_append {line u : List Char} (hnil : u = [] → line = []) (h : BetweenLines u s) :
    linesFrom line (u ++ s) = linesFrom line u ++ lines s := by
  fun_induction linesFrom line u with
  | case1 line hline =>
    obtain rfl := hnil rfl
    rfl
  | case2 line hline =>
    obtain rfl := hnil rfl
    exact absurd rfl hline
  | case3 line cs ih =>
    change line.reverse :: linesFrom [] (cs ++ s) = line.reverse :: (linesFrom [] cs ++ lines s)
    rw [ih (fun _ => rfl) h.tail.tail]
  | case4 line c cs hsplit hc ih =>
    rw [List.cons_append,linesFrom_break hc,lines,ih (fun _ => rfl) h.tail,List.cons_append]
    cases cs with
    | nil => exact h
    | cons d ds =>
      refine ⟨by simpa using hc,?_⟩
      rintro ⟨hr,hn⟩
      exact hsplit ds (by simpa using hr) (by rw [show d = '\n' by simpa using hn])
  | case5 line c cs hsplit hc ih =>
    have hcs : cs ≠ [] := by
      rintro rfl
      exact hc (h.ends c rfl)
    rw [List.cons_append,linesFrom_plain (by simpa using hc),ih (fun hnil => absurd hnil hcs) h.tail]

theorem linesFrom_line {x : List Char} (hx : ∀ c ∈ x, isLineBreak c = false) (line q : List Char) :
    linesFrom line (x ++ q) = linesFrom (x.reverse ++ line) q := by
  induction x generalizing line with
  | nil => rfl
  | cons c x ih =>
    obtain ⟨hc,hx⟩ := List.forall_mem_cons.mp hx
    rw [List.cons_append,linesFrom_plain hc,ih hx]
    simp

/-- Behind the text of a line that is being read, a line break ends it, whatever the text. -/
theorem exists_linesFrom {b : Char} (hb : isLineBreak b = true) (cs : List Char) :
    ∃ rest, ∀ line, linesFrom line (b :: cs) = line.reverse :: rest := by
  by_cases hsplit : b = '\r' ∧ cs.head? = some '\n'
  · obtain ⟨rfl,hcs⟩ := hsplit
    obtain ⟨ds,rfl⟩ := List.head?_eq_some_iff.mp hcs
    exact ⟨lines ds,fun _ => rfl⟩
  · exact ⟨lines cs,linesFrom_break hb ⟨by simpa using hb,by simpa using hsplit⟩⟩

/-- The lines of a text in which one line is left open. An empty line at the very end does not
count. -/
theorem exists_lines_around {p q : List Char} (hq : ∀ b ∈ q.head?, isLineBreak b = true) :
    ∃ rest, ∀ x, (∀ c ∈ x, isLineBreak c = false) → BetweenLines p (x ++ q) →
      lines (p ++ (x ++ q)) = lines p ++ x :: rest ∨ x = [] ∧ rest = [] ∧
      lines (p ++ (x ++ q)) = lines p := by
  have hlines : ∀ x, (∀ c ∈ x, isLineBreak c = false) → BetweenLines p (x ++ q) →
      lines (p ++ (x ++ q)) = lines p ++ linesFrom x.reverse q := by
    intro x hx hp
    rw [lines,linesFrom_append (fun _ => rfl) hp,lines,lines,linesFrom_line hx,List.append_nil]
  cases q with
  | nil =>
    refine ⟨[],fun x hx hp => ?_⟩
    rw [hlines x hx hp]
    cases x with
    | nil => exact .inr ⟨rfl,rfl,List.append_nil _⟩
    | cons c x => exact .inl (by simp [linesFrom])
  | cons b cs =>
    obtain ⟨rest,hrest⟩ := exists_linesFrom (hq b rfl) cs
    refine ⟨rest,fun x hx hp => .inl ?_⟩
    rw [hlines x hx hp,hrest,List.reverse_reverse]

end Text

namespace Doc.Comment
open Text

def enclose (text : List Char) : String := String.ofList ('/' :: '*' :: '*' :: text ++ ['*','/'])

theorem parse_enclose (form : InlineForm) (text : List Char) :
    parse form (enclose text) =
      let r := ((lines text).map strip).foldl (Reading.line form) {}
      (some r.comment, r.log) := by
  have hbody : body ('/' :: '*' :: '*' :: text ++ ['*','/']) = text := by
    simp [body]
  have hread :
      read form (enclose text).toList = ((lines text).map strip).foldl (Reading.line form) {} := by
    rw [enclose,String.toList_ofList,read,hbody]
    rfl
  have hempty : (enclose text).isEmpty = false := by
    rw [← Bool.not_eq_true,String.isEmpty_iff,enclose,← String.toList_inj]
    simp
  simp [parse,hempty,hread]

/-- A line may stand between `p` and `q`. -/
structure Encloses (p q line : List Char) : Prop where
  before : BetweenLines p (line ++ q)
  behind : ∀ b ∈ q.head?, isLineBreak b = true

/-- The result depends on a line only through what is left of it without the blanks and stars in
front. -/
theorem exists_parse_around (form : InlineForm) {p q : List Char}
    (hq : ∀ b ∈ q.head?, isLineBreak b = true) :
    ∃ (r : Reading) (rest : List (List Char)), ∀ x, (∀ c ∈ x, isLineBreak c = false) →
      BetweenLines p (x ++ q) → parse form (enclose (p ++ (x ++ q))) =
        let s := rest.foldl (Reading.line form) (r.line form (strip x))
        (some s.comment, s.log) := by
  obtain ⟨rest,hrest⟩ := exists_lines_around (p := p) hq
  refine ⟨((lines p).map strip).foldl (Reading.line form) {},rest.map strip,fun x hx hp => ?_⟩
  rw [parse_enclose]
  rcases hrest x hx hp with hlines | ⟨rfl,rfl,hlines⟩
  · rw [hlines,List.map_append,List.foldl_append,List.map_cons,List.foldl_cons]
  · rw [hlines]
    rfl

/-- Of the blanks, tabs and stars in front of a line those are left that stand behind a tab. -/
theorem strip_append {r w : List Char} (hr : ∀ c ∈ r, c ∈ [' ','\t','*'])
    (hw : ∀ c ∈ w.head?, c ∉ [' ','\t','*']) : strip (r ++ w) = r.dropWhile (· ≠ '\t') ++ w := by
  induction r with
  | nil =>
    cases w with
    | nil => rfl
    | cons c w =>
      have hc := hw c rfl
      simp only [List.mem_cons,List.not_mem_nil,or_false,not_or] at hc
      simp [strip,hc]
  | cons c r ih =>
    obtain ⟨hc,hrest⟩ := List.forall_mem_cons.mp hr
    simp only [List.mem_cons,List.not_mem_nil,or_false] at hc
    rcases hc with rfl | rfl | rfl
    · exact ih hrest
    · simp [strip]
    · exact ih hrest

/-! ## Tabs -/

variable {c : Char} {s : String}

theorem inlineTag?_eq_none (hc : c ≠ '\x7b') (cs : List Char) : inlineTag? (c :: cs) = none := by
  simp [inlineTag?,hc]

theorem replaceInline_cons (form : InlineForm) (hc : c ≠ '\x7b') (cs : List Char) :
    replaceInline form (c :: cs) = c :: replaceInline form cs := by
  rw [replaceInline,List.length_cons,replaceInlineUpTo,inlineTag?_eq_none hc]
  rfl

theorem replaceInline_append (form : InlineForm) {t : List Char} (ht : ∀ c ∈ t, c ≠ '\x7b')
    (w : List Char) :
    replaceInline form (t ++ w) = t ++ replaceInline form w := by
  induction t with
  | nil => rfl
  | cons c t ih =>
    obtain ⟨hc,ht⟩ := List.forall_mem_cons.mp ht
    rw [List.cons_append,replaceInline_cons form hc,ih ht,List.cons_append]

/-- What is written out of a text begins as the text does. -/
theorem head?_replaceInline (text : List Char) :
    (replaceInline keepInline text).head? = text.head? := by
  cases text with
  | nil => rfl
  | cons c cs =>
    by_cases hc : c = '\x7b'
    · rw [replaceInline,List.length_cons,replaceInlineUpTo,hc]
      split <;> rfl
    · rw [replaceInline_cons _ hc]
      rfl

/-- The first entry of a description is what is written out of a text. -/
theorem exists_of_mem_description {form : InlineForm} {tag : List Char} {said : Option (List Char)}
    (h : .text s ∈ (({} : Reading).give form tag said).comment.description) :
    ∃ text, said = some text ∧ s = String.ofList (replaceInline form text) := by
  simp only [Reading.give,add] at h
  split at h
  · cases h
  · cases said with
    | none => simp at h
    | some text => exact ⟨text,rfl,by simpa using h⟩
  · cases h
  · cases h
  · cases h
  · cases h
  · cases h

theorem head?_splitWord_snd (rest : List Char) : (splitWord rest).2.head? ≠ some '\t' := by
  intro htab
  have hblank := List.head?_dropWhile_not isBlank ((rest.dropWhile isBlank).dropWhile (!isBlank ·))
  rw [splitWord] at htab
  dsimp only at htab
  rw [htab] at hblank
  exact absurd hblank (by decide)

theorem head?_ne_tab {w : List Char} (hw : w.head? ≠ some '\t')
    (h : .text s ∈ (({} : Reading).line keepInline w).comment.description) :
    s.toList.head? ≠ some '\t' := by
  unfold Reading.line at h
  split at h
  · cases h
  · rename_i rest
    have htext := head?_splitWord_snd rest
    split at h
    · cases h
    · dsimp only at h
      obtain ⟨text,hsaid,-⟩ := exists_of_mem_description h
      cases hsaid
    · rename_i hsplit
      dsimp only at h
      obtain ⟨_,hsaid,rfl⟩ := exists_of_mem_description h
      cases hsaid
      rw [String.toList_ofList,head?_replaceInline]
      rwa [hsplit] at htext
  · obtain ⟨text,hsaid,rfl⟩ := exists_of_mem_description h
    cases hsaid
    rw [String.toList_ofList,head?_replaceInline]
    exact hw

section
variable {r r' w : List Char}

theorem isLineBreak_of_mem_indent {c : Char} (h : c ∈ [' ','\t','*']) : isLineBreak c = false := by
  simp only [List.mem_cons,List.not_mem_nil,or_false] at h
  rcases h with rfl | rfl | rfl <;> decide

theorem description_single {x : List Char} (hx : ∀ c ∈ x, isLineBreak c = false) :
    (parse keepInline (enclose ('\n' :: x))).1.map (·.description) =
      some (({} : Reading).line keepInline (strip x)).comment.description := by
  have hlines : lines ('\n' :: x) = [] :: linesFrom x.reverse [] := by
    have hrest := linesFrom_line hx [] []
    rw [List.append_nil,List.append_nil] at hrest
    rw [lines,linesFrom_break (by decide) ⟨by simp [isLineBreak,inRanges],by simp⟩,lines,hrest]
    rfl
  rw [parse_enclose,hlines]
  cases x with
  | nil => rfl
  | cons c x =>
    rw [linesFrom,if_neg (by simp),List.reverse_reverse]
    rfl

/-- What is left of an indentation is empty, or it begins with a tab and is kept in the
description. -/
theorem description_indented (hr : ∀ c ∈ r, c ∈ [' ','\t','*']) (w : List Char) :
    r.dropWhile (· ≠ '\t') = [] ∨
      (r.dropWhile (· ≠ '\t')).head? = some '\t' ∧
        (({} : Reading).line keepInline (r.dropWhile (· ≠ '\t') ++ w)).comment.description =
          [.text (String.ofList (r.dropWhile (· ≠ '\t') ++ replaceInline keepInline w))] := by
  have hfirst := List.head?_dropWhile_not (· ≠ '\t') r
  have hbrace : ∀ c ∈ r.dropWhile (· ≠ '\t'), c ≠ '\x7b' := by
    intro c hc
    have hmem := hr c ((List.dropWhile_sublist _).subset hc)
    rintro rfl
    exact absurd hmem (by decide)
  rw [← replaceInline_append keepInline hbrace]
  cases htail : r.dropWhile (· ≠ '\t') with
  | nil => exact .inl rfl
  | cons c v =>
    rw [htail] at hfirst
    obtain rfl : c = '\t' := by simpa using hfirst
    exact .inr ⟨rfl,rfl⟩

theorem description_ne_of_tab {t : List Char} (hw : w.head? ≠ some '\t') (ht : t.head? = some '\t')
    (u : List Char) :
    (({} : Reading).line keepInline w).comment.description ≠ [.text (String.ofList (t ++ u))] := by
  intro h
  have hfirst := head?_ne_tab hw (h ▸ List.mem_singleton_self _)
  rw [String.toList_ofList,List.head?_append,ht] at hfirst
  exact hfirst rfl

theorem eq_of_description (hr : ∀ c ∈ r, c ∈ [' ','\t','*']) (hr' : ∀ c ∈ r', c ∈ [' ','\t','*'])
    (hw : w.head? ≠ some '\t')
    (h : (({} : Reading).line keepInline (r.dropWhile (· ≠ '\t') ++ w)).comment.description =
      (({} : Reading).line keepInline (r'.dropWhile (· ≠ '\t') ++ w)).comment.description) :
    r.dropWhile (· ≠ '\t') = r'.dropWhile (· ≠ '\t') := by
  rcases description_indented hr w with hnil | ⟨htab,hkept⟩
  · rcases description_indented hr' w with hnil' | ⟨htab',hkept'⟩
    · rw [hnil,hnil']
    · rw [hnil,hkept',List.nil_append] at h
      exact absurd h (description_ne_of_tab hw htab' _)
  · rcases description_indented hr' w with hnil' | ⟨htab',hkept'⟩
    · rw [hnil',hkept,List.nil_append] at h
      exact absurd h.symm (description_ne_of_tab hw htab _)
    · rw [hkept,hkept'] at h
      have htexts := congrArg String.toList (Entry.text.inj (List.cons.inj h).1)
      rw [String.toList_ofList,String.toList_ofList] at htexts
      exact List.append_cancel_right htexts

/-- Two rows of blanks, tabs and stars may be taken for each other in front of a line, whatever
comment it stands in, just when they are the same from the first tab on. -/
theorem parse_reindented_iff (hr : ∀ c ∈ r, c ∈ [' ','\t','*']) (hr' : ∀ c ∈ r', c ∈ [' ','\t','*'])
    (hw : ∀ c ∈ w.head?, c ∉ [' ','\t','*']) (hline : ∀ c ∈ w, isLineBreak c = false) :
    (∀ form p q, Encloses p q (r ++ w) → Encloses p q (r' ++ w) →
      parse form (enclose (p ++ (r ++ w ++ q))) = parse form (enclose (p ++ (r' ++ w ++ q)))) ↔
    r.dropWhile (· ≠ '\t') = r'.dropWhile (· ≠ '\t') := by
  have hbreaks : ∀ {s}, (∀ c ∈ s, c ∈ [' ','\t','*']) → ∀ c ∈ s ++ w, isLineBreak c = false :=
    fun hs => List.forall_mem_append.mpr ⟨fun c hc => isLineBreak_of_mem_indent (hs c hc),hline⟩
  constructor
  · intro h
    have hopen : ∀ x, Encloses ['\n'] [] x := fun x =>
      ⟨⟨by simp [isLineBreak,inRanges],by simp⟩,by simp⟩
    have hparse := h keepInline ['\n'] [] (hopen _) (hopen _)
    rw [List.append_nil,List.append_nil] at hparse
    have hdescription := congrArg (fun x => x.1.map (·.description)) hparse
    dsimp only [List.singleton_append] at hdescription
    rw [description_single (hbreaks hr),description_single (hbreaks hr'),strip_append hr hw,
      strip_append hr' hw] at hdescription
    exact eq_of_description hr hr' (fun htab => hw '\t' htab (by simp))
      (Option.some.inj hdescription)
  · intro htab form p q hbefore hbefore'
    obtain ⟨s,rest,hparse⟩ := exists_parse_around form (p := p) hbefore.behind
    rw [hparse _ (hbreaks hr) hbefore.before,hparse _ (hbreaks hr') hbefore'.before,
      strip_append hr hw,strip_append hr' hw,htab]

end

/-- A tag in a line that begins with a star is found behind any blanks and stars, but not always
behind a tab. -/
theorem brief_reindented :
    (∀ form p q, Encloses p q (" * @brief x".toList) → Encloses p q ("***@brief x".toList) →
      parse form (enclose (p ++ (" * @brief x".toList ++ q))) =
        parse form (enclose (p ++ ("***@brief x".toList ++ q)))) ∧
    ¬ ∀ form p q, Encloses p q (" * @brief x".toList) → Encloses p q ("\t@brief x".toList) →
      parse form (enclose (p ++ (" * @brief x".toList ++ q))) =
        parse form (enclose (p ++ ("\t@brief x".toList ++ q))) := by
  have hword : ∀ c ∈ "@brief x".toList.head?, c ∉ [' ','\t','*'] := by simp
  have hline : ∀ c ∈ "@brief x".toList, isLineBreak c = false := by simp [isLineBreak,inRanges]
  have hblank : ∀ c ∈ " * ".toList, c ∈ [' ','\t','*'] := by simp
  have hstars : ∀ c ∈ "***".toList, c ∈ [' ','\t','*'] := by simp
  have htab : ∀ c ∈ "\t".toList, c ∈ [' ','\t','*'] := by simp
  constructor
  · exact (parse_reindented_iff hblank hstars hword hline).mpr (by decide)
  · intro h
    exact absurd ((parse_reindented_iff hblank htab hword hline).mp h) (by decide)

end Doc.Comment

end InterfaceKit
