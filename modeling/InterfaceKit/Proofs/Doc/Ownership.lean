import InterfaceKit.Doc.Comment
import Mathlib.Data.List.Infix

/-!
# The owners of lines

Which tag a line of a comment belongs to can be read off the line and the lines before it, back to
the last empty one. Reading a comment from the top, with the tag in force carried along, gives each
line to just this tag.
-/
namespace InterfaceKit.Doc

/-- What a tag collects of a text, with its inline tags written out; without a text it is a mark. -/
def Entry.ofText (said : Option (List Char)) : Entry :=
  said.elim .mark fun text => .text (String.ofList (replaceInline keepInline text))

namespace Comment

def strip (line : List Char) : List Char := line.dropWhile fun c => c = ' ' || c = '*'

def linesOf (text : List Char) : List (List Char) := (Text.lines (body text)).map strip

def declared? : List Char → Option (List Char)
  | '@' :: rest =>
    match (Text.splitWord rest).1 with
    | [] => none
    | tag => some tag
  | _ => none

/-- Lines without an owner: empty ones, and those of a mark with nothing but blanks behind. -/
def isIdle : List Char → Bool
  | [] => true
  | '@' :: rest => rest.all Text.isBlank
  | _ => false

/-- The tag that was declared last with no empty line behind it. -/
def inForce? (before : List (List Char)) : Option (List Char) :=
  (before.reverse.takeWhile (· ≠ [])).findSome? declared?

def owner (before : List (List Char)) (line : List Char) : String :=
  String.ofList (((declared? line).or (inForce? before)).getD "description".toList)

def owned (lines : List (List Char)) : List (String × List Char) :=
  (lines.inits.zip lines).filterMap fun p => if isIdle p.2 then none else some (owner p.1 p.2, p.2)

/-- What a line says: the text behind the tag that it declares, or all of it. -/
def said? : List Char → Option (List Char)
  | '@' :: rest =>
    match (Text.splitWord rest).2 with
    | [] => none
    | text => some text
  | line => some line

def entriesOf (tag : String) (lines : List (String × List Char)) : List Entry :=
  (lines.filter (·.1 = tag)).map fun l => Entry.ofText (said? l.2)

/-- The comment to which each owner has contributed its lines. -/
def collected (lines : List (String × List Char)) : Comment where
  brief := entriesOf "brief" lines
  description := entriesOf "description" lines
  see := entriesOf "see" lines
  deprecated := lines.any (·.1 = "deprecated")

def isKnown (tag : String) : Bool := tag ∈ ["brief","description","see","deprecated"]

/-- What is printed about the lines of unknown tags: one message for each. -/
def reported (lines : List (String × List Char)) : Log :=
  (lines.filter (!isKnown ·.1)).flatMap fun l =>
    Log.line .out ("documentation tag @" ++ l.1 ++ " not supported")

/-! ## One line more -/

section
variable (lines : List (List Char)) (line : List Char)

theorem inForce?_concat :
    inForce? (lines ++ [line]) =
      if line = [] then none else (declared? line).or (inForce? lines) := by
  by_cases h : line = []
  · simp [inForce?,h]
  · cases hd : declared? line <;> simp [inForce?,h,hd]

theorem owned_concat :
    owned (lines ++ [line]) = owned lines ++
      if isIdle line then [] else [(owner lines line, line)] := by
  have hzip : (lines ++ [line]).inits.zip (lines ++ [line]) =
      lines.inits.zip lines ++ [(lines, line)] := by
    induction lines with
    | nil => rfl
    | cons l lines ih =>
      rw [List.cons_append,List.inits_cons,List.zip_cons_cons,List.zip_map_left,ih]
      simp [List.zip_map_left]
  rw [owned,hzip,List.filterMap_append]
  by_cases h : isIdle line <;> simp [owned,h]

end

theorem entriesOf_concat (tag : String) (lines : List (String × List Char))
    (l : String × List Char) :
    entriesOf tag (lines ++ [l]) = entriesOf tag lines ++ if l.1 = tag then
    [Entry.ofText (said? l.2)] else [] := by
  by_cases h : l.1 = tag <;> simp [entriesOf,h]

/-- What is written out of a text is not empty unless the text is. -/
theorem replaceInline_ne_nil {text : List Char} (h : text ≠ []) :
    replaceInline keepInline text ≠ [] := by
  obtain ⟨c,cs,rfl⟩ := List.exists_cons_of_ne_nil h
  rw [replaceInline,List.length_cons,replaceInlineUpTo]
  split
  · simp [keepInline]
  · simp

variable {line : List Char} {lines : List (List Char)}

theorem ofText_said?_ne (h : line ≠ []) : Entry.ofText (said? line) ≠ .text "" := by
  have htext : ∀ text : List Char, text ≠ [] → Entry.ofText (some text) ≠ .text "" := by
    intro text hne heq
    have hnil : replaceInline keepInline text = [] := by simpa [Entry.ofText] using heq
    exact replaceInline_ne_nil hne hnil
  unfold said?
  split
  · split
    · exact nofun
    · rename_i hne
      exact htext _ hne
  · exact htext _ h

theorem collected_concat_of_unknown {tag : String} (h : isKnown tag = false)
    (lines : List (String × List Char)) (line : List Char) :
    collected (lines ++ [(tag, line)]) = collected lines := by
  simp only [isKnown,decide_eq_false_iff_not,List.mem_cons,List.not_mem_nil,or_false,not_or] at h
  obtain ⟨hbrief,hdescription,hsee,hdeprecated⟩ := h
  simp [collected,entriesOf_concat,hbrief,hdescription,hsee,hdeprecated]

theorem add_collected {tag : List Char} (hline : line ≠ []) (hdoc : String.ofList tag ≠ "__doc__")
    (hmodule : String.ofList tag ≠ "__module__") (lines : List (String × List Char)) :
    (collected lines).add keepInline tag (said? line) =
      (collected (lines ++ [(String.ofList tag, line)]), reported [(String.ofList tag, line)]) := by
  have hsaid := ofText_said?_ne hline
  unfold add
  extract_lets e
  have he : e = Entry.ofText (said? line) := by cases hs : said? line <;> simp [e,hs,Entry.ofText]
  clear_value e
  subst he
  split
  · rename_i hname
    simp [collected,entriesOf_concat,reported,isKnown,hname]
  · rename_i hname
    simp [collected,entriesOf_concat,reported,isKnown,hname]
  · rename_i hname
    simp [collected,entriesOf_concat,reported,isKnown,hname]
  · rename_i hname
    simp [collected,entriesOf_concat,reported,isKnown,hname,hsaid]
  · rename_i hname
    exact absurd hname hdoc
  · rename_i hname
    exact absurd hname hmodule
  · rename_i hbrief hdescription hsee hdeprecated _ _
    have hunknown : isKnown (String.ofList tag) = false := by
      simp only [isKnown,decide_eq_false_iff_not,List.mem_cons,List.not_mem_nil,or_false,not_or]
      exact ⟨hbrief,hdescription,hsee,hdeprecated⟩
    rw [collected_concat_of_unknown hunknown]
    simp [reported,hunknown]

/-! ## Reading -/

theorem splitWord_eq_nil_iff (rest : List Char) :
    (Text.splitWord rest).1 = [] ↔ rest.all Text.isBlank = true := by
  induction rest with
  | nil => simp [Text.splitWord]
  | cons c cs ih =>
    cases hc : Text.isBlank c with
    | true => simpa [Text.splitWord,hc] using ih
    | false => simp [Text.splitWord,hc]

/-- No line declares one of the two tags that are taken without a trace. -/
def Plain (lines : List (List Char)) : Prop :=
  ∀ line ∈ lines, ∀ tag ∈ declared? line, String.ofList tag ≠ "__doc__" ∧
    String.ofList tag ≠ "__module__"

instance : DecidablePred Plain :=
  fun lines => inferInstanceAs (Decidable (∀ line ∈ lines, ∀ tag ∈ declared? line, _))

theorem Plain.owner_ne (h : Plain (lines ++ [line])) :
    owner lines line ≠ "__doc__" ∧ owner lines line ≠ "__module__" := by
  unfold owner
  cases htag : (declared? line).or (inForce? lines) with
  | none => exact ⟨by decide,by decide⟩
  | some tag =>
    rcases Option.or_eq_some_iff.mp htag with hline | ⟨-,hforce⟩
    · exact h line (by simp) tag hline
    · obtain ⟨l,hl,hdeclared⟩ := List.exists_of_findSome?_eq_some hforce
      have hmem : l ∈ lines := List.mem_reverse.mp ((List.takeWhile_sublist _).subset hl)
      exact h l (List.mem_append_left _ hmem) tag hdeclared

/-- The state of reading behind some lines. -/
def behind (lines : List (List Char)) : Reading where
  comment := collected (owned lines)
  tag := inForce? lines
  log := reported (owned lines)

section
variable {lines : List (List Char)} {line : List Char}

theorem behind_concat_of_idle (h : isIdle line = true) :
    behind (lines ++ [line]) = { behind lines with tag := inForce? (lines ++ [line]) } := by
  simp [behind,owned_concat,h]

theorem give_behind {tag : List Char} (hplain : Plain (lines ++ [line]))
    (hidle : isIdle line = false) (htag : owner lines line = String.ofList tag) :
    (behind lines).give keepInline tag (said? line) =
      { behind (lines ++ [line]) with tag := inForce? lines } := by
  have hline : line ≠ [] := by
    rintro rfl
    cases hidle
  obtain ⟨hdoc,hmodule⟩ := hplain.owner_ne
  rw [htag] at hdoc hmodule
  simp [Reading.give,behind,add_collected hline hdoc hmodule,owned_concat,hidle,htag,reported]

theorem line_behind_tagged {rest : List Char} (hplain : Plain (lines ++ ['@' :: rest])) :
    (behind lines).line keepInline ('@' :: rest) = behind (lines ++ ['@' :: rest]) := by
  have hidle : isIdle ('@' :: rest) = true ↔ (Text.splitWord rest).1 = [] :=
    (splitWord_eq_nil_iff rest).symm
  rcases hsplit : Text.splitWord rest with ⟨tag,text⟩
  rw [hsplit] at hidle
  cases tag with
  | nil =>
    rw [behind_concat_of_idle (hidle.mpr rfl),inForce?_concat]
    simp [Reading.line,declared?,hsplit,behind]
  | cons c cs =>
    have hdeclared : declared? ('@' :: rest) = some (c :: cs) := by simp [declared?,hsplit]
    have hforce : inForce? (lines ++ ['@' :: rest]) = some (c :: cs) := by
      simp [inForce?_concat,hdeclared]
    have howner : owner lines ('@' :: rest) = String.ofList (c :: cs) := by simp [owner,hdeclared]
    have hgive := give_behind hplain (by simpa using hidle) howner
    cases text with
    | nil =>
      have hsaid : said? ('@' :: rest) = none := by simp [said?,hsplit]
      simp only [Reading.line,hsplit,hsaid ▸ hgive]
      simp [behind,hforce]
    | cons d ds =>
      have hsaid : said? ('@' :: rest) = some (d :: ds) := by simp [said?,hsplit]
      simp only [Reading.line,hsplit,hsaid ▸ hgive]
      simp [behind,hforce]

theorem line_behind (hplain : Plain (lines ++ [line])) :
    (behind lines).line keepInline line = behind (lines ++ [line]) := by
  cases line with
  | nil =>
    rw [behind_concat_of_idle rfl,inForce?_concat]
    rfl
  | cons c rest =>
    by_cases hc : c = '@'
    · subst hc
      exact line_behind_tagged hplain
    · have hdeclared : declared? (c :: rest) = none := by simp [declared?,hc]
      have hforce : inForce? (lines ++ [c :: rest]) = inForce? lines := by
        simp [inForce?_concat,hdeclared]
      have hgive := give_behind hplain (by simp [isIdle,hc])
        (show owner lines (c :: rest) = String.ofList ((inForce? lines).getD "description".toList) by
          simp [owner,hdeclared])
      have hsaid : said? (c :: rest) = some (c :: rest) := by simp [said?,hc]
      rw [hsaid] at hgive
      have hline : (behind lines).line keepInline (c :: rest) =
          (behind lines).give keepInline ((inForce? lines).getD "description".toList)
            (some (c :: rest)) := by
        simp [Reading.line,hc,behind]
      rw [hline,hgive]
      simp [behind,hforce]

end

theorem foldl_line (hplain : Plain lines) :
    lines.foldl (Reading.line keepInline) {} = behind lines := by
  induction lines using List.reverseRecOn with
  | nil => rfl
  | append_singleton lines line ih =>
    rw [List.foldl_concat,ih fun l hl => hplain l (List.mem_append_left _ hl),line_behind hplain]

/-- Every line but the idle ones has an owner. -/
theorem map_snd_owned (lines : List (List Char)) :
    (owned lines).map (·.2) = lines.filter (!isIdle ·) := by
  induction lines using List.reverseRecOn with
  | nil => rfl
  | append_singleton lines line ih =>
    rw [owned_concat,List.map_append,List.filter_append,ih]
    cases h : isIdle line <;> simp [h]

/-- Each line of a comment that is not idle has one owner. The known tags collect their lines in
order, `deprecated` is set if it has a line, and one message is printed about each line of any other
tag. -/
theorem parse_by_owner {text : String} (hne : text ≠ "") (hplain : Plain (linesOf text.toList)) :
    (owned (linesOf text.toList)).map (·.2) = (linesOf text.toList).filter (!isIdle ·) ∧
      parse keepInline text =
        (some (collected (owned (linesOf text.toList))),
          reported (owned (linesOf text.toList))) := by
  have hempty : text.isEmpty = false := by simpa using hne
  have hread : read keepInline text.toList = behind (linesOf text.toList) := foldl_line hplain
  refine ⟨map_snd_owned _,?_⟩
  simp only [parse,hempty,Bool.false_eq_true,if_false,hread,behind]

/-- An unknown tag with a line of its own, a mark without a tag, and a line behind an empty one. -/
def mixedComment : String :=
  "/** @brief a \x7b@link  b\x7d\n * @\n * c\n *\n * d\n * @deprecated\n * @author e\n *\tf\n */"

theorem mixedComment_by_owner :
    mixedComment ≠ "" ∧ Plain (linesOf mixedComment.toList) ∧
      parse keepInline mixedComment =
        (some
          { brief := [.text "a \x7b@link b\x7d",.text "c"]
            description := [.text "d"]
            deprecated := true },
          Log.line .out "documentation tag @author not supported" ++
            Log.line .out "documentation tag @author not supported") := by
  have hlines : linesOf mixedComment.toList =
      ["@brief a \x7b@link  b\x7d","@","c","","d","@deprecated","@author e","\tf",""].map
        String.toList := by
    decide +kernel
  have hplain : Plain (linesOf mixedComment.toList) := by
    rw [hlines]
    decide +kernel
  have hcollected : collected (owned (linesOf mixedComment.toList)) =
      { brief := [.text "a \x7b@link b\x7d",
        .text "c"], description := [.text "d"], deprecated := true } := by
    rw [hlines]
    decide +kernel
  have hunknown : (owned (linesOf mixedComment.toList)).filter (!isKnown ·.1) =
      [("author", "@author e".toList),("author", "\tf".toList)] := by
    rw [hlines]
    decide +kernel
  refine ⟨by decide,hplain,?_⟩
  rw [(parse_by_owner (by decide) hplain).2,hcollected,reported,hunknown]
  simp

end Comment
end InterfaceKit.Doc
