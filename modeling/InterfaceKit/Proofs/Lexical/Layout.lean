import InterfaceKit.Proofs.Lexical.Comment

/-!
# Layout

The tokens of a text can be written anew, each with a line feed behind it, and they are read as
before. A token that is handed on either has a mark of its own at its end, or it cannot go on behind
the end of a line. So the longest token at its front stays the longest one, whatever stood behind it
in the text that it comes from.
-/
namespace InterfaceKit.Lexical

section Lines

variable {k : Kind} {u : List Char} {c : Char}

theorem ne_break_of_isDigit (h : c.isDigit = true) : c ≠ '\r' ∧ c ≠ '\n' := by
  constructor <;> rintro rfl <;> revert h <;> decide

theorem IsHexDigit.ne_break (h : IsHexDigit c) : c ≠ '\r' ∧ c ≠ '\n' := by
  constructor <;> rintro rfl <;> revert h <;> unfold IsHexDigit <;> decide

theorem InLine.cons {v : List Char} (hc : c ≠ '\r' ∧ c ≠ '\n') (hv : InLine v) : InLine (c :: v) :=
  List.forall_mem_cons.mpr ⟨hc,hv⟩

theorem IsNumeral.inLine (h : IsNumeral u) : InLine u := fun c hc => ne_break_of_isDigit (h.2 c hc)

/-- Tokens of these kinds can go over several lines. -/
def Kind.spansLines : Kind → Bool
  | string | doubleString | singleString | docComment | whitespace | blockComment => true
  | _ => false

theorem Kind.Spells.inLine (h : k.Spells u) (hk : k.spansLines = false) : InLine u := by
  cases hword : k.spelling? with
  | some s =>
    rw [Kind.spells_word hword] at h
    subst h
    cases k <;> first | contradiction | (cases hword; simp [InLine])
  | none =>
    cases k with
    | tagLine =>
      obtain ⟨v,hv,rfl⟩ := h
      exact .cons (by decide) hv
    | lineComment =>
      obtain ⟨v,hv,rfl⟩ := h
      exact .cons (by decide) (.cons (by decide) hv)
    | tagIdentifier =>
      obtain ⟨v,hv,rfl⟩ := h
      exact .cons (by decide) hv.inLine
    | identifier => exact IsName.inLine h
    | integer =>
      obtain ⟨v,hv,rfl | rfl | rfl⟩ := h
      · exact hv.inLine
      · exact .cons (by decide) hv.inLine
      · exact .cons (by decide) hv.inLine
    | hexInteger =>
      obtain ⟨v,-,hv,rfl⟩ := h
      exact .cons (by decide) (.cons (by decide) fun d hd => (hv d hd).ne_break)
    | version =>
      obtain ⟨a,b,ha,hb,rfl⟩ := h
      exact .cons (ne_break_of_isDigit ha)
        (.cons (by decide) (.cons (ne_break_of_isDigit hb) (List.forall_mem_nil _)))
    | string | doubleString | singleString | docComment | whitespace | blockComment => cases hk
    | _ => cases hword

end Lines

section Marks

variable {k : Kind} {q : Char} {u : List Char}

theorem Quotable.tail {c : Char} (h : Quotable q (c :: u)) (hc : c ≠ '\\') :
    c ≠ q ∧ Quotable q u := by
  cases h with
  | escape => exact absurd rfl hc
  | plain hq _ hu => exact ⟨hq,hu⟩

/-- What may stand between two marks ends at the next mark. -/
theorem Quotable.not_append (h : Quotable q u) (hq : q ≠ '\\') (rest : List Char) :
    ¬ Quotable q (u ++ q :: rest) := by
  induction h with
  | nil => exact fun h => (h.tail hq).1 rfl
  | escape hc hu ih =>
    intro h
    cases h with
    | escape _ h => exact ih h
    | plain _ hne => exact hne rfl
  | plain _ hc hu ih => exact fun h => ih (h.tail hc).2

theorem Quoted.not_append (h : Quoted q u) (hq : q ≠ '\\') (d : Char) (w : List Char) :
    ¬ Quoted q (u ++ d :: w) := by
  obtain ⟨v,hv,rfl⟩ := h
  rintro ⟨v',hv',he⟩
  have hlast : v ++ q :: d :: w = v' ++ [q] := by simpa using he
  have hinner : v' = v ++ q :: (d :: w).dropLast := by
    have hdrop := congrArg List.dropLast hlast
    rw [List.dropLast_concat,List.dropLast_append_of_ne_nil (by simp)] at hdrop
    simpa using hdrop.symm
  exact hv.not_append hq _ (hinner ▸ hv')

theorem Quoted.head {c : Char} (h : Quoted q (c :: u)) : c = q := by
  obtain ⟨v,-,he⟩ := h
  exact (List.cons.inj he).1

/-- The front of a token tells which kinds it can be of. -/
theorem Kind.Spells.begins {ks : List Kind} (h : k.Spells (q :: u))
    (hks : ∀ k ∈ Kind.all, k.pattern.behind [q] ≠ .never → k ∈ ks) : k ∈ ks :=
  hks k k.mem_all (Kind.Spells.behind_ne_never (u := [q]) h)

theorem Kind.Spells.quoted (h : k.Spells (q :: u)) (hq : q = '"' ∨ q = '\'') :
    Quoted q (q :: u) := by
  have hk : k ∈ [Kind.string,.doubleString,.singleString] := by
    rcases hq with rfl | rfl <;> exact h.begins (by decide)
  simp only [List.mem_cons,List.not_mem_nil,or_false] at hk
  have hquoted : Quoted '"' (q :: u) ∨ Quoted '\'' (q :: u) := by
    rcases hk with rfl | rfl | rfl
    · exact h
    · exact .inl h
    · exact .inr h
  rcases hquoted with h | h
  · exact h.head ▸ h
  · exact h.head ▸ h

end Marks

section Breaking

variable {k : Kind} {u : List Char}

theorem Kind.Spells.docComment (h : k.Spells ('/' :: u)) (hk : k.isSkipped = false) :
    ∃ v, Closes v ∧ u = '*' :: '*' :: v := by
  have hkinds : ∀ k ∈ Kind.all, k.pattern.behind ['/'] ≠ .never → k.isSkipped = false →
    k = .docComment := by decide
  obtain rfl := hkinds k k.mem_all (Kind.Spells.behind_ne_never (u := ['/']) h) hk
  obtain ⟨v,hv,he⟩ := h
  exact ⟨v,hv,by simpa using he⟩

theorem Kind.Spells.whitespace {c : Char} (h : k.Spells (c :: u)) (hc : c ∈ [' ','\t','\r','\n']) :
    k = .whitespace := by
  have hk : k ∈ [Kind.whitespace] := by
    simp only [List.mem_cons,List.not_mem_nil,or_false] at hc
    rcases hc with rfl | rfl | rfl | rfl <;> exact h.begins (by decide)
  exact List.mem_singleton.mp hk

/-- No token goes on with a line feed behind a token that is handed on. -/
theorem Kind.Spells.not_viable (h : k.Spells u) (hk : k.isSkipped = false) :
    ¬ Viable (u ++ ['\n']) := by
  rintro ⟨k',w,h'⟩
  obtain ⟨c,x,rfl⟩ := List.exists_cons_of_ne_nil h.ne_nil
  rw [List.append_assoc,List.singleton_append] at h'
  have hquoted : ∀ q, q = '"' ∨ q = '\'' → ¬ Quoted q (c :: x ++ '\n' :: w) := by
    intro q hq hlong
    obtain rfl := hlong.head
    have hmark : c ≠ '\\' := by rcases hq with rfl | rfl <;> decide
    exact (h.quoted hq).not_append hmark _ _ hlong
  by_cases hspans : k'.spansLines = true
  · cases k' with
    | string =>
      rcases h' with h' | h'
      · exact hquoted _ (.inl rfl) h'
      · exact hquoted _ (.inr rfl) h'
    | doubleString => exact hquoted _ (.inl rfl) h'
    | singleString => exact hquoted _ (.inr rfl) h'
    | docComment =>
      obtain ⟨v,hv,he⟩ := h'
      obtain ⟨rfl,he⟩ := List.cons.inj he
      obtain ⟨y,hy,rfl⟩ := h.docComment hk
      obtain rfl : y ++ '\n' :: w = v := by simpa using he
      simpa using hv.2 y (List.prefix_append _ _) hy.1
    | blockComment =>
      obtain ⟨v,hv,he⟩ := h'
      obtain ⟨rfl,he⟩ := List.cons.inj he
      obtain ⟨y,hy,rfl⟩ := h.docComment hk
      obtain rfl : '*' :: y ++ '\n' :: w = v := by simpa using he
      simpa using hv.2 ('*' :: y) (List.prefix_append _ _) (List.suffix_cons_iff.mpr (.inr hy.1))
    | whitespace =>
      obtain rfl := h.whitespace (h'.2 c (by simp))
      cases hk
    | _ => cases hspans
  · have hline := h'.inLine (by simpa using hspans)
    exact (hline '\n' (by simp)).2 rfl

/-- A token that is handed on is read again where a line feed stands behind it. -/
theorem Kind.Wins.leading (h : k.Wins u) (hk : k.isSkipped = false) (rest : List Char) :
    Leading k u (u ++ '\n' :: rest) :=
  ⟨List.prefix_append _ _,h,fun _ hv _ hk' =>
    (prefix_of_viable (h.1.not_viable hk) hv hk'.viable).length_le⟩

/-- A line feed is white space by itself if no white space follows. -/
theorem leading_break {rest : List Char} (h : ∀ c ∈ rest.head?, c ∉ [' ','\t','\r','\n']) :
    Leading .whitespace ['\n'] ('\n' :: rest) := by
  have hspells : Kind.whitespace.Spells ['\n'] := ⟨by simp,by simp⟩
  refine ⟨⟨rest,rfl⟩,⟨hspells,fun k' hk' => ?_⟩,fun v hv k' hk' => ?_⟩
  · rw [hk'.whitespace (by simp)]
  · obtain ⟨c,v,rfl⟩ := List.exists_cons_of_ne_nil hk'.ne_nil
    obtain ⟨rest',he⟩ := hv
    obtain ⟨rfl,rfl⟩ := List.cons.inj he
    obtain rfl := hk'.whitespace (by simp)
    cases v with
    | nil => simp
    | cons d v => exact absurd (hk'.2 d (by simp)) (h d (by simp))

end Breaking

section Writing

def Token.unplaced (t : Token) : Token := { t with position := .start }

/-- The texts of tokens, each with a line feed behind it. -/
def laidOut (ts : List Token) : List Char := ts.flatMap fun t => t.text.toList ++ ['\n']

def Token.Handed (t : Token) : Prop :=
  t.kind.Wins t.text.toList ∧ t.kind.isSkipped = false ∧ t.hasSurrogate = false

variable {ts : List Token}

theorem laidOut_head (h : ∀ t ∈ ts, t.Handed) :
    ∀ c ∈ (laidOut ts).head?, c ∉ [' ','\t','\r','\n'] := by
  cases ts with
  | nil => simp [laidOut]
  | cons t ts =>
    obtain ⟨hwins,hskipped,-⟩ := h t (List.mem_cons_self ..)
    obtain ⟨c,u,hu⟩ := List.exists_cons_of_ne_nil hwins.1.ne_nil
    intro d hd hspace
    obtain rfl : c = d := by simpa [laidOut,hu] using hd
    rw [hu] at hwins
    rw [hwins.1.whitespace hspace] at hskipped
    cases hskipped

def laidChunks (ts : List Token) : List Chunk :=
  ts.flatMap fun t => [⟨some t.kind,t.text.toList⟩,⟨some .whitespace,['\n']⟩]

theorem cuts_laidOut (h : ∀ t ∈ ts, t.Handed) : Cuts (laidOut ts) (laidChunks ts) := by
  induction ts with
  | nil => exact .nil
  | cons t ts ih =>
    obtain ⟨⟨hwins,hskipped,-⟩,hts⟩ := List.forall_mem_cons.mp h
    have htext : laidOut (t :: ts) = t.text.toList ++ '\n' :: laidOut ts := by simp [laidOut]
    have htoken : Chunk.Heads ⟨some t.kind,t.text.toList⟩ (t.text.toList ++ '\n' :: laidOut ts) :=
      hwins.leading hskipped _
    have hbreak : Chunk.Heads ⟨some .whitespace,['\n']⟩ ('\n' :: laidOut ts) :=
      leading_break (laidOut_head hts)
    rw [htext]
    refine .cons (by simp) htoken ?_
    rw [List.drop_left]
    exact .cons (by simp) hbreak (ih hts)

theorem map_unplaced_emitted (cs : List Chunk) :
    (emitted cs).map Token.unplaced = cs.filterMap (Chunk.token? []) := by
  induction cs using List.reverseRecOn with
  | nil => rfl
  | append_singleton cs chunk ih =>
    have htoken : (chunk.token? cs).map Token.unplaced = chunk.token? [] := by
      obtain ⟨kind,u⟩ := chunk
      cases kind with
      | none => rfl
      | some k =>
        cases hk : k.isSkipped <;> simp [Chunk.token?,hk,Token.unplaced]
        rfl
    rw [emitted_concat,List.map_append,ih,List.filterMap_append,List.filterMap_cons,← htoken]
    cases chunk.token? cs <;> rfl

theorem dropped_eq_nil {cs : List Chunk} (h : ∀ chunk ∈ cs, chunk.kind.isSome = true) :
    dropped cs = [] := by
  induction cs using List.reverseRecOn with
  | nil => rfl
  | append_singleton cs chunk ih =>
    obtain ⟨hcs,hchunk⟩ := List.forall_mem_append.mp h
    obtain ⟨k,hk⟩ := Option.isSome_iff_exists.mp (hchunk chunk (List.mem_singleton_self chunk))
    rw [dropped_concat,ih hcs]
    simp [Chunk.fault?,hk]

theorem filterMap_laidChunks (h : ∀ t ∈ ts, t.Handed) :
    (laidChunks ts).filterMap (Chunk.token? []) = ts.map Token.unplaced := by
  induction ts with
  | nil => rfl
  | cons t ts ih =>
    obtain ⟨⟨-,hskipped,hsurrogate⟩,hts⟩ := List.forall_mem_cons.mp h
    have htoken : Chunk.token? [] ⟨some t.kind,t.text.toList⟩ = some t.unplaced := by
      simp [Chunk.token?,hskipped,Token.unplaced,hsurrogate]
      rfl
    have hbreak : Chunk.token? [] ⟨some .whitespace,['\n']⟩ = none := rfl
    change List.filterMap _ (_ :: _ :: laidChunks ts) = _
    simp only [List.filterMap_cons,htoken,hbreak,ih hts,List.map_cons]

end Writing

namespace Source

theorem faults_ofText (text : List Char) : (Source.ofText text).faults = dropped (chunks text) := by
  simp [Source.ofText,foldl_extend]

theorem handed_ofText (text : List Char) : ∀ t ∈ (Source.ofText text).tokens, t.Handed := by
  intro t ht
  rw [tokens_ofText] at ht
  obtain ⟨u,hu,htext,hsurrogate⟩ := mem_emitted ht
  have hwins := (chunks_cuts text).wins hu
  refine ⟨by rwa [htext,String.toList_ofList],?_,hsurrogate⟩
  obtain ⟨⟨before,kind,v⟩,-,hr⟩ := List.mem_filterMap.mp ht
  cases kind with
  | none => cases hr
  | some k =>
    cases hk : k.isSkipped with
    | true => simp [Chunk.token?,hk] at hr
    | false =>
      simp only [Chunk.token?,hk,Bool.false_eq_true,if_false,Option.some.injEq] at hr
      rw [← hr]
      exact hk

/-- Tokens that are laid out are read as they were, and nothing else is found. -/
theorem ofText_laidOut {ts : List Token} (h : ∀ t ∈ ts, t.Handed) :
    (Source.ofText (laidOut ts)).tokens.map Token.unplaced = ts.map Token.unplaced ∧
      (Source.ofText (laidOut ts)).faults = [] := by
  have hchunks : chunks (laidOut ts) = laidChunks ts := (chunks_cuts _).unique (cuts_laidOut h)
  rw [tokens_ofText,faults_ofText,hchunks,map_unplaced_emitted,filterMap_laidChunks h]
  refine ⟨rfl,dropped_eq_nil fun chunk hchunk => ?_⟩
  obtain ⟨t,-,hmem⟩ := List.mem_flatMap.mp hchunk
  simp only [List.mem_cons,List.not_mem_nil,or_false] at hmem
  rcases hmem with rfl | rfl <;> rfl

end Source

end InterfaceKit.Lexical
