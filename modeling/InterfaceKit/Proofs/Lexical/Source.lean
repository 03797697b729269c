import InterfaceKit.Proofs.Lexical.Munch

/-!
# The tokens of a source

A text has one cut into chunks: each is the longest token where it stands, or it is dropped there
because no token stands there. Every chunk is emitted as a token, skipped, or dropped with a fault.
Tokens and faults carry the place in the text where their chunk begins.
-/
namespace InterfaceKit.Lexical

section Cutting
variable {text u u' : List Char} {cs : List Chunk} {chunk : Chunk}

theorem Chunk.Heads.isPrefix (h : chunk.Heads text) : chunk.text <+: text := by
  obtain ⟨kind,u⟩ := chunk
  cases kind with
  | some k => exact h.1
  | none =>
    obtain ⟨-,v,rest,rfl,rfl,-⟩ := h
    exact (List.prefix_append_right_inj v).mpr (List.take_prefix 1 rest)

theorem Chunk.Heads.ne_nil (h : chunk.Heads text) (ht : text ≠ []) : chunk.text ≠ [] := by
  obtain ⟨kind,u⟩ := chunk
  cases kind with
  | some k => exact h.2.1.1.ne_nil
  | none =>
    obtain ⟨-,v,rest,rfl,rfl,-⟩ := h
    intro hnil
    cases rest with
    | nil => exact ht hnil
    | cons c rest => simp at hnil

theorem Leading.unique {k k' : Kind} (h : Leading k u text) (h' : Leading k' u' text) :
    k = k' ∧ u = u' := by
  have hlength : u.length = u'.length :=
    Nat.le_antisymm (h'.2.2 u h.1 k h.2.1.1) (h.2.2 u' h'.1 k' h'.2.1.1)
  have hu : u = u' := (List.prefix_of_prefix_length_le h.1 h'.1 hlength.le).eq_of_length hlength
  subst hu
  exact ⟨h.2.1.unique h'.2.1,rfl⟩

theorem Stuck.unique (h : Stuck u text) (h' : Stuck u' text) : u = u' := by
  obtain ⟨v,rest,rfl,rfl,hv,hlongest⟩ := h
  obtain ⟨v',rest',ht,rfl,hv',hlongest'⟩ := h'
  have hpre : v <+: v ++ rest := List.prefix_append _ _
  have hpre' : v' <+: v ++ rest := ht ▸ List.prefix_append _ _
  have hlength : v.length = v'.length :=
    Nat.le_antisymm (hlongest' v hpre hv) (hlongest v' hpre' hv')
  obtain ⟨rfl,rfl⟩ := List.append_inj ht hlength
  rfl

theorem Chunk.Heads.unique {chunk' : Chunk} (h : chunk.Heads text) (h' : chunk'.Heads text) :
    chunk = chunk' := by
  obtain ⟨kind,u⟩ := chunk
  obtain ⟨kind',u'⟩ := chunk'
  cases kind with
  | some k =>
    cases kind' with
    | some k' =>
      obtain ⟨rfl,rfl⟩ := Leading.unique h h'
      rfl
    | none => exact absurd h.2.1.1 (h'.1 u h.1 k)
  | none =>
    cases kind' with
    | some k' => exact absurd h'.2.1.1 (h.1 u' h'.1 k')
    | none => exact congrArg (Chunk.mk none) (Stuck.unique h.2 h'.2)

/-- The chunks cut the text: each stands at the front of what the ones before it leave. -/
inductive Cuts : List Char → List Chunk → Prop
  | nil : Cuts [] []
  | cons {chunk : Chunk} {cs : List Chunk} {text : List Char} (ht : text ≠ []) (h : chunk.Heads text)
      (hrest : Cuts (text.drop chunk.text.length) cs) : Cuts text (chunk :: cs)

theorem chunksUpTo_cuts {limit : Nat} (h : text.length ≤ limit) :
    Cuts text (chunksUpTo limit text) := by
  induction limit generalizing text with
  | zero =>
    obtain rfl := List.length_eq_zero_iff.mp (Nat.le_zero.mp h)
    exact .nil
  | succ limit ih =>
    cases text with
    | nil => exact .nil
    | cons c text =>
      have hheads := nextChunk_heads (c :: text)
      have hpos : 0 < (nextChunk (c :: text)).text.length :=
        List.length_pos_of_ne_nil (hheads.ne_nil (List.cons_ne_nil c text))
      refine .cons (List.cons_ne_nil c text) hheads (ih ?_)
      rw [List.length_drop]
      omega

theorem chunks_cuts (text : List Char) : Cuts text (chunks text) := chunksUpTo_cuts (Nat.le_refl _)

theorem Cuts.unique {cs' : List Chunk} (h : Cuts text cs) (h' : Cuts text cs') : cs = cs' := by
  induction h generalizing cs' with
  | nil =>
    cases h' with
    | nil => rfl
    | cons ht => exact absurd rfl ht
  | cons ht h hrest ih =>
    cases h' with
    | nil => exact absurd rfl ht
    | cons _ h' hrest' =>
      obtain rfl := h.unique h'
      rw [ih hrest']

theorem Cuts.flatMap_text (h : Cuts text cs) : cs.flatMap Chunk.text = text := by
  induction h with
  | nil => rfl
  | @cons chunk cs text ht h hrest ih =>
    obtain ⟨rest,hr⟩ := h.isPrefix
    rw [← hr,List.drop_left] at ih
    rw [List.flatMap_cons,ih,hr]

theorem Cuts.ne_nil (h : Cuts text cs) : ∀ chunk ∈ cs, chunk.text ≠ [] := by
  induction h with
  | nil => simp
  | cons ht h hrest ih => exact List.forall_mem_cons.mpr ⟨h.ne_nil ht,ih⟩

theorem Cuts.wins (h : Cuts text cs) {k : Kind} (hmem : ⟨some k,u⟩ ∈ cs) : k.Wins u := by
  induction h with
  | nil => cases hmem
  | cons ht h hrest ih =>
    rcases List.mem_cons.mp hmem with rfl | hmem
    · exact h.2.1
    · exact ih hmem

end Cutting

section Kinds

variable {k : Kind} {u : List Char}

theorem Kind.Wins.not_spells (h : k.Wins u) {k' : Kind}
    (hlt : Kind.all.idxOf k' < Kind.all.idxOf k) :
    ¬ k'.Spells u := by
  intro hs
  have hle := h.2 k' hs
  omega

theorem IsName.inLine (h : IsName u) : InLine u := by
  rintro c hc
  constructor <;> rintro rfl <;> exact h.notMem (by decide) hc

theorem Kind.idxOf_word {s : String} (h : k.spelling? = some s) :
    Kind.all.idxOf k < Kind.all.idxOf .identifier := by
  cases k <;> first | contradiction | decide

/-- A name is never a keyword. -/
theorem Kind.Wins.spelling?_ne (h : Kind.identifier.Wins u) (k : Kind) :
    k.spelling? ≠ some (String.ofList u) := by
  intro hk
  refine h.not_spells (Kind.idxOf_word hk) ((Kind.spells_word hk u).mpr ?_)
  rw [String.toList_ofList]

/-- Some kinds are spelt like an earlier one and never come. -/
theorem Kind.Wins.not_shadowed (h : k.Wins u) :
    k ∉ [Kind.doubleString,.singleString,.tagIdentifier] := by
  intro hk
  simp only [List.mem_cons,List.not_mem_nil,or_false] at hk
  rcases hk with rfl | rfl | rfl
  · have hstring : Kind.string.Spells u := .inl h.1
    exact h.not_spells (by decide) hstring
  · have hstring : Kind.string.Spells u := .inr h.1
    exact h.not_spells (by decide) hstring
  · obtain ⟨v,hv,rfl⟩ := h.1
    have hline : Kind.tagLine.Spells ('@' :: v) := ⟨v,hv.inLine,rfl⟩
    exact h.not_spells (by decide) hline

end Kinds

section Places

/-- The place behind a text: its line feeds count the lines, what follows the last one counts the
columns. -/
def Position.behind (before : List Char) : Position where
  line := before.count '\n' + 1
  column := (before.reverse.takeWhile (· ≠ '\n')).length

theorem Position.behind_concat (before : List Char) (c : Char) :
    Position.behind (before ++ [c]) = (Position.behind before).step c := by
  by_cases hc : c = '\n'
  · simp [behind,step,hc]
  · simp [behind,step,hc]

theorem Position.past_behind (before text : List Char) :
    (Position.behind before).past text = Position.behind (before ++ text) := by
  induction text generalizing before with
  | nil => simp [past]
  | cons c text ih =>
    have hstep := ih (before ++ [c])
    rw [behind_concat,List.append_assoc,List.singleton_append] at hstep
    exact hstep

end Places

section Chunks

/-- Each chunk with the chunks before it, when `before` stand in front of all. -/
def inOrder (before : List Chunk) : List Chunk → List (List Chunk × Chunk)
  | [] => []
  | chunk :: cs => (before, chunk) :: inOrder (before ++ [chunk]) cs

theorem inOrder_concat (before cs : List Chunk) (chunk : Chunk) :
    inOrder before (cs ++ [chunk]) = inOrder before cs ++ [(before ++ cs, chunk)] := by
  induction cs generalizing before with
  | nil => simp [inOrder]
  | cons first cs ih => simp [inOrder,ih]

theorem mem_of_mem_inOrder {before cs : List Chunk} {r : List Chunk × Chunk}
    (h : r ∈ inOrder before cs) :
    r.2 ∈ cs := by
  induction cs generalizing before with
  | nil => cases h
  | cons first cs ih =>
    rcases List.mem_cons.mp h with rfl | h
    · exact List.mem_cons_self
    · exact List.mem_cons_of_mem _ (ih h)

def placeBehind (before : List Chunk) : Position := .behind (before.flatMap Chunk.text)

/-- A chunk with a kind that is not skipped is a token. -/
def Chunk.token? (before : List Chunk) (chunk : Chunk) : Option Token :=
  match chunk.kind with
  | some k =>
    if k.isSkipped then none else some ⟨k,String.ofList chunk.text,placeBehind before,false⟩
  | none => none

def emitted (cs : List Chunk) : List Token := (inOrder [] cs).filterMap fun r => r.2.token? r.1

/-- A chunk without a kind is a fault, listed with the number of tokens before it. -/
def Chunk.fault? (before : List Chunk) (chunk : Chunk) : Option (Nat × Fault) :=
  match chunk.kind with
  | some _ => none
  | none => some ((emitted before).length, ⟨placeBehind before,String.ofList chunk.text⟩)

def dropped (cs : List Chunk) : List (Nat × Fault) :=
  (inOrder [] cs).filterMap fun r => r.2.fault? r.1

theorem emitted_concat (cs : List Chunk) (chunk : Chunk) :
    emitted (cs ++ [chunk]) = emitted cs ++ (chunk.token? cs).toList := by
  cases h : chunk.token? cs <;> simp [emitted,inOrder_concat,h]

theorem dropped_concat (cs : List Chunk) (chunk : Chunk) :
    dropped (cs ++ [chunk]) = dropped cs ++ (chunk.fault? cs).toList := by
  cases h : chunk.fault? cs <;> simp [dropped,inOrder_concat,h]

theorem foldl_extend (cs : List Chunk) :
    cs.foldl Source.extend { tokens := [], faults := [], finish := .start } =
      { tokens := (emitted cs).reverse
        faults := (dropped cs).reverse
        finish := placeBehind cs } := by
  induction cs using List.reverseRecOn with
  | nil => rfl
  | append_singleton cs chunk ih =>
    have hfinish : (placeBehind cs).past chunk.text = placeBehind (cs ++ [chunk]) := by
      simp [placeBehind,Position.past_behind]
    rw [List.foldl_concat,ih,emitted_concat,dropped_concat,Source.extend,hfinish]
    obtain ⟨kind,u⟩ := chunk
    cases kind with
    | none => simp [Chunk.token?,Chunk.fault?]
    | some k => cases hk : k.isSkipped <;> simp [Chunk.token?,Chunk.fault?,hk]

theorem mem_emitted {cs : List Chunk} {t : Token} (h : t ∈ emitted cs) :
    ∃ u, ⟨some t.kind,u⟩ ∈ cs ∧ t.text = String.ofList u ∧ t.hasSurrogate = false := by
  obtain ⟨⟨before,kind,u⟩,hr,ht⟩ := List.mem_filterMap.mp h
  have hmem := mem_of_mem_inOrder hr
  cases kind with
  | none => cases ht
  | some k =>
    simp only [Chunk.token?] at ht
    split at ht
    · cases ht
    · obtain rfl := Option.some.inj ht
      exact ⟨u,hmem,rfl,rfl⟩

theorem Source.tokens_ofText (text : List Char) :
    (Source.ofText text).tokens = emitted (chunks text) := by
  simp [Source.ofText,foldl_extend]

theorem Source.not_hasSurrogate {text : List Char} {t : Token}
    (h : t ∈ (Source.ofText text).tokens) :
    t.hasSurrogate = false := by
  rw [tokens_ofText] at h
  obtain ⟨-,-,-,hsurrogate⟩ := mem_emitted h
  exact hsurrogate

end Chunks

section Surrogates
open Text

/-- The tokens of chunks behind others, each with its flag. -/
def flagged (before cs : List Chunk) (codes : List Code) : List Token :=
  ((inOrder before cs).filterMap fun r => r.2.token? r.1).zipWith
    (fun t b => { t with hasSurrogate := b })
    (surrogateFlags cs codes)

variable {before cs : List Chunk} {chunk : Chunk} {codes : List Code}

theorem flagged_cons : flagged before (chunk :: cs) codes =
    ((chunk.token? before).map fun t =>
      { t with hasSurrogate := (codes.take chunk.text.length).any Code.isSurrogate }).toList ++
    flagged (before ++ [chunk]) cs (codes.drop chunk.text.length) := by
  obtain ⟨kind,u⟩ := chunk
  cases kind with
  | none => simp [flagged,inOrder,surrogateFlags,Chunk.token?]
  | some k => cases hk : k.isSkipped <;> simp [flagged,inOrder,surrogateFlags,Chunk.token?,hk]

/-- A token has its own code points, and its flag is about them. -/
theorem slice_of_mem_flagged {t : Token} (hcodes : codes.map Code.shown = cs.flatMap Chunk.text)
    (ht : t ∈ flagged before cs codes) :
    ∃ skipped own behind, codes = skipped ++ own ++ behind ∧ ⟨some t.kind,own.map Code.shown⟩ ∈ cs ∧
      t.text = String.ofList (own.map Code.shown) ∧
      t.position = .behind (before.flatMap Chunk.text ++ skipped.map Code.shown) ∧
      t.hasSurrogate = own.any Code.isSurrogate := by
  induction cs generalizing before codes with
  | nil => simp [flagged,inOrder] at ht
  | cons chunk cs ih =>
    have hsplit : codes = codes.take chunk.text.length ++ codes.drop chunk.text.length :=
      (List.take_append_drop _ _).symm
    have hown : (codes.take chunk.text.length).map Code.shown = chunk.text := by
      rw [List.map_take,hcodes]
      simp
    have hrest : (codes.drop chunk.text.length).map Code.shown = cs.flatMap Chunk.text := by
      rw [List.map_drop,hcodes]
      simp
    rw [flagged_cons,List.mem_append] at ht
    rcases ht with ht | ht
    · refine ⟨[],_,_,hsplit,?_⟩
      obtain ⟨kind,u⟩ := chunk
      cases kind with
      | none => simp [Chunk.token?] at ht
      | some k =>
        cases hk : k.isSkipped with
        | true => simp [Chunk.token?,hk] at ht
        | false =>
          obtain rfl : t = _ := by simpa [Chunk.token?,hk] using ht
          simp [hown,placeBehind]
    · obtain ⟨skipped,own,behind,happend,hmem,htext,hposition,hflag⟩ := ih hrest ht
      refine ⟨codes.take chunk.text.length ++ skipped,own,behind,?_,List.mem_cons_of_mem _ hmem,
        htext,?_,hflag⟩
      · nth_rewrite 1 [hsplit]
        simp [happend]
      · rw [hposition,List.map_append,hown]
        simp

theorem Source.tokens_ofCodes (codes : List Code) :
    (Source.ofCodes codes).tokens = flagged [] (chunks (codes.map Code.shown)) codes := by
  simp only [Source.ofCodes,Source.tokens_ofText]
  rfl

theorem flagged_char (u : List Char) :
    flagged before cs (u.map .char) = (inOrder before cs).filterMap fun r => r.2.token? r.1 := by
  induction cs generalizing before u with
  | nil => rfl
  | cons chunk cs ih =>
    have hflag : ((u.map Code.char).take chunk.text.length).any Code.isSurrogate = false := by
      simp [← List.map_take,Code.isSurrogate]
    rw [flagged_cons,hflag,← List.map_drop,ih]
    obtain ⟨kind,v⟩ := chunk
    cases kind with
    | none => simp [inOrder,Chunk.token?]
    | some k => cases hk : k.isSkipped <;> simp [inOrder,Chunk.token?,hk]

/-- Characters alone are read as a text. -/
theorem Source.ofCodes_char (text : List Char) :
    Source.ofCodes (text.map .char) = Source.ofText text := by
  have hshown : (text.map Code.char).map Code.shown = text := by simp [Code.shown,Function.comp_def]
  have htokens : (Source.ofCodes (text.map .char)).tokens = (Source.ofText text).tokens := by
    rw [tokens_ofCodes,hshown,flagged_char,tokens_ofText]
    rfl
  simp only [Source.ofCodes,hshown] at htokens ⊢
  rw [htokens]

end Surrogates

/-- A text is cut in one way only, without a loss: into the longest tokens, of the earliest kind,
and the chunks where no token stands. Its source has these tokens at their places, and its names are
no keywords. -/
theorem ofText_maximal_munch (text : List Char) :
    (∀ cs, Cuts text cs ↔ cs = chunks text) ∧
      (chunks text).flatMap Chunk.text = text ∧
      (∀ chunk ∈ chunks text, chunk.text ≠ []) ∧
      Source.ofText text =
        { tokens := emitted (chunks text)
          faults := dropped (chunks text)
          finish := .behind text } ∧
      ∀ t ∈ (Source.ofText text).tokens,
        t.kind ∉ [Kind.doubleString,.singleString,.tagIdentifier] ∧
          (t.kind = .identifier → ∀ k : Kind, k.spelling? ≠ some t.text) := by
  have hcuts := chunks_cuts text
  have hsource : Source.ofText text =
      { tokens := emitted (chunks text)
        faults := dropped (chunks text)
        finish := .behind text } := by
    simp [Source.ofText,foldl_extend,placeBehind,hcuts.flatMap_text]
  refine ⟨?_,hcuts.flatMap_text,hcuts.ne_nil,hsource,?_⟩
  · intro cs
    constructor
    · intro h
      exact h.unique hcuts
    · rintro rfl
      exact hcuts
  · rw [hsource]
    intro t ht
    obtain ⟨u,hu,htext,-⟩ := mem_emitted ht
    have hwins := hcuts.wins hu
    refine ⟨hwins.not_shadowed,?_⟩
    intro hk k
    rw [hk] at hwins
    rw [htext]
    exact hwins.spelling?_ne k

/-- A bad escape drops the string up to it in one chunk. -/
example : (chunks "x \"a\\q 1.0".toList).map (fun chunk => (chunk.kind, String.ofList chunk.text)) =
    [(some .identifier, "x"),(some .whitespace, " "),(none, "\"a\\q"),(some .whitespace, " "),
      (some .version, "1.0")] := by
  decide +kernel

end InterfaceKit.Lexical
