import InterfaceKit.Proofs.Lexical.Source

/-!
# Where block comments end

Two kinds of token begin with a slash and a star. Both run up to the first closing pair behind their
own opening mark, but the marks differ in length, and the longer token is taken. So they agree on
where a comment ends, except for the empty comment `/**/`: its last two characters close a block
comment, but they do not close a documentation comment, which goes on to the next closing pair if
there is one.
-/
namespace InterfaceKit.Lexical

section Closing

variable {u v text : List Char}

/-- A text with a closing pair in it begins with one that closes. -/
theorem exists_closes (h : ['*','/'] <:+: text) : ∃ u, u <+: text ∧ Closes u := by
  induction text with
  | nil => simp at h
  | cons d text ih =>
    by_cases hpair : ['*','/'] <+: d :: text
    · exact ⟨['*','/'],hpair,closes_pair_iff.mpr rfl⟩
    · have hrest := (List.infix_cons_iff.mp h).resolve_left hpair
      obtain ⟨u,hu,hcloses⟩ := ih hrest
      have hfront : d :: u <+: d :: text := (List.prefix_cons_inj d).mpr hu
      exact ⟨d :: u,hfront,(closes_cons_iff fun hp => hpair (hp.trans hfront)).mpr hcloses⟩

theorem Closes.unique (hu : Closes u) (hv : Closes v) (hut : u <+: text) (hvt : v <+: text) :
    u = v := by
  rcases List.prefix_or_prefix_of_prefix hut hvt with h | h
  · exact hv.2 u h hu.1
  · exact (hu.2 v h hv.1).symm

theorem Closes.occurs (hu : Closes u) (hut : u <+: text) : ['*','/'] <:+: text :=
  hu.1.isInfix.trans hut.isInfix

theorem closes_slash_iff : Closes ('/' :: u) ↔ Closes u := closes_cons_iff (by simp)

end Closing

section Opening

variable {k : Kind} {u : List Char}

/-- A kind whose pattern is used up behind a text has no token that begins with it. -/
theorem Kind.Spells.behind_ne_never {v : List Char} (h : k.Spells (u ++ v)) :
    k.pattern.behind u ≠ .never :=
  fun hn => (behind_pattern_eq_never_iff k u).mp hn v h

/-- The tokens that begin with a slash and a star. -/
theorem Kind.spells_opening_iff :
    k.Spells ('/' :: '*' :: u) ↔
      k = .docComment ∧ (∃ v, Closes v ∧ u = '*' :: v) ∨ k = .blockComment ∧ Closes u := by
  have hkinds : ∀ k ∈ Kind.all, k.pattern.behind ['/','*'] ≠ .never → k = .docComment ∨
    k = .blockComment := by decide
  constructor
  · intro h
    rcases hkinds k k.mem_all (Kind.Spells.behind_ne_never (u := ['/','*']) h) with rfl | rfl
    · obtain ⟨v,hv,he⟩ := h
      exact .inl ⟨rfl,v,hv,by simpa using he⟩
    · obtain ⟨v,hv,he⟩ := h
      obtain rfl : u = v := by simpa using he
      exact .inr ⟨rfl,hv⟩
  · rintro (⟨rfl,v,hv,rfl⟩ | ⟨rfl,hu⟩)
    · exact ⟨v,hv,rfl⟩
    · exact ⟨u,hu,rfl⟩

end Opening

section Ending

variable {k : Kind} {u body : List Char}

/-- Where a comment stands at the front of the text, the longest token there begins with it. -/
theorem Leading.opening {v : List Char} (h : Leading k u ('/' :: '*' :: body)) {k' : Kind}
    (hv : '/' :: '*' :: v <+: '/' :: '*' :: body) (hk : k'.Spells ('/' :: '*' :: v)) :
    ∃ w, u = '/' :: '*' :: w ∧ w <+: body ∧ v <+: w := by
  have hvu : '/' :: '*' :: v <+: u := List.prefix_of_prefix_length_le hv h.1 (h.2.2 _ hv k' hk)
  obtain ⟨rest,rfl⟩ := hvu
  refine ⟨v ++ rest,rfl,?_,List.prefix_append v rest⟩
  simpa using h.1

/-- The first closing pair ends the comment, unless it is the one of an empty comment and not the
last one. -/
theorem Leading.ends_at_first {first : List Char} (h : Leading k u ('/' :: '*' :: body))
    (hfirst : first <+: body) (hcloses : Closes first)
    (hempty : ∀ later, body = '*' :: '/' :: later → ¬ ['*','/'] <:+: later) :
    u = '/' :: '*' :: first := by
  have hblock : Kind.blockComment.Spells ('/' :: '*' :: first) :=
    Kind.spells_opening_iff.mpr (.inr ⟨rfl,hcloses⟩)
  obtain ⟨w,rfl,hw,-⟩ := h.opening (by simpa using hfirst) hblock
  rcases Kind.spells_opening_iff.mp h.2.1.1 with ⟨-,v,hv,rfl⟩ | ⟨-,hw'⟩
  · by_cases hpair : ['*','/'] <+: '*' :: v
    · obtain ⟨v',rfl⟩ : ∃ v', v = '/' :: v' := by
        obtain ⟨v',hv'⟩ := hpair
        exact ⟨v',by simpa using hv'.symm⟩
      obtain ⟨later,rfl⟩ := hw
      exact absurd ((closes_slash_iff.mp hv).occurs (List.prefix_append v' later)) (hempty _ rfl)
    · rw [((closes_cons_iff hpair).mpr hv).unique hcloses hw hfirst]
  · rw [hw'.unique hcloses hw hfirst]

/-- An empty comment with a closing pair behind it is taken for the beginning of a documentation
comment. -/
theorem Leading.runs_on {later second : List Char}
    (h : Leading k u ('/' :: '*' :: '*' :: '/' :: later)) (hsecond : second <+: later)
    (hcloses : Closes second) :
    k = .docComment ∧ u = '/' :: '*' :: '*' :: '/' :: second := by
  have hdoc : Kind.docComment.Spells ('/' :: '*' :: '*' :: '/' :: second) :=
    Kind.spells_opening_iff.mpr (.inl ⟨rfl,'/' :: second,closes_slash_iff.mpr hcloses,rfl⟩)
  obtain ⟨w,rfl,hw,hlonger⟩ := h.opening (by simpa using hsecond) hdoc
  rcases Kind.spells_opening_iff.mp h.2.1.1 with ⟨rfl,v,hv,rfl⟩ | ⟨-,hw'⟩
  · have hslash : '/' :: second <+: '/' :: later := (List.prefix_cons_inj '/').mpr hsecond
    rw [hv.unique (closes_slash_iff.mpr hcloses) ((List.prefix_cons_inj '*').mp hw) hslash]
    exact ⟨rfl,rfl⟩
  · obtain rfl : w = ['*','/'] := hw'.unique (closes_pair_iff.mpr rfl) hw ⟨later,rfl⟩
    have hlength := hlonger.length_le
    have hpos := List.length_pos_of_ne_nil hcloses.ne_nil
    simp only [List.length_cons,List.length_nil] at hlength
    omega

theorem Cuts.behind {text : List Char} {before cs : List Chunk} (h : Cuts text (before ++ cs)) :
    Cuts (cs.flatMap Chunk.text) cs := by
  induction before generalizing text with
  | nil =>
    rw [List.nil_append] at h
    exact h.flatMap_text.symm ▸ h
  | cons chunk before ih =>
    cases h with
    | cons _ _ hrest => exact ih hrest

end Ending

/-- Where a text is cut before a slash and a star and there is a closing pair behind them, a comment
is read. It ends with the first closing pair, if and only if this is not the end of an empty comment
with a further closing pair behind it; in that case it ends with the next one, and what stands
between belongs to it. -/
theorem block_comment_ends_iff {text body : List Char} {before behind : List Chunk} {chunk : Chunk}
    (hcut : chunks text = before ++ chunk :: behind)
    (hopen : (chunk :: behind).flatMap Chunk.text = '/' :: '*' :: body)
    (hclose : ['*','/'] <:+: body) :
    chunk.kind ∈ [some Kind.docComment,some .blockComment] ∧ ∃ first, first <+: body ∧ Closes first ∧
      (chunk.text = '/' :: '*' :: first ↔ ¬ ∃ later, body = '*' :: '/' :: later ∧
        ['*','/'] <:+: later) ∧
      ∀ later, body = '*' :: '/' :: later → ['*','/'] <:+: later → ∃ second, second <+: later ∧
        Closes second ∧ chunk = ⟨some .docComment,'/' :: '*' :: '*' :: '/' :: second⟩ := by
  obtain ⟨first,hfirst,hcloses⟩ := exists_closes hclose
  have hfront : '/' :: '*' :: first <+: '/' :: '*' :: body := by simpa using hfirst
  have hblock : Kind.blockComment.Spells ('/' :: '*' :: first) :=
    Kind.spells_opening_iff.mpr (.inr ⟨rfl,hcloses⟩)
  have hheads : chunk.Heads ('/' :: '*' :: body) := by
    have hcuts := chunks_cuts text
    rw [hcut] at hcuts
    cases hopen ▸ hcuts.behind with
    | cons _ h _ => exact h
  obtain ⟨kind,u⟩ := chunk
  cases kind with
  | none => exact absurd hblock (hheads.1 _ hfront _)
  | some k =>
    have hleading : Leading k u ('/' :: '*' :: body) := hheads
    refine ⟨?_,first,hfirst,hcloses,⟨?_,?_⟩,?_⟩
    · obtain ⟨w,rfl,-,-⟩ := hleading.opening hfront hblock
      rcases Kind.spells_opening_iff.mp hleading.2.1.1 with ⟨rfl,-⟩ | ⟨rfl,-⟩ <;> simp
    · rintro hu ⟨later,rfl,hlater⟩
      obtain ⟨second,hsecond,hcloses'⟩ := exists_closes hlater
      have hlong := (hleading.runs_on hsecond hcloses').2
      obtain rfl : first = ['*','/'] := hcloses.unique (closes_pair_iff.mpr rfl) hfirst ⟨later,rfl⟩
      change u = _ at hu
      rw [hu] at hlong
      exact hcloses'.ne_nil (by simpa using hlong)
    · intro hempty
      exact hleading.ends_at_first hfirst hcloses fun later hbody hlater =>
        hempty ⟨later,hbody,hlater⟩
    · rintro later rfl hlater
      obtain ⟨second,hsecond,hcloses'⟩ := exists_closes hlater
      obtain ⟨rfl,rfl⟩ := hleading.runs_on hsecond hcloses'
      exact ⟨second,hsecond,hcloses',rfl⟩

/-- The declaration of `y` becomes a part of the comment before it. -/
theorem empty_comment_swallows :
    let text := "x /**/ int y /* z */ w".toList
    let comment : Chunk := ⟨some .docComment,"/**/ int y /* z */".toList⟩
    let body := "*/ int y /* z */ w".toList
    (∃ before behind, chunks text = before ++ comment :: behind ∧
      (comment :: behind).flatMap Chunk.text = '/' :: '*' :: body) ∧ ['*','/'] <:+: body ∧
      ∃ first, first <+: body ∧ Closes first ∧ comment.text ≠ '/' :: '*' :: first := by
  intro text comment body
  let before : List Chunk := [⟨some .identifier,['x']⟩,⟨some .whitespace,[' ']⟩]
  let behind : List Chunk := [⟨some .whitespace,[' ']⟩,⟨some .identifier,['w']⟩]
  have hcut : chunks text = before ++ comment :: behind := by decide +kernel
  have hopen : (comment :: behind).flatMap Chunk.text = '/' :: '*' :: body := by decide
  have hclose : ['*','/'] <:+: body := ⟨[]," int y /* z */ w".toList,rfl⟩
  have hlater : ['*','/'] <:+: " int y /* z */ w".toList := ⟨" int y /* z ".toList," w".toList,rfl⟩
  obtain ⟨-,first,hfirst,hcloses,hends,-⟩ := block_comment_ends_iff hcut hopen hclose
  exact ⟨⟨before,behind,hcut,hopen⟩,hclose,first,hfirst,hcloses,fun he => hends.mp he ⟨_,rfl,hlater⟩⟩

end InterfaceKit.Lexical
