import InterfaceKit.Proofs.Grammar.Completeness

/-!
# How far a document is read

The parser stops behind a document at the first token that cannot go on with it, whatever that token
is: there is no end of input in the grammar. What was read could have been continued in another way
only if a document went on with the same token, and then the parser would have gone on as well.

So the parser accepts a row of tokens exactly when it begins with a document that does not go on
with the next token, and it leaves exactly what stands behind this document.
-/
namespace InterfaceKit.Grammar
open Lexical Phrase
variable {v w u x : List Token} {f : Form} {ts : List Tree} {s : Source} {t : Tree} {c : Cursor}

theorem Form.meets_congr (h : v.head? = w.head?) : f.meets v = f.meets w := by
  cases v <;> cases w <;> simp_all [meets]

theorem Form.reaches_append {rest stack : Form} (hd : Derives rest ts)
    (h : stack.reaches v) : Form.reaches (rest ++ stack) (Tree.tokensOf ts ++ v) := by
  cases ht : Tree.tokensOf ts with
  | nil =>
    have he := (hd.mayEnd_of_tokens ht).1
    rcases h with h | h
    · exact .inl (by simp [he,h])
    · obtain ⟨t,w,rfl,hk⟩ := Form.meets_eq_true h
      rw [← Form.canStart_iff] at hk
      exact .inr (by simp [meets,Form.canStart_append,he,hk])
  | cons t w => exact .inr (by simp [meets,Form.canStart_append,hd.canStart ht])

theorem head_append (h : x.head? = v.head?) : (u ++ x).head? = (u ++ v).head? := by
  rw [List.head?_append,List.head?_append,h]

theorem Reads.meets_tokens (h : Reads f w ts v)
    (hx : x.head? = v.head?) (g : Form) : g.meets (Tree.tokensOf ts ++ x) = g.meets w := by
  rw [h.tokens]
  exact Form.meets_congr (head_append hx)

/-- What was read off the tokens is what any derivation has there, as far as the next token
shows. -/
theorem Reads.resume {r : Rule} {stack : Form} {x : List Token} (h : Reads f w ts v)
    (hc : f.clear r = true) (hf : Fits r stack) (hx : x.head? = v.head?) (hr : stack.reaches v)
    (hd : Form.Derivable (f ++ stack) (Tree.tokensOf ts ++ x)) : stack.Derivable x := by
  induction h generalizing r stack x with
  | nil w => exact hd
  | token t h ih =>
    simp only [Form.clear,Bool.and_eq_true] at hc
    obtain ⟨t',u,hu,-,hd⟩ := Form.Derivable.token_iff.mp hd
    simp only [Tree.tokensOf_cons,Tree.tokens_leaf,List.cons_append,List.nil_append,
      List.cons.injEq] at hu
    rw [← hu.2] at hd
    exact ih hc.2 hf hx hr hd
  | @rule q rest w u v us ts hus hts ihus ihts =>
    simp only [Form.clear,Bool.and_eq_true] at hc
    have hd := Form.Derivable.rule_iff.mp hd
    simp only [Tree.tokensOf_cons,Tree.tokens_node,List.append_assoc] at hd
    have hhead : (Tree.tokensOf ts ++ x).head? = u.head? := by rw [hts.tokens,head_append hx]
    have hreach : Form.reaches (rest ++ stack) u := by
      rw [hts.tokens]
      exact Form.reaches_append hts.derives hr
    exact ihts hc.2 hf hx hr (ihus q.production_clear (hf.enter hc.1) hhead hreach hd)
  | @absent xs rest w v ts hm h ih =>
    rw [← h.meets_tokens hx] at hm
    have hd := maybe_absent hd hm
    simp only [Form.clear,Bool.and_eq_true] at hc
    exact ih hc.2 hf hx hr hd
  | @present xs rest w v ts hm h ih =>
    rw [← h.meets_tokens hx] at hm
    have hd := maybe_present hc hf hd hm
    rw [← List.append_assoc] at hd
    simp only [Form.clear,Bool.and_eq_true] at hc
    exact ih (Form.clear_row hc.1.1.2 hc.2) hf hx hr hd
  | @stop y rest w v ts hm h ih =>
    rw [← h.meets_tokens hx] at hm
    have hd := many_stop hd hm
    simp only [Form.clear,Bool.and_eq_true] at hc
    exact ih hc.2 hf hx hr hd
  | @again y rest w v ts hm h ih =>
    rw [← h.meets_tokens hx] at hm
    have hd := many_again hc hf hd hm
    have hparts := hc
    simp only [Form.clear,Bool.and_eq_true] at hparts
    refine ih ?_ hf hx hr hd
    rw [Form.clear,hparts.1.1.2,hc]
    rfl
  | @pick y xs rest w v ts n hp h ih =>
    obtain ⟨z,hz,hd⟩ := Form.Derivable.choice_iff.mp hd
    have hy : y ∈ xs := by simpa [alternatives] using predict_mem hp
    have hreach : stack.reaches x := by
      rcases hr with hr | hr
      · exact .inl hr
      · exact .inr ((Form.meets_congr hx).trans hr)
    obtain ⟨m,hm⟩ := choice_chosen hc hf hy ⟨ts,h.derives,rfl⟩ hreach
    obtain ⟨a,b,hab,ha,hb⟩ := (Form.Derivable.append_iff (f := .one z :: rest)).mp hd
    obtain ⟨k,hk⟩ := choice_chosen hc hf hz ha (hb.reaches [])
    rw [List.append_nil,← hab,hm] at hk
    obtain ⟨rfl,-⟩ := Prediction.chosen.inj hk
    simp only [Form.clear,Bool.and_eq_true] at hc
    refine ih ?_ hf hx hr hd
    rw [Form.clear,List.all_eq_true.mp hc.1.1.2 y hy,hc.2]
    rfl

/-- Nothing that was left could have been read on. -/
theorem parse_ends (h : parse .document s = .parsed t c) :
    Ends [oneRule .document] t.tokens c.rest := by
  have hr := parse_reads h
  refine ⟨⟨[t],hr.derives,by simp⟩,?_⟩
  rintro t' v' hv y hd
  cases hr with
  | @rule _ _ _ u _ us _ hus hnil =>
    cases hnil
    have hd := Form.Derivable.rule_iff.mp hd
    rw [Tree.tokens_node] at hd
    have hend :=
      hus.resume Rule.document.production_clear fits_document (by rw [hv]; rfl) (.inl rfl) hd
    exact absurd (Form.Derivable.nil_iff.mp hend) (List.cons_ne_nil t' y)

/-- A tree that the parser gives is the tree of a document. -/
theorem exists_document (h : parse .document s = .parsed t c) : ∃ doc : Document, t = doc.tree := by
  obtain ⟨doc,ht⟩ := (Form.Yields.rule document_yields _).mp (parse_reads h).derives
  exact ⟨doc,List.singleton_inj.mp ht⟩

/-- A document goes on with every definition, so none can stand behind the end. -/
theorem Ends.refuses_definition {t : Token} (h : Ends [oneRule .document] u (t :: v)) :
    t.kind ∉ Rule.definition.first := by
  intro hk
  have hstart : Form.canStart [oneRule .definition] t.kind = true := (Form.canStart_iff _ _).mpr hk
  obtain ⟨y,ds,hds,hy⟩ := Item.derivable_of_canStart t _ _ (Nat.le_refl _) hstart
  obtain ⟨d,rfl⟩ := (Form.Yields.rule definition_yields _).mp hds
  obtain ⟨ts,hts,rfl⟩ := h.1
  obtain ⟨doc,rfl⟩ := (Form.Yields.rule document_yields _).mp hts
  refine h.2 t v rfl y ⟨[({ doc with definitions := doc.definitions ++ [d] } : Document).tree],?_,?_⟩
  · exact (Form.Yields.rule document_yields _).mpr ⟨_,rfl⟩
  · simp only [Tree.tokensOf_cons,Tree.tokens_node,Tree.tokensOf_nil,List.append_nil] at hy
    simp [Document.tree,Document.parts,hy]

/-- The parser realises the grammar. -/
theorem parse_sound_and_complete (s : Source) :
    (∀ t c, parse .document s = .parsed t c →
      Derives [oneRule .document] [t] ∧ s.tokens = t.tokens ++ c.rest ∧
      ∀ x v, c.rest = x :: v →
        x.kind ∉ [.interfaceWord,.structWord,.enumWord,.flagWord,.tagLine,.docComment]) ∧
    ((∃ t, Derives [oneRule .document] [t] ∧ t.tokens = s.tokens) →
      ∃ t c, parse .document s = .parsed t c ∧ c.rest = []) := by
  refine ⟨?_,?_⟩
  · intro t c h
    have hr := parse_reads h
    refine ⟨hr.derives,by simpa using hr.tokens,?_⟩
    intro x v hv hx
    have hend := parse_ends h
    rw [hv] at hend
    have hsub : [.interfaceWord,.structWord,.enumWord,.flagWord,.tagLine,.docComment] ⊆
        Rule.definition.first := by decide
    exact hend.refuses_definition (hsub hx)
  · rintro ⟨t,hd,ht⟩
    have hend : Ends [oneRule .document] s.tokens [] :=
      ⟨⟨[t],hd,by simpa using ht⟩,fun x v hv => absurd hv.symm (List.cons_ne_nil x v)⟩
    exact parse_document (List.append_nil _).symm hend

end InterfaceKit.Grammar
