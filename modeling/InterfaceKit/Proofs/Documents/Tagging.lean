import InterfaceKit.Proofs.Documents.Cached
import InterfaceKit.Proofs.Documents.Revised

/-!
# Tags as a store

The tags of a symbol are what its tag lines say, and this need not be a mapping of mappings. Asking
for an attribute fails where a tag or the tags themselves are no such thing. Setting attributes is
safe for all tags and names just if the tags are a mapping whose entries are mappings of their own:
two tags that share a mapping change together.
-/
namespace InterfaceKit
open Data Model

namespace Data.Store
variable {s : Store} {v x tags : Value} {i j : Nat} {es fs : List (Value × Value)}
  {tag name : String}

/-! ## Asking for attributes -/

/-- A value cannot be asked for a name: it is a text that has the name in it, or a row that has the
name in it, or nothing can be in it. -/
def Refuses (s : Store) (v : Value) (name : String) : Prop :=
  match v with
  | .text t => Text.occursIn name.toList t.toList = true
  | .ref i =>
    match s.get? i with
    | some (.list xs) | some (.tuple xs) | some (.set xs) => .text name ∈ xs
    | some (.map _) | none => False
  | _ => True

/-- How a value that is no mapping answers. -/
inductive Answers (s : Store) (v : Value) (name : String) : Prop
  | absent (hname : ¬ s.Refuses v name) (h : s.contains v (.text name) = .ok false)
  | closed (hname : s.Refuses v name) {e : Failure} (h : s.contains v (.text name) = .error e)
  | present (hname : s.Refuses v name) (h : s.contains v (.text name) = .ok true)
      (hitem : ∃ e, s.getItem v (.text name) = .error e)

theorem answers_of_row (xs : List Value)
    (hcontains : s.contains v (.text name) = .ok (xs.any (s.equal (.text name)))) (hrefuses :
      s.Refuses v name ↔ .text name ∈ xs) (hitem : ∃ e, s.getItem v (.text name) = .error e) :
    s.Answers v name := by
  have hany : xs.any (s.equal (.text name)) = decide (.text name ∈ xs) := by
    simp only [text_equal,List.any_eq,Bool.decide_iff]
    simp
  rw [hany] at hcontains
  by_cases hmem : .text name ∈ xs
  · exact .present (hrefuses.mpr hmem) (by rw [hcontains,decide_eq_true hmem]) hitem
  · exact .absent (mt hrefuses.mp hmem) (by rw [hcontains,decide_eq_false hmem])

theorem answers (hv : s.isMapping v = false) (name : String) : s.Answers v name := by
  cases v with
  | text t =>
    cases hoccurs : Text.occursIn name.toList t.toList with
    | false => exact .absent (by rw [Refuses,hoccurs]; nofun) (by rw [contains,hoccurs])
    | true => exact .present hoccurs (by rw [contains,hoccurs]) ⟨_,rfl⟩
  | ref i =>
    cases hcell : s.get? i with
    | none => exact .absent (by rw [Refuses,hcell]; exact id) (by rw [contains,hcell])
    | some c =>
      cases c with
      | map es =>
        rw [isMapping_of_get? hcell] at hv
        cases hv
      | list xs | tuple xs =>
        exact answers_of_row xs (by rw [contains,hcell]) (by rw [Refuses,hcell])
          ⟨_,by rw [getItem,hcell]; rfl⟩
      | set xs =>
        exact answers_of_row xs (by rw [contains,hcell]; rfl) (by rw [Refuses,hcell])
          ⟨_,by rw [getItem,hcell]⟩
  | _ => exact .closed trivial rfl

def member (s : Store) (v : Value) (name : String) : Except Failure Value := do
  if ← s.contains v (.text name) then s.getItem v (.text name) else .ok .null

theorem contains_text (hes : s.get? i = some (.map es)) (name : String) :
    s.contains (.ref i) (.text name) = .ok ((textEntries es).get? name).isSome := by
  rw [contains,hes,← findEntry_text s]
  rfl

theorem getItem_text (hes : s.get? i = some (.map es)) (hx : (textEntries es).get? name = some x) :
    s.getItem (.ref i) (.text name) = .ok x := by
  rw [getItem,hes]
  simp only [findEntry_text,hx]
  rfl

theorem member_mapping (hes : s.get? i = some (.map es)) (name : String) :
    s.member (.ref i) name = .ok (((textEntries es).get? name).getD .null) := by
  rw [member,contains_text hes]
  cases hx : (textEntries es).get? name with
  | none => rfl
  | some x => exact getItem_text hes hx

theorem Answers.member (h : s.Answers v name) :
    ¬ s.Refuses v name ∧ s.member v name = .ok .null ∨ s.Refuses v name ∧
    ∃ e, s.member v name = .error e := by
  cases h with
  | absent hname h => exact .inl ⟨hname,by rw [Store.member,h]; rfl⟩
  | closed hname h => exact .inr ⟨hname,_,by rw [Store.member,h]; rfl⟩
  | present hname h hitem =>
    obtain ⟨e,hitem⟩ := hitem
    refine .inr ⟨hname,e,?_⟩
    rw [Store.member,h]
    exact hitem

theorem not_refuses_mapping (hes : s.get? i = some (.map es)) (name : String) :
    ¬ s.Refuses (.ref i) name := by
  rw [Refuses,hes]
  exact id

theorem member_error_iff (s : Store) (v : Value) (name : String) :
    (∃ e, s.member v name = .error e) ↔ s.Refuses v name := by
  cases hv : s.isMapping v with
  | true =>
    obtain ⟨i,es,rfl,hes⟩ := isMapping_iff.mp hv
    rw [member_mapping hes]
    exact iff_of_false nofun (not_refuses_mapping hes name)
  | false =>
    rcases (answers hv name).member with ⟨hname,h⟩ | ⟨hname,h⟩
    · rw [h]
      exact iff_of_false nofun hname
    · exact iff_of_true h hname

theorem tagAttribute_mapping (hes : s.get? i = some (.map es)) (tag name : String) :
    tagAttribute s (.ref i) (.text tag) (.text name) =
      ((textEntries es).get? tag).elim (.ok .null) fun x => s.member x name := by
  rw [tagAttribute,contains_text hes]
  cases hx : (textEntries es).get? tag with
  | none => rfl
  | some x =>
    rw [getItem_text hes hx,Option.elim_some,member]
    change (s.contains x (.text name) >>= fun b => _) = _
    cases s.contains x (.text name) with
    | error e => rfl
    | ok found =>
      cases found <;> rfl

theorem tagAttribute_of_tag (hes : s.get? i = some (.map es))
    (hx : (textEntries es).get? tag = some (.ref j)) (hfs : s.get? j = some (.map fs))
    (name : String) :
    tagAttribute s (.ref i) (.text tag) (.text name) =
      .ok (((textEntries fs).get? name).getD .null) := by
  rw [tagAttribute_mapping hes,hx,Option.elim_some,member_mapping hfs]

theorem tagAttribute_of_absent (hes : s.get? i = some (.map es))
    (hx : (textEntries es).get? tag = none) (name : String) :
    tagAttribute s (.ref i) (.text tag) (.text name) = .ok .null := by
  rw [tagAttribute_mapping hes,hx,Option.elim_none]

theorem tagAttribute_other (hv : s.isMapping tags = false) (tag name : String) :
    tagAttribute s tags (.text tag) (.text name) = s.member tags tag := by
  rw [tagAttribute,member]
  cases answers hv tag with
  | absent hname h => rw [h]; rfl
  | closed hname h => rw [h]; rfl
  | present hname h hitem =>
    obtain ⟨e,hitem⟩ := hitem
    rw [h,hitem]
    rfl

theorem tagAttribute_error_iff (s : Store) (tags : Value) (tag name : String) :
    (∃ e, tagAttribute s tags (.text tag) (.text name) = .error e) ↔
      s.Refuses tags tag ∨ ∃ x, (s.bindings tags).get? tag = some x ∧ s.Refuses x name := by
  cases hv : s.isMapping tags with
  | true =>
    obtain ⟨i,es,rfl,hes⟩ := isMapping_iff.mp hv
    rw [tagAttribute_mapping hes,bindings_of_get? hes,or_iff_right (not_refuses_mapping hes tag)]
    cases (textEntries es).get? tag with
    | none => simp
    | some x => simpa using s.member_error_iff x name
  | false =>
    have hnone : s.mapping? tags = none := by simpa [isMapping] using hv
    rw [tagAttribute_other hv,member_error_iff,bindings,hnone]
    simp [Table.get?]

/-! ## Setting attributes -/

def Holds (s : Store) (v : Value) : Prop := ∀ i, v = .ref i → (s.get? i).isSome = true

theorem setItem_mapping (hes : s.get? i = some (.map es)) (name : String) (v : Value) :
    s.setItem (.ref i) (.text name) v = .ok (s.put i (.map (s.setEntry es (.text name) v))) := by
  rw [setItem,hes]
  rfl

theorem setItem_other (hv : s.isMapping tags = false) (name : String) (v : Value) :
    ∃ e, s.setItem tags (.text name) v = .error e := by
  cases tags with
  | ref i =>
    cases hcell : s.get? i with
    | none => exact ⟨_,by rw [setItem,hcell]; rfl⟩
    | some c =>
      cases c with
      | map es =>
        rw [isMapping_of_get? hcell] at hv
        cases hv
      | list xs | tuple xs | set xs => exact ⟨_,by rw [setItem,hcell]; rfl⟩
  | _ => exact ⟨_,rfl⟩

theorem addAttribute_entry (hes : s.get? i = some (.map es))
    (hx : (textEntries es).get? tag = some x) (name : String) (v : Value) :
    addAttribute s (.ref i) (.text tag) (.text name) v =
      match s.setItem x (.text name) v with
      | .ok s' => (.ok (), s')
      | .error e => (.error e, s) := by
  have htag : addTag s (.ref i) (.text tag) = (.ok (), s) := by
    rw [addTag,contains_text hes,hx]
    rfl
  rw [addAttribute,htag]
  dsimp only
  rewrite [getItem_text hes hx]
  rfl

theorem addAttribute_present (hes : s.get? i = some (.map es))
    (hx : (textEntries es).get? tag = some (.ref j)) (hfs : s.get? j = some (.map fs))
    (name : String) (v : Value) :
    addAttribute s (.ref i) (.text tag) (.text name) v =
      (.ok (), s.put j (.map (s.setEntry fs (.text name) v))) := by
  rw [addAttribute_entry hes hx,setItem_mapping hfs]

theorem addAttribute_refused (hes : s.get? i = some (.map es))
    (hx : (textEntries es).get? tag = some x) (hother : s.isMapping x = false) (name : String)
    (v : Value) :
    ∃ e, (addAttribute s (.ref i) (.text tag) (.text name) v).1 = .error e := by
  obtain ⟨e,he⟩ := setItem_other hother name v
  exact ⟨e,by rw [addAttribute_entry hes hx,he]⟩

theorem get?_alloc_of_ne (h : i ≠ s.cells.size) (c : Cell) : (s.alloc c).2.get? i = s.get? i := by
  rw [get?,alloc,Array.getElem?_push,if_neg h]
  rfl

theorem addAttribute_absent (hes : s.get? i = some (.map es))
    (hnone : (textEntries es).get? tag = none) (name : String) (v : Value) :
    ∃ s' es', addAttribute s (.ref i) (.text tag) (.text name) v = (.ok (), s') ∧
      s'.get? i = some (.map es') ∧ textEntries es' = (textEntries es).set tag (.ref s.cells.size) ∧
      s'.get? s.cells.size = some (.map [(.text name, v)]) ∧
      ∀ j, j ≠ i → j ≠ s.cells.size → s'.get? j = s.get? j := by
  let k := s.cells.size
  let s₁ := (s.alloc (.map [])).2
  let es' := s₁.setEntry es (.text tag) (.ref k)
  let s₂ := s₁.put i (.map es')
  have hne : i ≠ k := by
    have hlt := (Array.getElem?_eq_some_iff.mp hes).1
    exact Nat.ne_of_lt hlt
  have hes₁ : s₁.get? i = some (.map es) := get?_alloc hes _
  have hk₁ : s₁.get? k = some (.map []) := Array.getElem?_push_size
  have hes₂ : s₂.get? i = some (.map es') := get?_put_self hes₁ _
  have hk₂ : s₂.get? k = some (.map []) := (get?_put_of_ne hne _).trans hk₁
  have htable : textEntries es' = (textEntries es).set tag (.ref k) := textEntries_setEntry_text ..
  have htag : addTag s (.ref i) (.text tag) = (.ok (), s₂) := by
    rw [addTag,contains_text hes,hnone]
    dsimp only [Option.isSome_none]
    rw [show s.alloc (.map []) = (k, s₁) from rfl]
    dsimp only
    rw [setItem_mapping hes₁]
  refine ⟨s₂.put k (.map [(.text name, v)]),es',?_,?_,htable,get?_put_self hk₂ _,fun j hj hjk => ?_⟩
  · rw [addAttribute,htag]
    dsimp only
    rw [getItem_text hes₂ (by rw [htable,Table.get?_set])]
    dsimp only
    rw [setItem_mapping hk₂]
    rfl
  · exact (get?_put_of_ne hne.symm _).trans hes₂
  · rw [get?_put_of_ne (Ne.symm hjk),get?_put_of_ne (Ne.symm hj)]
    exact get?_alloc_of_ne hjk _

theorem addAttribute_other (hv : s.isMapping tags = false) (hthere : s.Holds tags)
    (tag name : String) (v : Value) :
    ∃ e, (addAttribute s tags (.text tag) (.text name) v).1 = .error e := by
  rw [addAttribute,addTag]
  cases answers hv tag with
  | closed hname h => exact ⟨_,by rw [h]⟩
  | present hname h hitem =>
    obtain ⟨e,hitem⟩ := hitem
    exact ⟨e,by rw [h]; dsimp only; rw [hitem]⟩
  | absent hname h =>
    have hstill : (s.alloc (.map [])).2.isMapping tags = false := by
      rw [← hv]
      cases tags with
      | ref i =>
        obtain ⟨c,hc⟩ := Option.isSome_iff_exists.mp (hthere i rfl)
        rw [isMapping,isMapping,mapping?_congr ((get?_alloc hc _).trans hc.symm)]
      | _ => rfl
    obtain ⟨e,he⟩ := setItem_other hstill tag (.ref (s.alloc (.map [])).1)
    exact ⟨e,by rw [h]; dsimp only; rw [he]⟩

/-! ## When tags are a store -/

/-- Tags that are a mapping, in which each tag has a mapping of its own. -/
structure TagMapping (s : Store) (tags : Value) : Prop where
  mapping : s.isMapping tags = true
  entries : ∀ tag x, (s.bindings tags).get? tag = some x → s.isMapping x = true ∧ x ≠ tags
  apart : ∀ tag tag' x, (s.bindings tags).get? tag = some x → (s.bindings tags).get? tag' = some x →
    tag = tag'

/-- An attribute that has been set can be read, and the others are what they were. -/
def Stores (s : Store) (tags : Value) : Prop :=
  ∀ (tag name : String) (v : Value), ∃ s', addAttribute s tags (.text tag) (.text name) v =
    (.ok (), s') ∧
    tagAttribute s' tags (.text tag) (.text name) = .ok v ∧
    ∀ tag' name', (tag', name') ≠ (tag, name) →
      tagAttribute s' tags (.text tag') (.text name') =
        tagAttribute s tags (.text tag') (.text name')

theorem TagMapping.stores (h : s.TagMapping tags) : s.Stores tags := by
  intro tag name v
  obtain ⟨i,es,rfl,hes⟩ := isMapping_iff.mp h.mapping
  have hentries := h.entries
  have hapart := h.apart
  rw [bindings_of_get? hes] at hentries hapart
  cases hx : (textEntries es).get? tag with
  | none =>
    obtain ⟨s',es',hrun,hes',htable,hnew,hold⟩ := addAttribute_absent hes hx name v
    have htag : (textEntries es').get? tag = some (.ref s.cells.size) := by
      rw [htable,Table.get?_set]
    have hsingle : textEntries [(.text name, v)] = Table.set [] name v := rfl
    refine ⟨s',hrun,?_,fun tag' name' hne => ?_⟩
    · rw [tagAttribute_of_tag hes' htag hnew,hsingle,Table.get?_set,Option.getD_some]
    · by_cases hsame : tag' = tag
      · subst hsame
        have hname : name' ≠ name := fun hname => hne (by rw [hname])
        rw [tagAttribute_of_tag hes' htag hnew,tagAttribute_of_absent hes hx,hsingle,
          Table.get?_set_of_ne hname]
        rfl
      · have hget : (textEntries es').get? tag' = (textEntries es).get? tag' := by
          rw [htable,Table.get?_set_of_ne hsame]
        cases hx' : (textEntries es).get? tag' with
        | none => rw [tagAttribute_of_absent hes' (hget.trans hx'),tagAttribute_of_absent hes hx']
        | some x' =>
          obtain ⟨hmap,hother⟩ := hentries tag' x' hx'
          obtain ⟨j,fs,rfl,hfs⟩ := isMapping_iff.mp hmap
          have hj : j ≠ s.cells.size := Nat.ne_of_lt (Array.getElem?_eq_some_iff.mp hfs).1
          have hfs' := (hold j (fun hji => hother (congrArg _ hji)) hj).trans hfs
          rw [tagAttribute_of_tag hes' (hget.trans hx') hfs',tagAttribute_of_tag hes hx' hfs]
  | some x =>
    obtain ⟨hmap,hother⟩ := hentries tag x hx
    obtain ⟨j,fs,rfl,hfs⟩ := isMapping_iff.mp hmap
    have hji : j ≠ i := fun hji => hother (congrArg _ hji)
    have hes' : (s.put j (.map (s.setEntry fs (.text name) v))).get? i = some (.map es) :=
      (get?_put_of_ne hji _).trans hes
    have hfs' := get?_put_self hfs (.map (s.setEntry fs (.text name) v))
    refine ⟨_,addAttribute_present hes hx hfs name v,?_,fun tag' name' hne => ?_⟩
    · rw [tagAttribute_of_tag hes' hx hfs',textEntries_setEntry_text,Table.get?_set,Option.getD_some]
    · by_cases hsame : tag' = tag
      · subst hsame
        have hname : name' ≠ name := fun hname => hne (by rw [hname])
        rw [tagAttribute_of_tag hes' hx hfs',tagAttribute_of_tag hes hx hfs,
          textEntries_setEntry_text,Table.get?_set_of_ne hname]
      · cases hx' : (textEntries es).get? tag' with
        | none => rw [tagAttribute_of_absent hes' hx',tagAttribute_of_absent hes hx']
        | some x' =>
          obtain ⟨hmap',-⟩ := hentries tag' x' hx'
          obtain ⟨j',fs',rfl,hfs''⟩ := isMapping_iff.mp hmap'
          have hjj : j ≠ j' := by
            rintro rfl
            exact hsame (hapart tag' tag _ hx' hx)
          rw [tagAttribute_of_tag hes hx' hfs'',
            tagAttribute_of_tag hes' hx' ((get?_put_of_ne hjj _).trans hfs'')]

theorem exists_ne (u : Value) : ∃ v : Value, v ≠ u := by
  by_cases hu : u = .null
  · exact ⟨.bool true,by rw [hu]; nofun⟩
  · exact ⟨.null,Ne.symm hu⟩

/-- A mapping that has itself as the tag `tag` answers that tag's attribute `tag` with itself,
whatever other entry is set in it. -/
theorem tagAttribute_itself (hcell : s.get? i = some (.map es))
    (htag : (textEntries es).get? tag = some (.ref i)) (hne : tag ≠ name) :
    tagAttribute (s.put i (.map (s.setEntry es (.text name) v))) (.ref i) (.text tag) (.text tag) =
      .ok (.ref i) := by
  have hself := get?_put_self hcell (.map (s.setEntry es (.text name) v))
  have hentry : (textEntries (s.setEntry es (.text name) v)).get? tag = some (.ref i) := by
    rw [textEntries_setEntry_text,Table.get?_set_of_ne hne,htag]
  rw [tagAttribute_of_tag hself hentry hself,hentry,Option.getD_some]

/-- Tags whose cell is not there cannot be written, or they come to be their own tag. -/
theorem Stores.holds (h : s.Stores tags) : s.Holds tags := by
  intro i hi
  subst hi
  by_contra hnone
  rw [Bool.not_eq_true,Option.isSome_eq_false_iff,Option.isNone_iff_eq_none] at hnone
  obtain ⟨s',hrun,-,hframe⟩ := h "t" "n" .null
  have hcontains : s.contains (.ref i) (.text "t") = .ok false := by rw [contains,hnone]
  have hbefore : tagAttribute s (.ref i) (.text "t") (.text "t") = .ok .null := by
    rw [tagAttribute,hcontains]
    rfl
  rw [addAttribute,addTag,hcontains] at hrun
  dsimp only at hrun
  by_cases hi : i = s.cells.size
  · have hcell : (s.alloc (.map [])).2.get? i = some (.map []) := hi ▸ Array.getElem?_push_size
    have hes := get?_put_self hcell (.map ((s.alloc (.map [])).2.setEntry [] (.text "t") (.ref i)))
    have htag : (textEntries ((s.alloc (.map [])).2.setEntry [] (.text "t") (.ref i))).get? "t" =
        some (.ref i) := by
      rw [textEntries_setEntry_text,Table.get?_set]
    rw [show (s.alloc (.map [])).1 = i from hi.symm,setItem_mapping hcell] at hrun
    dsimp only at hrun
    rw [getItem_text hes htag] at hrun
    dsimp only at hrun
    rw [setItem_mapping hes] at hrun
    obtain ⟨-,rfl⟩ := Prod.mk.inj hrun
    have hframe := hframe "t" "t" (by decide)
    rw [hbefore,tagAttribute_itself hes htag (by decide)] at hframe
    cases hframe
  · have hother : (s.alloc (.map [])).2.isMapping (.ref i) = false := by
      rw [isMapping,mapping?_congr (get?_alloc_of_ne hi _),mapping?,hnone]
      rfl
    obtain ⟨e,he⟩ := setItem_other hother "t" (.ref (s.alloc (.map [])).1)
    rw [he] at hrun
    cases hrun

theorem Stores.mapping (h : s.Stores tags) : s.isMapping tags = true := by
  by_contra hother
  obtain ⟨s',hrun,-⟩ := h "" "" .null
  obtain ⟨e,he⟩ := addAttribute_other (Bool.not_eq_true _ ▸ hother) h.holds "" "" .null
  rw [hrun] at he
  cases he

theorem Stores.tagMapping (h : s.Stores tags) : s.TagMapping tags := by
  obtain ⟨i,es,rfl,hes⟩ := isMapping_iff.mp h.mapping
  have hmapping : ∀ tag x, (textEntries es).get? tag = some x → s.isMapping x = true := by
    intro tag x hx
    by_contra hother
    obtain ⟨s',hrun,-⟩ := h tag "" .null
    obtain ⟨e,he⟩ := addAttribute_refused hes hx (Bool.not_eq_true _ ▸ hother) "" .null
    rw [hrun] at he
    cases he
  have hown : ∀ tag x, (textEntries es).get? tag = some x → x ≠ .ref i := by
    rintro tag x hx rfl
    obtain ⟨s',hrun,hread,-⟩ := h tag tag .null
    rw [addAttribute_present hes hx hes] at hrun
    obtain ⟨-,rfl⟩ := Prod.mk.inj hrun
    rw [tagAttribute_mapping (get?_put_self hes _),textEntries_setEntry_text,Table.get?_set,
      Option.elim_some] at hread
    cases hread
  refine ⟨h.mapping,?_,?_⟩
  · rw [bindings_of_get? hes]
    exact fun tag x hx => ⟨hmapping tag x hx,hown tag x hx⟩
  · rw [bindings_of_get? hes]
    intro tag tag' x hx hx'
    by_contra htag
    obtain ⟨j,fs,rfl,hfs⟩ := isMapping_iff.mp (hmapping tag x hx)
    obtain ⟨v,hv⟩ := exists_ne (((textEntries fs).get? "").getD .null)
    obtain ⟨s',hrun,-,hframe⟩ := h tag "" v
    have hsame := hframe tag' "" fun heq => htag (Prod.mk.inj heq).1.symm
    rw [addAttribute_present hes hx hfs] at hrun
    obtain ⟨-,rfl⟩ := Prod.mk.inj hrun
    have hji : j ≠ i := fun hji => hown tag _ hx (congrArg _ hji)
    rw [tagAttribute_of_tag ((get?_put_of_ne hji _).trans hes) hx' (get?_put_self hfs _),
      tagAttribute_of_tag hes hx' hfs,textEntries_setEntry_text,Table.get?_set] at hsame
    exact hv (Except.ok.inj hsame)

theorem stores_iff : s.Stores tags ↔ s.TagMapping tags := ⟨Stores.tagMapping,TagMapping.stores⟩

theorem addAttribute_error_iff (hthere : s.Holds tags) (tag name : String) (v : Value) :
    (∃ e, (addAttribute s tags (.text tag) (.text name) v).1 = .error e) ↔
      s.isMapping tags = false ∨ ∃ x, (s.bindings tags).get? tag = some x ∧
      s.isMapping x = false := by
  cases hv : s.isMapping tags with
  | false => exact iff_of_true (addAttribute_other hv hthere tag name v) (.inl rfl)
  | true =>
    obtain ⟨i,es,rfl,hes⟩ := isMapping_iff.mp hv
    rw [bindings_of_get? hes]
    cases hx : (textEntries es).get? tag with
    | none =>
      obtain ⟨s',_,hrun,-⟩ := addAttribute_absent hes hx name v
      rw [hrun]
      simp
    | some x =>
      cases hmap : s.isMapping x with
      | false => exact iff_of_true (addAttribute_refused hes hx hmap name v) (.inr ⟨x,rfl,hmap⟩)
      | true =>
        obtain ⟨j,fs,rfl,hfs⟩ := isMapping_iff.mp hmap
        rw [addAttribute_present hes hx hfs]
        simp [hmap]

end Data.Store

/-! ## The tags of symbols -/

namespace Workspace
variable {n : Nat} {w : Workspace}

/-- The workspaces in which the system `n` has been made, and texts and documents have been read
into it. -/
inductive Filled (n : Nat) : Workspace → Prop
  | new {w : Workspace} (h : w.systems.length = n) : Filled n (Act.newSystem.run w).2
  | text {w : Workspace} (h : Filled n w) (profile : Profile) (text : String) :
      Filled n ((Act.readSystemText n profile text).run w).2
  | document {w : Workspace} (h : Filled n w) (profile : Profile) (document : String) :
      Filled n ((Act.readDocument n profile document).run w).2

/-- What is read is the same as what would be read again. -/
theorem Filled.mirrors (hw : w.Filled n) : ∃ R, w.Mirrors n n R w := by
  induction hw with
  | @new w h =>
    subst h
    exact ⟨_,Act.newSystem_mirrors (.refl w)⟩
  | text _ profile text ih =>
    obtain ⟨R,h⟩ := ih
    obtain ⟨R',hmoves,-⟩ := Act.readSource_abreast h profile "<TEXT>" text.toList
    exact ⟨R',hmoves.mirrors⟩
  | document _ profile document ih =>
    obtain ⟨R,h⟩ := ih
    obtain ⟨R',hmoves,-⟩ := Act.readDocument_abreast h profile document
    exact ⟨R',hmoves.mirrors⟩

theorem Filled.holds_tags (hw : w.Filled n) (e : Entity) :
    w.store.Holds ((w.systemAt n).tagsOf e) := by
  obtain ⟨R,h⟩ := hw.mirrors
  intro i hi
  have hmatch := h.systemAt.tagsOf e
  rw [hi] at hmatch
  cases hmatch with
  | plain hplain => exact absurd rfl (hplain i)
  | ref hij =>
    obtain ⟨c,_,hc,-⟩ := h.store.cells hij
    rw [hc]
    rfl

def attributeAt (w : Workspace) (n : Nat) (e : Entity) (tag name : String) : Except Failure Value :=
  tagAttribute w.store ((w.systemAt n).tagsOf e) (.text tag) (.text name)

theorem run_addAttribute (n : Nat) (e : Entity) (tag name v : Value) (w : Workspace) :
    (Revision.addAttribute n e tag name v).act.run w =
      ((addAttribute w.store ((w.systemAt n).tagsOf e) tag name v).1,
        { w with store := (addAttribute w.store ((w.systemAt n).tagsOf e) tag name v).2 }) :=
  Act.run_change (addAttribute · ((w.systemAt n).tagsOf e) tag name v) w

/-- Tags of a symbol behave as a store just if they are a mapping in which each tag has a mapping of
its own. Asking for an attribute fails just if the tags, or what is under the tag, cannot be asked
for the name. Setting one fails just if the tags, or what is under the tag already, are no
mapping. -/
theorem Filled.attributes_stored_iff (hw : w.Filled n) (e : Entity) :
    let tags := (w.systemAt n).tagsOf e
    (∀ tag name, (∃ failure, w.attributeAt n e tag name = .error failure) ↔
      w.store.Refuses tags tag ∨ ∃ x, (w.store.bindings tags).get? tag = some x ∧
        w.store.Refuses x name) ∧
    (∀ tag name v, (∃ failure,
      ((Revision.addAttribute n e (.text tag) (.text name) v).act.run w).1 = .error failure) ↔
      w.store.isMapping tags = false ∨
        ∃ x, (w.store.bindings tags).get? tag = some x ∧ w.store.isMapping x = false) ∧
    ((∀ tag name v, ∃ w', (Revision.addAttribute n e (.text tag) (.text name) v).act.run w =
      (.ok (), w') ∧
        w'.attributeAt n e tag name = .ok v ∧
        ∀ tag' name', (tag', name') ≠ (tag, name) →
          w'.attributeAt n e tag' name' = w.attributeAt n e tag' name') ↔
      w.store.TagMapping tags) := by
  intro tags
  refine ⟨fun tag name => w.store.tagAttribute_error_iff tags tag name,fun tag name v => ?_,?_⟩
  · rw [run_addAttribute]
    exact Store.addAttribute_error_iff (hw.holds_tags e) tag name v
  · rw [← Store.stores_iff]
    constructor
    · intro h tag name v
      obtain ⟨w',hrun,hread,hframe⟩ := h tag name v
      rw [run_addAttribute] at hrun
      obtain ⟨hok,rfl⟩ := Prod.mk.inj hrun
      exact ⟨_,Prod.ext hok rfl,hread,hframe⟩
    · intro h tag name v
      obtain ⟨s',hrun,hread,hframe⟩ := h tag name v
      refine ⟨{ w with store := s' },?_,hread,hframe⟩
      rw [run_addAttribute,hrun]

def flagged : Workspace :=
  ((Act.readSystemText 0 .full "module m 1.0\n@singleton: yes\ninterface I \x7b\x7d").run
    (Act.newSystem.run {}).2).2

/-- A flag cannot be asked for an attribute, nor be given one. -/
theorem Filled.flag_has_no_attributes :
    let e : Entity := .symbol ⟨0,.interface "I"⟩
    flagged.Filled 0 ∧ flagged.store.bindings ((flagged.systemAt 0).tagsOf e) =
      [("singleton", .bool true)] ∧
      ∀ name, (∃ failure, flagged.attributeAt 0 e "singleton" name = .error failure) ∧
        ∀ v, ∃ failure,
          ((Revision.addAttribute 0 e (.text "singleton") (.text name) v).act.run flagged).1 =
            .error failure := by
  intro e
  have hw : flagged.Filled 0 := (Filled.new (w := {}) rfl).text .full _
  have htags : flagged.store.bindings ((flagged.systemAt 0).tagsOf e) =
    [("singleton", .bool true)] := by decide +kernel
  obtain ⟨hask,hadd,-⟩ := hw.attributes_stored_iff e
  generalize flagged = w at hw htags hask hadd ⊢
  have htag : (w.store.bindings ((w.systemAt 0).tagsOf e)).get? "singleton" = some (.bool true) := by
    rw [htags]
    rfl
  refine ⟨hw,htags,fun name => ⟨?_,fun v => ?_⟩⟩
  · exact (hask "singleton" name).mpr (.inr ⟨_,htag,trivial⟩)
  · exact (hadd "singleton" name v).mpr (.inr ⟨_,htag,rfl⟩)

end Workspace

end InterfaceKit
