import InterfaceKit.Proofs.Data.Reach
import InterfaceKit.Proofs.Documents.Loading

/-!
# Annotations that fail on the way

The entries of an annotation document are merged one after the other. When one of them cannot be
merged, those before it stay merged and those after it are left out. The entry itself has no effect
unless it names a symbol whose tags are a mapping and brings something that has elements; then those
of its elements that could be merged stay.
-/
namespace InterfaceKit
open Data Model Files

/-! ## Entries -/

/-- The entry under a key is merged into the tags of the symbol that the key names. -/
def Applies (x : System) (data : Value) (s : Store) (key : Value) (t : Store) : Prop :=
  ∃ name e v, key = .text name ∧ x.lookup name = .ok e ∧ s.getItem data key = .ok v ∧
    s.merge (x.tagsOf e) v = (.ok (), t)

/-- The entries under the keys are merged one after the other; the document keeps its size
meanwhile. -/
inductive AppliesAll (x : System) (data : Value) (size : Nat) : Store → List Value → Store → Prop
  | nil (s : Store) : AppliesAll x data size s [] s
  | cons {s t u : Store} {key : Value} {keys : List Value} : Applies x data s key t →
      t.requireSize data size = .ok () → AppliesAll x data size t keys u →
        AppliesAll x data size s (key :: keys) u

/-- The entry under a key cannot be merged, for the reason `e`: it is gone, its key is no text, it
names no symbol, or what it brings does not fit; or it can, but the document has another size
then. -/
inductive Stops (x : System) (data : Value) (size : Nat) (s : Store) (key : Value) :
    Failure → Store → Prop
  | missing {e : Failure} : s.getItem data key = .error e → Stops x data size s key e s
  | unnamed {e : Failure} : (∀ name, key ≠ .text name) → Stops x data size s key e s
  | unknown {name : String} {e : Failure} :
      key = .text name → x.lookup name = .error e → Stops x data size s key e s
  | unfit {name : String} {symbol : Entity} {v : Value} {e : Failure} {t : Store} :
      key = .text name →
        x.lookup name = .ok symbol → s.getItem data key = .ok v →
        s.merge (x.tagsOf symbol) v = (.error e, t) →
      Stops x data size s key e t
  | resized {e : Failure} {t : Store} : Applies x data s key t → t.requireSize data size = .error e →
      Stops x data size s key e t

/-! ## What entries can change -/

/-- The cell belongs to the tags of a symbol that one of the keys names. -/
def Named (x : System) (keys : List Value) (s : Store) (i : Nat) : Prop :=
  ∃ name e, .text name ∈ keys ∧ x.lookup name = .ok e ∧ s.Reaches (x.tagsOf e) i

section
variable {x : System} {data key : Value} {size start : Nat} {U : Nat → Prop} {s t : Store}
  {keys : List Value}

theorem Applies.within (h : Applies x data s key t) (hs : s.Reserved U start)
    (hdata : data.Between start s.cells.size)
    (hkey : ∀ name e, key = .text name → x.lookup name = .ok e → ∀ i, x.tagsOf e = .ref i → U i) :
    Store.Within U start s t := by
  obtain ⟨name,e,v,hname,he,hv,hmerge⟩ := h
  have hwithin :=
    Store.mergeUpTo_confined U start Store.mergeLimit s (x.tagsOf e) v hs (hkey name e hname he)
    (hs.between hdata (Store.getItem_cases hv))
  rwa [show Store.mergeUpTo Store.mergeLimit s (x.tagsOf e) v = (.ok (), t) from hmerge] at hwithin

theorem AppliesAll.within (h : AppliesAll x data size s keys t) (hs : s.Reserved U start)
    (hdata : data.Between start s.cells.size)
    (hkeys : ∀ name e, .text name ∈ keys → x.lookup name = .ok e → ∀ i, x.tagsOf e = .ref i → U i) :
    Store.Within U start s t := by
  induction h with
  | nil s => exact .refl hs
  | cons happlies _ _ ih =>
    have hstep := happlies.within hs hdata fun name e hname =>
      hkeys name e (hname ▸ List.mem_cons_self ..)
    exact hstep.trans (ih hstep.reserved (hstep.size ▸ hdata)
      fun name e hmem => hkeys name e (List.mem_cons_of_mem _ hmem))

theorem Stops.within {e : Failure} (h : Stops x data size s key e t) (hs : s.Reserved U start)
    (hdata : data.Between start s.cells.size)
    (hkey : ∀ name e, key = .text name → x.lookup name = .ok e → ∀ i, x.tagsOf e = .ref i → U i) :
    Store.Within U start s t := by
  cases h with
  | missing | unnamed | unknown => exact .refl hs
  | resized happlies _ => exact happlies.within hs hdata hkey
  | unfit hname hsymbol hv hmerge =>
    have hwithin :=
      Store.mergeUpTo_confined U start Store.mergeLimit s _ _ hs (hkey _ _ hname hsymbol)
      (hs.between hdata (Store.getItem_cases hv))
    rwa [show Store.mergeUpTo Store.mergeLimit s _ _ = (.error e, t) from hmerge] at hwithin

/-- Nothing is merged into what is no mapping, nor from what has no elements. -/
theorem mergeUpTo_unchanged {a b : Value}
    (h : s.isMapping a = true → (s.elements b).toOption = none) (limit : Nat) :
    (Store.mergeUpTo limit s a b).2 = s := by
  cases limit with
  | zero => rfl
  | succ limit =>
    rw [Store.mergeUpTo]
    cases hkeys : s.elements b with
    | error e => rfl
    | ok keys =>
      rw [hkeys] at h
      have hother : s.mapping? a = none := by
        by_contra ha
        cases h (Option.isSome_iff_ne_none.mpr ha)
      cases keys with
      | nil => rfl
      | cons k keys => simp only [Store.mergeKeys,Store.mergeKey,Store.lookUp,hother]

/-- An entry that stops has an effect only if it names a symbol whose tags are a mapping and brings
something that has elements. -/
theorem Stops.unchanged {e : Failure} (h : Stops x data size s key e t)
    (hnone : ∀ name symbol v, key = .text name → x.lookup name = .ok symbol →
      s.getItem data key = .ok v →
      s.isMapping (x.tagsOf symbol) = true → (s.elements v).toOption = none) : t = s := by
  cases h with
  | missing _ => rfl
  | unnamed _ => rfl
  | unknown _ _ => rfl
  | unfit hname hsymbol hv hmerge =>
    have hsame := mergeUpTo_unchanged (hnone _ _ _ hname hsymbol hv) Store.mergeLimit
    rwa [show Store.mergeUpTo Store.mergeLimit s _ _ = (.error e, t) from hmerge] at hsame
  | resized happlies _ =>
    obtain ⟨name,symbol,v,hname,hsymbol,hv,hmerge⟩ := happlies
    have hsame := mergeUpTo_unchanged (hnone _ _ _ hname hsymbol hv) Store.mergeLimit
    rwa [show Store.mergeUpTo Store.mergeLimit s _ _ = (.ok (), t) from hmerge] at hsame

/-- The new cells of a document, and those of the tags of the symbols that are named, may be
changed. -/
theorem reserved_named {base s : Store} (hold : ∀ i c, base.get? i = some c → s.get? i = some c)
    (hclosed : s.Closed base.cells.size) (x : System) (keys : List Value) :
    s.Reserved (fun i => base.cells.size ≤ i ∨ Named x keys base i) base.cells.size where
  closed := hclosed
  fresh _ h := .inl h
  inner i es hi hes e he j hj := by
    by_cases hlt : base.cells.size ≤ i
    · exact .inl (hclosed i _ hlt hes _ (Store.mem_values_of_mem he).2 j hj).1
    · obtain ⟨name,symbol,hname,hsymbol,hreach⟩ := hi.resolve_left hlt
      have hcell : base.get? i = some (.map es) := by
        obtain ⟨c,hc⟩ : ∃ c, base.get? i = some c :=
          ⟨_,Array.getElem?_eq_getElem (Nat.lt_of_not_le hlt)⟩
        rw [hc,← hes,hold i c hc]
      refine .inr ⟨name,symbol,hname,hsymbol,hreach.step hcell (k := e.1) ?_⟩
      rw [← hj]
      exact he

end

namespace Act
variable {n : Nat} {data key : Value} {w : Workspace}

/-- A key names a symbol, or the reason why it does not. -/
theorem run_annotated (n : Nat) (key : Value) (w : Workspace) :
    (∃ name e, key = .text name ∧ (w.systemAt n).lookup name = .ok e ∧
      (annotated n key).run w = (.ok e, w)) ∨
      ∃ e, (annotated n key).run w = (.error e, w) ∧
        ((∀ name, key ≠ .text name) ∨ ∃ name, key = .text name ∧
          (w.systemAt n).lookup name = .error e) := by
  cases key with
  | text name =>
    have hrun : (annotated n (.text name)).run w = (lift ((w.systemAt n).lookup name)).run w := rfl
    rw [hrun,run_lift]
    cases hname : (w.systemAt n).lookup name with
    | ok e => exact .inl ⟨name,e,rfl,hname,rfl⟩
    | error e => exact .inr ⟨e,rfl,.inr ⟨name,rfl,hname⟩⟩
  | _ => exact .inr ⟨_,rfl,.inl nofun⟩

/-- All that merging one entry can do. -/
theorem run_annotateKey (n : Nat) (data key : Value) (size : Nat) (w : Workspace) :
    (∃ t, (annotateKey n data key).run w = (.ok (), { w with store := t }) ∧
        Applies (w.systemAt n) data w.store key t) ∨
      ∃ e t, (annotateKey n data key).run w = (.error e, { w with store := t }) ∧
        Stops (w.systemAt n) data size w.store key e t := by
  unfold annotateKey
  rw [run_bind,run_ask]
  cases hv : w.store.getItem data key with
  | error e => exact .inr ⟨e,w.store,rfl,.missing hv⟩
  | ok v =>
    dsimp only
    rw [run_bind]
    rcases run_annotated n key w with ⟨name,e,hkey,hname,hrun⟩ | ⟨e,hrun,hreason⟩
    · rw [hrun]
      dsimp only
      rw [run_bind_ok (show (system n).run w = (.ok (w.systemAt n), w) from rfl),run_change]
      cases hmerge : w.store.merge ((w.systemAt n).tagsOf e) v with
      | mk r t =>
        cases r with
        | ok _ => exact .inl ⟨t,rfl,name,e,v,hkey,hname,hv,hmerge⟩
        | error f => exact .inr ⟨f,t,rfl,.unfit hkey hname hv hmerge⟩
    · rw [hrun]
      refine .inr ⟨e,w.store,rfl,?_⟩
      rcases hreason with hother | ⟨name,hkey,hname⟩
      · exact .unnamed hother
      · exact .unknown hkey hname

theorem run_annotateEach (n : Nat) (data : Value) (es : List (Value × Value)) (size : Nat)
    (w : Workspace) :
    let run := (forIn es PUnit.unit fun e _ => do
      annotateKey n data e.1
      ask (·.requireSize data size)
      pure (ForInStep.yield PUnit.unit) : Act PUnit).run w
    (∃ t, run = (.ok PUnit.unit, { w with store := t }) ∧
        AppliesAll (w.systemAt n) data size w.store (es.map (·.1)) t) ∨
      ∃ before key after s e t, es.map (·.1) = before ++ key :: after ∧
        AppliesAll (w.systemAt n) data size w.store before s ∧
          Stops (w.systemAt n) data size s key e t ∧
        run = (.error e, { w with store := t }) := by
  induction es generalizing w with
  | nil => exact .inl ⟨w.store,rfl,.nil _⟩
  | cons e es ih =>
    dsimp only at ih ⊢
    rw [List.forIn_cons,run_bind,run_bind]
    rcases run_annotateKey n data e.1 size w with ⟨t,hrun,happlies⟩ | ⟨f,t,hrun,hstops⟩
    · rw [hrun]
      dsimp only
      rw [run_bind,run_ask]
      cases hsize : t.requireSize data size with
      | error f =>
        dsimp only
        exact .inr ⟨[],e.1,es.map (·.1),w.store,f,t,rfl,.nil _,.resized happlies hsize,rfl⟩
      | ok _ =>
        dsimp only
        rcases ih { w with store := t } with
          ⟨u,hrest,hall⟩ | ⟨before,key,after,s,f,u,hkeys,hall,hstops,hrest⟩
        · exact .inl ⟨u,hrest,.cons happlies hsize hall⟩
        · exact .inr ⟨e.1 :: before,key,after,s,f,u,by rw [List.map_cons,hkeys]; rfl,
            .cons happlies hsize hall,hstops,hrest⟩
    · rw [hrun]
      exact .inr ⟨[],e.1,es.map (·.1),w.store,f,t,rfl,.nil _,hstops,rfl⟩

theorem run_annotateAll {i : Nat} {es : List (Value × Value)}
    (hdata : w.store.mapping? data = some (i, es)) :
    (∃ t, (annotateAll n data).run w = (.ok (), { w with store := t }) ∧
        AppliesAll (w.systemAt n) data es.length w.store (es.map (·.1)) t) ∨
      ∃ before key after s e t, es.map (·.1) = before ++ key :: after ∧
        AppliesAll (w.systemAt n) data es.length w.store before s ∧
          Stops (w.systemAt n) data es.length s key e t ∧
        (annotateAll n data).run w = (.error e, { w with store := t }) := by
  have hrun : (annotateAll n data).run w = (do
      forIn es PUnit.unit fun e _ => do
        annotateKey n data e.1
        ask (·.requireSize data es.length)
        pure (ForInStep.yield PUnit.unit)
      pure () : Act Unit).run w := by
    unfold annotateAll
    rw [run_bind_ok (run_store w),hdata]
  rw [hrun,run_bind]
  rcases run_annotateEach n data es es.length w with
    ⟨t,hloop,hall⟩ | ⟨before,key,after,s,e,t,hkeys,hall,hstops,hloop⟩
  · exact .inl ⟨t,by rw [hloop]; rfl,hall⟩
  · exact .inr ⟨before,key,after,s,e,t,hkeys,hall,hstops,by rw [hloop]⟩

def mergeNotice (document : String) : Log :=
  Log.line .out ("merge: " ++ (Path.ofString document).name)

def mergeReport (document : String) (e : Failure) : Log :=
  Log.line .err ("Error parsing annotation " ++ document ++ ": " ++ e.message)

theorem run_mergeAnnotations {w₁ : Workspace} {document : String}
    (hthere : (fileExists (.ofString document)).run w = (.ok true, w))
    (hload : (loadYaml (.ofString document) false).run w = (.ok data, w₁))
    (htrue : w₁.store.isTrue data = true) :
    (mergeAnnotations n document).run w =
      match (annotateAll n data).run { w₁ with log := w₁.log ++ mergeNotice document } with
      | (.ok (), w₂) => (.ok (), w₂)
      | (.error e, w₂) =>
        (if w₂.strictDocuments then .error (.exit (-1)) else .ok (),
          { w₂ with log := w₂.log ++ mergeReport document e }) := by
  unfold mergeAnnotations
  dsimp only
  rw [run_bind_ok hthere,if_neg (by simp),run_bind_ok hload,run_bind_ok (run_store _)]
  rw [if_neg (by simp [htrue]),run_bind_ok (run_print ..),run_bind,run_attempt]
  dsimp only [mergeNotice]
  rcases (annotateAll n data).run
    { w₁ with log := w₁.log ++ Log.line .out ("merge: " ++ (Path.ofString document).name) } with
      ⟨r,w₂⟩
  cases r with
  | ok _ => rfl
  | error e =>
    dsimp only
    rw [run_bind_ok (run_print ..),run_get_bind]
    split <;> rfl

/-- The entries of an annotation document are merged one after the other, to the end or up to one
that cannot be merged. In the second case this is reported; the entries before it have been merged
as if the document ended there, those after it have not been merged at all, and the entry itself has
had no effect unless it names a symbol whose tags are a mapping and brings something that has
elements. In both cases the symbols stay what they were, and of their tags only those change that
belong to symbols which the entries name, the one that cannot be merged included. -/
theorem mergeAnnotations_stops {w w₁ : Workspace} {n i : Nat} {document : String} {data : Value}
    {es : List (Value × Value)} (hthere : (fileExists (.ofString document)).run w = (.ok true, w))
    (hload : (loadYaml (.ofString document) false).run w = (.ok data, w₁))
    (hdata : w₁.store.mapping? data = some (i, es)) (hes : es ≠ []) :
    let x := w.systemAt n
    let run := (mergeAnnotations n document).run w
    run.2.systems = w.systems ∧
      ((∃ t, AppliesAll x data es.length w₁.store (es.map (·.1)) t ∧
          run = (.ok (), { w₁ with store := t, log := w₁.log ++ mergeNotice document }) ∧
          ∀ c < w.store.cells.size, ¬ Named x (es.map (·.1)) w.store c → t.get? c = w.store.get? c) ∨
        ∃ before key after s e t, es.map (·.1) = before ++ key :: after ∧
          AppliesAll x data es.length w₁.store before s ∧ Stops x data es.length s key e t ∧
          run = (if w₁.strictDocuments then .error (.exit (-1)) else .ok (),
            { w₁ with
              store := t, log := w₁.log ++ mergeNotice document ++ mergeReport document e }) ∧
          ((∀ name symbol v, key = .text name → x.lookup name = .ok symbol →
            s.getItem data key = .ok v →
            s.isMapping (x.tagsOf symbol) = true → (s.elements v).toOption = none) → t = s) ∧
          ∀ c < w.store.cells.size, ¬ Named x (before ++ [key]) w.store c →
            t.get? c = w.store.get? c) := by
  intro x run
  have hadds := loadYaml_adds (.ofString document) false w
  rw [hload] at hadds
  obtain ⟨hbetween,hclosed⟩ := loadYaml_fresh hload
  have hsystem : w₁.systemAt n = x := by rw [Workspace.systemAt,hadds.systems]; rfl
  have htrue : w₁.store.isTrue data = true := by
    obtain ⟨rfl,hcell⟩ := Store.mapping?_eq_some.mp hdata
    simp [Store.isTrue,hcell,hes]
  have hrun : run = _ := run_mergeAnnotations hthere hload htrue
  have houtside : ∀ {keys t}, Store.Within (fun c => w.store.cells.size ≤ c ∨ Named x keys w.store c)
      w.store.cells.size w₁.store t → ∀ c < w.store.cells.size, ¬ Named x keys w.store c →
        t.get? c = w.store.get? c := by
    intro keys t hwithin c hc hother
    obtain ⟨d,hd⟩ : ∃ d, w.store.get? c = some d := ⟨_,Array.getElem?_eq_getElem hc⟩
    rw [hwithin.outside c fun h => hother (h.resolve_left (by omega)),hd,hadds.cells c d hd]
  have hreserved := reserved_named hadds.cells hclosed x
  have hnamed : ∀ {keys : List Value} name e, .text name ∈ keys → x.lookup name = .ok e →
    ∀ j, x.tagsOf e = .ref j →
      w.store.cells.size ≤ j ∨ Named x keys w.store j :=
    fun name e hmem he j hj => .inr ⟨name,e,hmem,he,.self hj⟩
  refine ⟨mergeAnnotations_keepsSystems n document w,?_⟩
  rcases run_annotateAll (n := n) (w := { w₁ with log := w₁.log ++ mergeNotice document }) hdata with
    ⟨t,hall,happlies⟩ | ⟨before,key,after,s,e,t,hkeys,happlies,hstops,hall⟩
  · rw [hall] at hrun
    refine .inl ⟨t,hsystem ▸ happlies,hrun,houtside ?_⟩
    exact (hsystem ▸ happlies : AppliesAll x _ _ _ _ _).within (hreserved _) hbetween hnamed
  · rw [hall] at hrun
    have happlies : AppliesAll x data es.length w₁.store before s := hsystem ▸ happlies
    have hstops : Stops x data es.length s key e t := hsystem ▸ hstops
    refine .inr ⟨before,key,after,s,e,t,hkeys,happlies,hstops,hrun,hstops.unchanged,houtside ?_⟩
    have hbefore := happlies.within (hreserved (before ++ [key])) hbetween
      fun name e hmem => hnamed name e (List.mem_append_left _ hmem)
    exact hbefore.trans (hstops.within hbefore.reserved (hbefore.size ▸ hbetween)
      fun name e hname => hnamed name e (by simp [hname]))

/-- A system with one interface, and annotations of which the second names nothing. -/
def halfAnnotated : Workspace where
  store := ⟨#[.map [],.map [],.map []]⟩
  systems :=
    [{ tags := .ref 0
       archive :=
         [{ common := { name := "m", tags := .ref 1 }
            interfaces := [("I", { common := { name := "I", tags := .ref 2 } })] }]
       directory := [("m", 0)] }]
  files := { files := [(["x.yaml"], "m.I: \x7bk: 1\x7d\nm.Nope: \x7bk: 1\x7d".toUTF8.toList)] }

theorem halfAnnotated_loads :
    (fileExists (.ofString "x.yaml")).run halfAnnotated = (.ok true, halfAnnotated) ∧
      ∃ w₁ w₂, (loadYaml (.ofString "x.yaml") false).run halfAnnotated = (.ok (.ref 3), w₁) ∧
        w₁.log = halfAnnotated.log ∧
        w₁.store.mapping? (.ref 3) = some (3, [(.text "m.I", .ref 4),(.text "m.Nope", .ref 5)]) ∧
        (annotateAll 0 (.ref 3)).run { w₁ with log := w₁.log ++ mergeNotice "x.yaml" } =
          (.error (.unknownName "Nope"), w₂) ∧
            w₂.store.follow (.ref 2) [.text "k"] = some (.int 1) := by
  have hthere : ((halfAnnotated.files.locate halfAnnotated.folder (.ofString "x.yaml")).map
    halfAnnotated.files.exists?).getD false = true := by decide +kernel
  refine ⟨by rw [← hthere]; rfl,?_⟩
  let r := (loadYaml (.ofString "x.yaml") false).run halfAnnotated
  let r' := (annotateAll 0 (.ref 3)).run { r.2 with log := r.2.log ++ mergeNotice "x.yaml" }
  have hruns : (r.1 = .ok (.ref 3) ∧
        r.2.store.mapping? (.ref 3) = some (3, [(.text "m.I", .ref 4),(.text "m.Nope", .ref 5)])) ∧
      r.2.log = halfAnnotated.log ∧
      r'.1 = .error (.unknownName "Nope") ∧
        r'.2.store.follow (.ref 2) [.text "k"] = some (.int 1) := by
    decide +kernel
  obtain ⟨hdata,hlog,hstops⟩ := hruns
  have hr : (loadYaml (.ofString "x.yaml") false).run halfAnnotated = r := rfl
  have hr' : (annotateAll 0 (.ref 3)).run { r.2 with log := r.2.log ++ mergeNotice "x.yaml" } =
    r' := rfl
  clear_value r'
  clear_value r
  obtain ⟨_,w₁⟩ := r
  obtain ⟨_,w₂⟩ := r'
  obtain ⟨rfl,hmapping⟩ := hdata
  obtain ⟨rfl,htag⟩ := hstops
  exact ⟨w₁,w₂,hr,hlog,hmapping,hr',htag⟩

/-- The tags of an interface have changed though the document was reported as faulty. -/
theorem halfAnnotated_changed :
    let w := halfAnnotated
    let w' := ((mergeAnnotations 0 "x.yaml").run w).2
    let tags := (w.systemAt 0).tagsOf (.symbol ⟨0,.interface "I"⟩)
    w'.log = w.log ++ mergeNotice "x.yaml" ++ mergeReport "x.yaml" (.unknownName "Nope") ∧
      w.store.follow tags [.text "k"] = none ∧ w'.store.follow tags [.text "k"] = some (.int 1) := by
  intro w w' tags
  obtain ⟨hthere,w₁,w₂,hload,hlog,hmapping,hrun,htag⟩ := halfAnnotated_loads
  have hall := run_mergeAnnotations (n := 0) hthere hload
    (by simp [Store.isTrue,(Store.mapping?_eq_some.mp hmapping).2])
  have hkept : w₂.log = w₁.log ++ mergeNotice "x.yaml" := by
    rcases run_annotateAll (n := 0) (w := { w₁ with log := w₁.log ++ mergeNotice "x.yaml" })
      hmapping with
      ⟨t,h,-⟩ | ⟨_,_,_,_,_,t,-,-,-,h⟩
    · cases hrun.symm.trans h
    · cases hrun.symm.trans h
      rfl
  rw [hrun] at hall
  have hafter : w' = { w₂ with log := w₂.log ++ mergeReport "x.yaml" (.unknownName "Nope") } :=
    congrArg Prod.snd hall
  rw [hafter]
  exact ⟨by rw [hkept,hlog],by decide,htag⟩

theorem halfAnnotated_stops :
    ∃ w₁ es, (loadYaml (.ofString "x.yaml") false).run halfAnnotated = (.ok (.ref 3), w₁) ∧
      w₁.store.mapping? (.ref 3) = some (3, es) ∧
      ∃ before key after s e t, es.map (·.1) = before ++ key :: after ∧
        AppliesAll (halfAnnotated.systemAt 0) (.ref 3) es.length w₁.store before s ∧
        Stops (halfAnnotated.systemAt 0) (.ref 3) es.length s key e t ∧
        ((mergeAnnotations 0 "x.yaml").run halfAnnotated).2.store = t := by
  obtain ⟨hthere,w₁,w₂,hload,-,hmapping,-⟩ := halfAnnotated_loads
  refine ⟨w₁,_,hload,hmapping,?_⟩
  obtain ⟨-,⟨t,happlies,-⟩ | ⟨before,key,after,s,e,t,hkeys,happlies,hstops,hall,-⟩⟩ :=
    mergeAnnotations_stops (n := 0) hthere hload hmapping (by simp)
  · have hunknown : (halfAnnotated.systemAt 0).lookup "m.Nope" = .error (.unknownName "Nope") := by
      decide +kernel
    cases happlies with
    | cons _ _ hrest =>
        cases hrest with
        | cons hsecond _ _ =>
            obtain ⟨_,_,_,hname,he,-⟩ := hsecond
            cases hname
            cases hunknown.symm.trans he
  · exact ⟨before,key,after,s,e,t,hkeys,happlies,hstops,by rw [hall]⟩

end Act

end InterfaceKit
