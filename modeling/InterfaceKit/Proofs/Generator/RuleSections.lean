import InterfaceKit.Proofs.Generator.Requests

/-!
# Sections of a rule

A rule names its documents in two sections, each of which is a mapping from documents to their
templates or a list of such mappings and of texts. Of a mapping only the keys are read, and of a
mapping in a list only the first pair, so a pair that is written there need not be asked for. The
main statement says when all of them are.
-/
namespace InterfaceKit
open Data Generate

/-- The request for a document that is written beside its template. -/
def Request.ofPair (preserve : Bool) (pair : Value × Value) : Request :=
  { target := pair.1, template := pair.2, preserve }

/-- The sections of a rule, each with whether its documents are preserved. -/
def sections : List (String × Bool) := [("documents", false),("preserve", true)]

namespace Data.Store
variable {s : Store} {rule part entry : Value} {name : String} {preserve : Bool}
  {pair : Value × Value}

/-- The pairs that are written in an entry of a list. What is no mapping stands for itself as
both. -/
def written (s : Store) (entry : Value) : List (Value × Value) :=
  match s.mapping? entry with
  | some (_, pairs) => pairs
  | none => [(entry, entry)]

theorem head?_written (h : s.written entry ≠ []) :
    (s.written entry).head? = some (s.pairOf entry) := by
  unfold written at h ⊢
  rw [pairOf]
  rcases hmap : s.mapping? entry with _ | ⟨i,_ | ⟨first,rest⟩⟩
  · rfl
  · rw [hmap] at h
    exact absurd rfl h
  · rfl

theorem written_ne_nil (h : ∀ i, s.mapping? entry ≠ some (i, [])) : s.written entry ≠ [] := by
  unfold written
  rcases hmap : s.mapping? entry with _ | ⟨i,_ | ⟨first,rest⟩⟩
  · exact List.cons_ne_nil _ _
  · exact absurd hmap (h i)
  · exact List.cons_ne_nil _ _

/-- What is preserved in one section is not in the other, so the sections can be told apart among
the requests. -/
theorem ofPair_mem_requestsOf (h : (name, preserve) ∈ sections) :
    Request.ofPair preserve pair ∈ s.requestsOf rule ↔
    pair ∈ (s.entriesIn rule name).map s.pairOf := by
  obtain ⟨target,template⟩ := pair
  simp only [sections,List.mem_cons,Prod.mk.injEq,List.not_mem_nil,or_false] at h
  rcases h with ⟨rfl,rfl⟩ | ⟨rfl,rfl⟩ <;> simp [requestsOf,requestsIn,Request.ofPair,Prod.ext_iff]

variable {i : Nat} {pairs : List (Value × Value)} {xs : List Value}

theorem entriesIn_of_mapping (hpart : s.given rule name = some part)
    (hmap : s.mapping? part = some (i, pairs)) : s.entriesIn rule name = pairs.map (·.1) := by
  obtain ⟨rfl,hcell⟩ := mapping?_eq_some.mp hmap
  simp only [entriesIn,hpart,elements,hcell]
  rfl

theorem entriesIn_of_list (hpart : s.given rule name = some (.ref i))
    (hcell : s.get? i = some (.list xs)) : s.entriesIn rule name = xs := by
  simp only [entriesIn,hpart,elements,hcell]
  rfl

/-- Each key of a mapping is asked for with itself as its template. -/
theorem mapping_requested_iff (h : (name, preserve) ∈ sections)
    (hpart : s.given rule name = some part) (hmap : s.mapping? part = some (i, pairs))
    (hkeys : ∀ pair ∈ pairs, s.mapping? pair.1 = none) :
    (∀ pair ∈ pairs, Request.ofPair preserve pair ∈ s.requestsOf rule) ↔
    ∀ pair ∈ pairs, pair.2 = pair.1 := by
  have hasked : (s.entriesIn rule name).map s.pairOf = pairs.map fun pair => (pair.1, pair.1) := by
    rw [entriesIn_of_mapping hpart hmap,List.map_map]
    refine List.map_congr_left fun pair hpair => ?_
    simp only [Function.comp,pairOf,hkeys pair hpair]
  simp only [ofPair_mem_requestsOf h,hasked]
  refine forall₂_congr fun pair hpair => ?_
  constructor
  · intro hmem
    obtain ⟨other,-,rfl⟩ := List.mem_map.mp hmem
    rfl
  · intro hself
    exact List.mem_map.mpr ⟨pair,hpair,Prod.ext rfl hself.symm⟩

/-- Of each entry of a list the first pair is asked for. -/
theorem list_requested_iff (h : (name, preserve) ∈ sections)
    (hpart : s.given rule name = some (.ref i)) (hcell : s.get? i = some (.list xs))
    (hfilled : ∀ x ∈ xs, s.written x ≠ []) :
    (∀ pair ∈ xs.flatMap s.written, Request.ofPair preserve pair ∈ s.requestsOf rule) ↔
      ∀ x ∈ xs, ∀ pair ∈ (s.written x).tail, ∃ y ∈ xs, (s.written y).head? = some pair := by
  have hasked : ∀ pair, Request.ofPair preserve pair ∈ s.requestsOf rule ↔
      ∃ y ∈ xs, (s.written y).head? = some pair := by
    intro pair
    rw [ofPair_mem_requestsOf h,entriesIn_of_list hpart hcell,List.mem_map]
    refine exists_congr fun y => and_congr_right fun hy => ?_
    rw [head?_written (hfilled y hy),Option.some.injEq]
  simp only [List.forall_mem_flatMap,hasked]
  refine forall₂_congr fun x hx => ?_
  obtain ⟨first,rest,hwritten⟩ := List.exists_cons_of_ne_nil (hfilled x hx)
  rw [hwritten,List.forall_mem_cons,List.tail_cons]
  exact and_iff_right ⟨x,hx,by rw [hwritten,List.head?_cons]⟩

end Data.Store

section
variable {o : Opening} {s : Watch} {rule : Value}

/-- A rule that is followed to its end asks for all that is written in a mapping just when the
documents there are their own templates, and for all that is written in a list just when each
further pair of a mapping is the first one of some entry. On the way it has asked for the first ones
of the requests; with an empty mapping in a list it does not come to its end. -/
theorem sections_requested_iff (v : Visit) (hs : s.run.Follows o) (hrule : o.Reaches rule)
    (hfollowed : o.store.isFollowed o.features rule = true) :
    let walk := (followRule Watched.follower rule v).run s
    (followRule Follower.plain rule v).run s.run = (walk.1, walk.2.run) ∧
      ∃ asked, asked <+: o.store.requestsOf rule ∧
        ordersIn walk.2.events = ordersIn s.events ++ asked.map (v, ·) ∧
        (walk.1 = .ok () → asked = o.store.requestsOf rule ∧
          ∀ name preserve part, (name, preserve) ∈ sections → o.store.given rule name = some part →
          (∀ i pairs, o.store.mapping? part = some (i, pairs) →
            (∀ pair ∈ pairs, o.store.mapping? pair.1 = none) →
            ((∀ pair ∈ pairs, Request.ofPair preserve pair ∈ asked) ↔
              ∀ pair ∈ pairs, pair.2 = pair.1)) ∧
          ∀ i xs, part = .ref i → o.store.get? i = some (.list xs) →
            (∀ x ∈ xs, o.store.written x ≠ []) ∧
              ((∀ pair ∈ xs.flatMap o.store.written, Request.ofPair preserve pair ∈ asked) ↔
                ∀ x ∈ xs, ∀ pair ∈ (o.store.written x).tail,
                  ∃ y ∈ xs, (o.store.written y).head? = some pair)) := by
  intro walk
  obtain ⟨done,hfront,hissues,hok⟩ := Watched.rule_issues v hrule s hs
  rw [if_pos hfollowed] at hfront hok
  have hdone : done = ((o.store.requestsOf rule).take done.length).map (v, ·) := by
    rw [List.map_take]
    exact List.prefix_iff_eq_take.mp hfront
  refine ⟨Watched.followRule_erases rule v s,_,List.take_prefix done.length _,hdone ▸ hissues,
    fun hend => ?_⟩
  obtain ⟨hfilled,hall,-⟩ := hok () hend
  have hlength : done.length = (o.store.requestsOf rule).length := by rw [hall,List.length_map]
  rw [hlength,List.take_length]
  refine ⟨rfl,fun name preserve part hname hpart => ?_⟩
  have hentries := hfilled hfollowed name (List.mem_map_of_mem (f := Prod.fst) hname)
  refine ⟨fun i pairs hmap hkeys => Store.mapping_requested_iff hname hpart hmap hkeys,?_⟩
  rintro i xs rfl hcell
  rw [Store.entriesIn_of_list hpart hcell] at hentries
  have hne : ∀ x ∈ xs, o.store.written x ≠ [] := fun x hx => Store.written_ne_nil (hentries x hx)
  exact ⟨hne,Store.list_requested_iff hname hpart hcell hne⟩

end

/-- A rule whose sections are a mapping, and a list with a mapping of two pairs. -/
def pairedRun : Run :=
  { sampleRun with
    workspace.files.files := [(["rules"],
      "t: \x7binterface: \x7bdocuments: \x7ba: b\x7d, preserve: [c, \x7bd: e, f: g\x7d]\x7d\x7d".toUTF8.toList)] }

/-- The document `a` is not asked for with the template `b`, nor `f` with `g`. -/
theorem pairs_lost :
    ∃ r₀ o, (openRules (.ofString "rules") 0).run pairedRun = (.ok (.ref 2), r₀) ∧ r₀.Follows o ∧
      o.Reaches (.ref 4) ∧ o.store.isFollowed o.features (.ref 4) = true ∧
      ∃ asked : List Request,
        ordersIn ((followRule Watched.follower (.ref 4) sampleInterface).run { run := r₀ }).2.events
          =
          asked.map (sampleInterface, ·) ∧
        (¬ ∀ pair ∈ [(.text "a", .text "b")], Request.ofPair false pair ∈ asked) ∧
        ¬ ∀ pair ∈ [(.text "c", .text "c"),(.text "d", .text "e"),(.text "f", .text "g")],
          Request.ofPair true pair ∈ asked := by
  have hread : succeedsWith (fun document r₀ => decide (
        document = .ref 2 ∧ r₀.generator.features = some [] ∧
        (.text "t", .ref 3) ∈ r₀.workspace.store.targets (.ref 2) ∧
        r₀.workspace.store.given (.ref 3) "interface" = some (.ref 4) ∧
        r₀.workspace.store.isFollowed [] (.ref 4) = true ∧
        r₀.workspace.store.given (.ref 4) "documents" = some (.ref 5) ∧
        r₀.workspace.store.mapping? (.ref 5) = some (5, [(.text "a", .text "b")]) ∧
        r₀.workspace.store.given (.ref 4) "preserve" = some (.ref 6) ∧
        r₀.workspace.store.get? 6 = some (.list [.text "c",.ref 7]) ∧
        r₀.workspace.store.written (.ref 7) = [(.text "d", .text "e"),(.text "f", .text "g")] ∧
        ((followRule Watched.follower (.ref 4) sampleInterface).run { run := r₀ }).1 = .ok ()))
      ((openRules (.ofString "rules") 0).run pairedRun) = true := by
    decide +kernel
  obtain ⟨_,r₀,hopen,hread⟩ := succeedsWith_iff.mp hread
  obtain ⟨rfl,hfeatures,htarget,hrule,hfollowed,hdocuments,hpairs,hpreserve,hlist,hwritten,hend⟩ :=
    of_decide_eq_true hread
  have hready : pairedRun.Ready :=
    ⟨⟨⟨1,[],rfl,rfl,List.nodup_nil⟩,0,.map [],rfl,rfl⟩,fun _ hf => nomatch hf⟩
  obtain ⟨o,hstore,hfollows,hreach,-⟩ := hready.openRules hopen
  rw [← hstore] at htarget hrule hfollowed hdocuments hpairs hpreserve hlist hwritten
  have hnone : [] = o.features := Option.some.inj (hfeatures.symm.trans hfollows.features)
  rw [hnone] at hfollowed
  replace hreach : o.Reaches (.ref 4) := (hreach.target _ htarget).given hrule
  obtain ⟨-,asked,-,horders,hasked⟩ :=
    sections_requested_iff (s := { run := r₀ }) sampleInterface hfollows hreach hfollowed
  have hsection := (hasked hend).2
  have hmapping :=
    (hsection "documents" false _ (by decide) hdocuments).1 _ _ hpairs (by simp [Store.mapping?])
  have hentries := ((hsection "preserve" true _ (by decide) hpreserve).2 _ _ rfl hlist).2
  have htext : o.store.written (.text "c") = [(.text "c", .text "c")] := rfl
  simp only [List.flatMap_cons,List.flatMap_nil,htext,hwritten] at hentries
  refine ⟨r₀,o,hopen,hfollows,hreach,hfollowed,asked,horders,fun h => ?_,fun h => ?_⟩
  · exact absurd (hmapping.mp h) (by decide)
  · obtain ⟨y,hy,hhead⟩ :=
      hentries.mp h (.ref 7) (by simp) (.text "f", .text "g") (by simp [hwritten])
    rcases List.mem_pair.mp hy with rfl | rfl
    · rw [htext] at hhead
      exact absurd hhead (by decide)
    · rw [hwritten] at hhead
      exact absurd hhead (by decide)

end InterfaceKit
