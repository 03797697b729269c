import InterfaceKit.Proofs.Generator.Composing

/-!
# What a run of requests leaves

Requests are produced one after the other, without a failure. What the files hold in the end is said
by the documents that the requests came to, and a second run that comes to the same documents
changes nothing. Two paths that lead to one place name one file.
-/
namespace InterfaceKit
open Data Model Files Generate

/-- Produces documents one after the other, each with the mapping that its request is written out
with. -/
def Generate.produceAll (qs : List (Request × Value)) : Generate Unit :=
  qs.forM fun q => produce q.1 q.2

namespace Run

/-- The documents that requests come to, each with the run that is about to deliver it. -/
def issues : Run → List (Request × Value) → List (Run × Delivery)
  | _, [] => []
  | r, q :: qs =>
    match (compose q.1 q.2).run r, (produce q.1 q.2).run r with
    | (.ok d, r₁), (.ok (), r₂) => (r₁, d) :: r₂.issues qs
    | _, _ => []

def deliveries (r : Run) (qs : List (Request × Value)) : List Delivery := (r.issues qs).map (·.2)

/-- Documents are composed and delivered in turn. -/
inductive Produces : Run → List (Request × Value) → List (Run × Delivery) → Run → Prop
  | done (r : Run) : Produces r [] [] r
  | next {q : Request × Value} {qs : List (Request × Value)} {d : Delivery} {is :
      List (Run × Delivery)}
      {r r₁ r₂ r' : Run} (hcompose : (compose q.1 q.2).run r = (.ok d, r₁))
      (hdeliver : (liftM (Act.deliver d) : Generate Unit).run r₁ = (.ok (), r₂)) (hrest :
        Produces r₂ qs is r') :
      Produces r (q :: qs) ((r₁, d) :: is) r'

theorem produces_of_run {r r' : Run} {qs : List (Request × Value)}
    (h : (produceAll qs).run r = (.ok (), r')) :
    r.Produces qs (r.issues qs) r' := by
  induction qs generalizing r with
  | nil =>
    cases h
    exact .done _
  | cons q qs ih =>
    obtain ⟨_,r₂,hproduce,hrest⟩ := ok_of_bind h
    obtain ⟨d,r₁,hcompose,hdeliver⟩ := produce_ok hproduce
    have hissues : r.issues (q :: qs) = (r₁, d) :: r₂.issues qs := by
      rw [issues,hcompose,hproduce]
    rw [hissues]
    exact .next hcompose hdeliver (ih hrest)

/-- What holds between a run and a later one. -/
structure Later (r r' : Run) : Prop where
  force : r'.generator.force = r.generator.force
  folder : r'.workspace.folder = r.workspace.folder
  folders : ∀ l, r.workspace.files.isFolder l = true → r'.workspace.files.isFolder l = true

theorem Later.trans {r r' r'' : Run} (h : r.Later r') (h' : r'.Later r'') : r.Later r'' :=
  ⟨h'.force.trans h.force,h'.folder.trans h.folder,fun l hl => h'.folders l (h.folders l hl)⟩

theorem Keeps.later {r r' : Run} (h : r.Keeps r') : r.Later r' := ⟨h.force,h.folder,h.files.folders⟩

theorem of_deliver {d : Delivery} {r r' : Run}
    (h : (liftM (Act.deliver d) : Generate Unit).run r = (.ok (), r')) :
    r.workspace.files.isFolder d.place = false ∧ r.Later r' ∧
      r'.workspace.files = (r.workspace.files.deliver d).2 := by
  rw [deliver_run] at h
  split at h
  · cases h
  · rename_i hfolder
    cases h
    refine ⟨by simpa using hfolder,⟨rfl,rfl,?_⟩,rfl⟩
    intro l hl
    exact (Tree.isFolder_deliver _ _ _).trans hl

namespace Produces
variable {r r' : Run} {qs : List (Request × Value)} {is : List (Run × Delivery)}

section
variable (h : r.Produces qs is r')
include h

theorem later : r.Later r' := by
  induction h with
  | done r => exact (Keeps.refl r).later
  | next hcompose hdeliver _ ih =>
    have hcomposed := compose_composed hcompose
    exact (hcomposed.keeps.later.trans (of_deliver hdeliver).2.1).trans ih

theorem delivered : r.workspace.files.Delivered (is.map (·.2)) r'.workspace.files := by
  induction h with
  | done r => exact .done rfl
  | next hcompose hdeliver _ ih =>
    have hcomposed := compose_composed hcompose
    rw [(of_deliver hdeliver).2.2] at ih
    exact .next hcomposed.keeps.files.files ih

theorem asked :
    is.map (fun i => (i.2.preserve, i.2.force)) = qs.map fun q =>
    (q.1.preserve, r.generator.force || q.1.force) := by
  induction h with
  | done r => rfl
  | @next q qs d is r r₁ r₂ r' hcompose hdeliver _ ih =>
    have hcomposed := compose_composed hcompose
    have hforce : r₂.generator.force = r.generator.force :=
      (of_deliver hdeliver).2.1.force.trans hcomposed.keeps.force
    rw [List.map_cons,List.map_cons,ih,hforce,hcomposed.preserve,hcomposed.force]

theorem located :
    ∀ d ∈ is.map (·.2), r'.workspace.files.locate r.workspace.folder d.path = some d.place := by
  induction h with
  | done r => simp
  | @next q qs d is r r₁ r₂ r' hcompose hdeliver hrest ih =>
    have hcomposed := compose_composed hcompose
    have hlater := (of_deliver hdeliver).2.1
    have hfolder : r₂.workspace.folder = r.workspace.folder :=
      hlater.folder.trans hcomposed.keeps.folder
    intro e he
    rcases List.mem_cons.mp he with rfl | he
    · exact Tree.follow_mono (hlater.trans hrest.later).folders hcomposed.place
    · rw [← hfolder]
      exact ih e he

/-- If every place holds what its documents may leave there, no document is written. -/
theorem idle (hidle : ∀ d ∈ is.map (·.2), d.force = false ∧
      ∃ b, r.workspace.files.bytes? d.place = some b ∧ (d.preserve = false → b = d.bytes)) :
    r'.workspace.files.files = r.workspace.files.files ∧
      ∀ i ∈ is, ∃ receipt : Receipt, receipt ≠ .created ∧ (Act.deliver i.2).run i.1.workspace =
        (.ok (), { i.1.workspace with log := i.1.workspace.log ++ receipt.report i.2.path }) := by
  induction h with
  | done r => simp
  | @next q qs d is r r₁ r₂ r' hcompose hdeliver _ ih =>
    have hcomposed := compose_composed hcompose
    have hbytes := Tree.bytes?_congr hcomposed.keeps.files.files
    obtain ⟨hfolder,-,htaken⟩ := of_deliver hdeliver
    obtain ⟨hforce,b,hb,hsame⟩ := hidle d List.mem_cons_self
    obtain ⟨receipt,hreceipt,htree⟩ := Tree.deliver_idle ((congrFun hbytes _).trans hb) hforce hsame
    have hfiles : r₂.workspace.files = r₁.workspace.files := by rw [htaken,htree]
    have hrest := ih (by rw [hfiles,hbytes]; exact fun e he => hidle e (List.mem_cons_of_mem d he))
    constructor
    · rw [hrest.1,hfiles,hcomposed.keeps.files.files]
    · intro i hi
      rcases List.mem_cons.mp hi with rfl | hi
      · refine ⟨receipt,hreceipt,?_⟩
        rw [Act.run_deliver,hfolder,Workspace.delivered,htree]
        rfl
      · exact hrest.2 i hi

end

end Produces

/-- Documents whose paths lead to their places in one tree are told apart by what they say. -/
theorem deliveries_ext {t : Tree} {folder : Path} {ds es : List Delivery}
    (h : ds.map (·.toDocument) = es.map (·.toDocument))
    (hds : ∀ d ∈ ds, t.locate folder d.path = some d.place)
    (hes : ∀ e ∈ es, t.locate folder e.path = some e.place) : ds = es := by
  induction ds generalizing es with
  | nil => simpa using h.symm
  | cons d ds ih =>
    cases es with
    | nil => simp at h
    | cons e es =>
      obtain ⟨hdocument,hrest⟩ := List.cons.inj h
      have hpath : d.path = e.path := congrArg Document.path hdocument
      have hplace : d.place = e.place := by
        have hd := hds d List.mem_cons_self
        have he := hes e List.mem_cons_self
        rw [hpath,he] at hd
        exact (Option.some.inj hd).symm
      have hde : d = e := by
        cases d
        cases e
        simp_all
      rw [hde,ih hrest (fun x hx => hds x (List.mem_cons_of_mem d hx))
        fun x hx => hes x (List.mem_cons_of_mem e hx)]

/-! ## A sample -/

/-- A generator with two templates, next to a file. -/
def sampleWriter : Run where
  generator := { folders := ["t"], bindings := .ref 0 }
  workspace :=
    { store := ⟨#[.map []]⟩
      files :=
        { folders := [["t"]]
          files := [(["t","a"], "A".toUTF8.toList),(["t","b"], "B".toUTF8.toList),
            (["o"], "old".toUTF8.toList)] } }

def sampleRequests : List (Request × Value) :=
  [({ target := .text "o", template := .text "a", preserve := true }, .ref 0),
    ({ target := .text "o", template := .text "b" }, .ref 0),
    ({ target := .text "o", template := .text "a", preserve := true }, .ref 0),
    ({ target := .text "d/n", template := .text "a", preserve := true }, .ref 0),
    ({ target := .text "d/../d/n", template := .text "b", preserve := true }, .ref 0)]

/-! ## What files hold -/

variable {r r' s s' : Run} {qs qs' : List (Request × Value)}

/-- Each place is settled by the documents for it: the last one that overrides, else what was there,
else the first. What is there stays if all documents for it are to be preserved and none is
forced. -/
theorem produceAll_settles (hrun : (produceAll qs).run r = (.ok (), r'))
    (hdigests : Digest.Distinct (r.workspace.files.involved (r.deliveries qs))) :
    (r.deliveries qs).map (fun d => (d.preserve, d.force)) =
        qs.map (fun q => (q.1.preserve, r.generator.force || q.1.force)) ∧
      (∀ d ∈ r.deliveries qs, r'.workspace.files.locate r.workspace.folder d.path = some d.place) ∧
      (∀ l, r'.workspace.files.bytes? l =
        settled (r.workspace.files.bytes? l) ((r.deliveries qs).filter fun d => d.place = l)) ∧
      ∀ l b, r.workspace.files.bytes? l = some b →
        (∀ d ∈ r.deliveries qs, d.place = l → d.preserve = true ∧ d.force = false) →
        r'.workspace.files.bytes? l = some b := by
  have hproduces := produces_of_run hrun
  have hasked := hproduces.asked
  have hsettled := hproduces.delivered.bytes?_eq hdigests
  refine ⟨?_,hproduces.located,hsettled,?_⟩
  · rw [deliveries,List.map_map]
    exact hasked
  · intro l b hb hpreserved
    have hnone : ((r.deliveries qs).filter fun d => d.place = l).filter Delivery.overrides = [] := by
      apply List.filter_eq_nil_iff.mpr
      intro d hd
      obtain ⟨hmem,hplace⟩ := List.mem_filter.mp hd
      obtain ⟨hpreserve,hforce⟩ := hpreserved d hmem (by simpa using hplace)
      simp [Delivery.overrides,hpreserve,hforce]
    have hfinal := hsettled l
    unfold deliveries at hnone
    rw [settled,hnone,hb] at hfinal
    simpa using hfinal

/-- A file that is preserved, overridden and preserved again, and a new one that two paths lead
to. -/
theorem overridden_and_preserved :
    ∃ r', (produceAll sampleRequests).run sampleWriter = (.ok (), r') ∧
      Digest.Distinct
        (sampleWriter.workspace.files.involved (sampleWriter.deliveries sampleRequests)) ∧
      r'.workspace.files.bytes? ["o"] = some "B".toUTF8.toList ∧
      r'.workspace.files.bytes? ["d","n"] = some "A".toUTF8.toList := by
  have hok : ((produceAll sampleRequests).run sampleWriter).1 = .ok () := by decide +kernel
  have hrun : (produceAll sampleRequests).run sampleWriter =
      (.ok (), ((produceAll sampleRequests).run sampleWriter).2) := Prod.ext hok rfl
  have hdigests : Digest.Distinct
      (sampleWriter.workspace.files.involved (sampleWriter.deliveries sampleRequests)) := by
        decide +kernel
  have hsettled := (produceAll_settles hrun hdigests).2.2.1
  refine ⟨_,hrun,hdigests,?_,?_⟩
  · rw [hsettled]
    decide +kernel
  · rw [hsettled]
    decide +kernel

/-- A second run that comes to the same documents leaves every file as it is. If nothing is forced,
and the documents for one place that are not to be preserved say the same, it writes no file and
tells of none that it is created. -/
theorem produceAll_again (hrun : (produceAll qs).run r = (.ok (), r'))
    (hfiles : s.workspace.files = r'.workspace.files)
    (hfolder : s.workspace.folder = r.workspace.folder)
    (hagain : (produceAll qs').run s = (.ok (), s'))
    (hsame : (s.deliveries qs').map (·.toDocument) = (r.deliveries qs).map (·.toDocument))
    (hdigests : Digest.Distinct (r.workspace.files.involved (r.deliveries qs))) :
    (∀ l, s'.workspace.files.bytes? l = r'.workspace.files.bytes? l) ∧
      ((∀ d ∈ r.deliveries qs, d.force = false) →
        (∀ d ∈ r.deliveries qs, ∀ e ∈ r.deliveries qs, d.place = e.place → d.preserve = false →
          e.preserve = false →
          d.text = e.text) →
        s'.workspace.files.files = r'.workspace.files.files ∧
          ∀ i ∈ s.issues qs', ∃ receipt : Receipt, receipt ≠ .created ∧
          (Act.deliver i.2).run i.1.workspace =
            (.ok (),
              { i.1.workspace with log := i.1.workspace.log ++ receipt.report i.2.path })) := by
  have hfirst := produces_of_run hrun
  have hsecond := produces_of_run hagain
  have hdeliveries : s.deliveries qs' = r.deliveries qs := by
    apply deliveries_ext hsame hsecond.located
    intro d hd
    rw [hfolder]
    apply Tree.follow_mono hsecond.later.folders
    rw [hfiles]
    exact hfirst.located d hd
  have hsettled := hfirst.delivered.bytes?_eq hdigests
  have hdelivered : r'.workspace.files.Delivered (r.deliveries qs) s'.workspace.files := by
    rw [← hfiles,← hdeliveries]
    exact hsecond.delivered
  have hdigests' : Digest.Distinct (r'.workspace.files.involved (r.deliveries qs)) :=
    hdigests.mono (hfirst.delivered.involved_subset hdigests)
  constructor
  · intro l
    rw [hdelivered.bytes?_eq hdigests' l,hsettled l]
    exact settled_again _ _
  · intro hforce hagree
    rw [← hfiles]
    apply hsecond.idle
    intro d hd
    have hmem : d ∈ r.deliveries qs := hdeliveries ▸ hd
    have hhere : d ∈ (r.deliveries qs).filter fun e => e.place = d.place :=
      List.mem_filter.mpr ⟨hmem,by simp⟩
    refine ⟨hforce d hmem,?_⟩
    rw [hfiles,hsettled d.place]
    cases hpreserve : d.preserve with
    | true =>
        obtain ⟨b,hb⟩ := Option.isSome_iff_exists.mp
          (settled_isSome (r.workspace.files.bytes? d.place) _ (List.ne_nil_of_mem hhere))
        exact ⟨b,hb,by simp⟩
    | false =>
        refine ⟨d.bytes,?_,by simp⟩
        apply settled_of_agree hhere (by simp [Delivery.overrides,hpreserve])
        intro e he hover
        obtain ⟨he,hplace⟩ := List.mem_filter.mp he
        have hkept : e.preserve = false := by simpa [Delivery.overrides,hforce e he] using hover
        rw [Document.bytes,hagree e he d hmem (by simpa using hplace) hkept hpreserve]
        rfl

/-- The second run tells that files are preserved, and of nothing else. -/
theorem sample_again :
    ∃ r' s', (produceAll sampleRequests).run sampleWriter = (.ok (), r') ∧
      (produceAll sampleRequests).run r' = (.ok (), s') ∧
      (r'.deliveries sampleRequests).map (·.toDocument) =
        (sampleWriter.deliveries sampleRequests).map (·.toDocument) ∧
      s'.workspace.files.bytes? ["o"] = r'.workspace.files.bytes? ["o"] ∧
      s'.workspace.files.files = r'.workspace.files.files ∧
      ∀ i ∈ r'.issues sampleRequests, ∃ receipt : Receipt, receipt ≠ .created ∧
        (Act.deliver i.2).run i.1.workspace =
          (.ok (), { i.1.workspace with log := i.1.workspace.log ++ receipt.report i.2.path }) := by
  have hread : (((produceAll sampleRequests).run sampleWriter).1 = .ok () ∧
      ((produceAll sampleRequests).run ((produceAll sampleRequests).run sampleWriter).2).1 =
        .ok ()) ∧
      (((produceAll sampleRequests).run sampleWriter).2.deliveries sampleRequests).map
        (·.toDocument) =
        (sampleWriter.deliveries sampleRequests).map (·.toDocument) := by decide +kernel
  have hdigests : Digest.Distinct
      (sampleWriter.workspace.files.involved (sampleWriter.deliveries sampleRequests)) := by
        decide +kernel
  obtain ⟨⟨hok,hok'⟩,hsame⟩ := hread
  have hrun : (produceAll sampleRequests).run sampleWriter =
      (.ok (), ((produceAll sampleRequests).run sampleWriter).2) := Prod.ext hok rfl
  have hagain : (produceAll sampleRequests).run ((produceAll sampleRequests).run sampleWriter).2 =
      (.ok (),
        ((produceAll sampleRequests).run ((produceAll sampleRequests).run sampleWriter).2).2) :=
    Prod.ext hok' rfl
  have hfolder := (produces_of_run hrun).later.folder
  obtain ⟨hbytes,hidle⟩ := produceAll_again hrun rfl hfolder hagain hsame hdigests
  refine ⟨_,_,hrun,hagain,hsame,hbytes _,?_⟩
  exact hidle (by decide +kernel) (by decide +kernel)

end Run

end InterfaceKit
