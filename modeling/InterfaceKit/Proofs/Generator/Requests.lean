import InterfaceKit.Proofs.Generator.InForce

/-!
# The documents that rules ask for

Which documents are asked for can be read off the rule document, the features and the symbols of the
system: target by target, then symbol by symbol, then entry by entry. A generator asks for just
these documents, each once and in this order. If it fails on its way it has asked for the first ones
of them.
-/
namespace InterfaceKit
open Data Model Files Generate

/-! ## What is asked for -/

deriving instance DecidableEq for Request

namespace Data.Store

def entriesIn (s : Store) (rule : Value) (name : String) : List Value :=
  match s.given rule name with
  | some v => (s.elements v).toOption.getD []
  | none => []

/-- The name and the template of an entry: the pair that a mapping holds, and for a text the text
itself. -/
def pairOf (s : Store) (entry : Value) : Value × Value :=
  match s.mapping? entry with
  | some (_, pair :: _) => pair
  | _ => (entry, entry)

def requestsIn (s : Store) (rule : Value) (name : String) (preserve : Bool) : List Request :=
  (s.entriesIn rule name).map fun entry =>
    { target := (s.pairOf entry).1, template := (s.pairOf entry).2, preserve }

/-- The documents of a rule. Those to be preserved come last. -/
def requestsOf (s : Store) (rule : Value) : List Request :=
  s.requestsIn rule "documents" false ++ s.requestsIn rule "preserve" true

/-- What is asked for at a symbol: the documents of its rule, if the rule applies. -/
def orders (s : Store) (features : List Value) (rules : Value) (v : Visit) :
    List (Visit × Request) :=
  if s.applies features (s.ruleFor rules v) then (s.requestsOf (s.ruleFor rules v)).map (v, ·)
  else []

end Data.Store

/-- What is asked for in a target that applies: at the system, and then module by module at the
module, at its interfaces, at its structures and at its enumerations. -/
def Workspace.orders (w : Workspace) (features : List Value) (n : Nat) (rules : Value) :
    List (Visit × Request) :=
  let at' (kind : String) (h : Handle) := w.store.orders features rules ⟨kind,.entity n (.symbol h)⟩
  let each (kind : String) (m : Handle) (part : Section) :=
    (w.symbolsIn n (.symbol m) part).flatMap (at' kind)
  if w.store.applies features rules then
    w.store.orders features rules ⟨"system",.entity n .system⟩ ++
      (w.symbolsIn n .system .modules).flatMap fun m =>
        at' "module" m ++ each "interface" m .interfaces ++ each "struct" m .structs ++ each "enum"
          m .enums
  else []

theorem Workspace.orders_eq (w : Workspace) (features : List Value) (n : Nat) (rules : Value) :
    w.orders features n rules =
      if w.store.applies features rules then (w.visits n).flatMap (w.store.orders features rules)
      else [] := by
  simp [orders,visits,List.flatMap_assoc,List.flatMap_map,List.append_assoc]

theorem Data.Store.bindings_of_empty {s : Store} {v : Value} (h : s.isTrue v = false) :
    s.bindings v = [] := by
  rw [bindings]
  rcases hmap : s.mapping? v with _ | ⟨i,es⟩
  · rfl
  · obtain ⟨rfl,hcell⟩ := mapping?_eq_some.mp hmap
    obtain rfl : es = [] := by simpa [isTrue,hcell] using h
    rfl

theorem Data.Store.orders_eq_ite (s : Store) (features : List Value) (rules : Value) (v : Visit) :
    s.orders features rules v =
      if s.isFollowed features (s.ruleFor rules v) then
      (s.requestsOf (s.ruleFor rules v)).map (v, ·) else [] := by
  rw [orders,isFollowed]
  cases htrue : s.isTrue (s.ruleFor rules v) with
  | true => rfl
  | false =>
    have hgiven : ∀ name, s.given (s.ruleFor rules v) name = none := by
      intro name
      rw [given,bindings_of_empty htrue]
      rfl
    simp [requestsOf,requestsIn,entriesIn,hgiven]

/-! ## What a document holds -/

namespace Opening
variable {o : Opening} {v : Value}

theorem Reaches.elements (h : o.Reaches v) {xs : List Value} (hxs : o.store.elements v = .ok xs) :
    ∀ x ∈ xs, o.Reaches x := by
  intro x hx
  cases v with
  | text t =>
    obtain rfl := Except.ok.inj hxs
    obtain ⟨c,-,rfl⟩ := List.mem_map.mp hx
    exact nofun
  | bytes bs =>
    obtain rfl := Except.ok.inj hxs
    obtain ⟨b,-,rfl⟩ := List.mem_map.mp hx
    exact nofun
  | ref i =>
    obtain ⟨c,hc⟩ := h.get?
    have hvalues := o.closed i c (h i rfl).1 hc
    rw [Store.elements,hc] at hxs
    cases c with
    | map es =>
      obtain rfl := Except.ok.inj hxs
      obtain ⟨e,he,rfl⟩ := List.mem_map.mp hx
      exact hvalues _ (List.mem_flatMap.mpr ⟨e,he,by simp⟩)
    | _ =>
      obtain rfl := Except.ok.inj hxs
      exact hvalues x hx
  | _ => cases hxs

end Opening

namespace Run.Follows
variable {o : Opening} {r : Run} {v : Value}

theorem elements_eq (hr : r.Follows o) (h : o.Reaches v) :
    r.workspace.store.elements v = o.store.elements v := by
  cases v with
  | ref i => rw [Store.elements,Store.elements,hr.get?_eq h]
  | _ => rfl

end Run.Follows

namespace Generate
variable {o : Opening} {r r' : Run}

theorem listed_spec {rule : Value} (hrule : o.Reaches rule) (hr : r.Follows o) {name : String}
    {xs : List Value} (h : (listed rule name).run r = (.ok xs, r')) :
    xs = o.store.entriesIn rule name ∧ r' = r ∧ ∀ x ∈ xs, o.Reaches x := by
  unfold listed at h
  obtain ⟨given,r₁,hgiven,hrest⟩ := ok_of_bind h
  obtain ⟨hx,rfl,hreach⟩ := given?_spec hrule hr hgiven
  rw [Store.entriesIn,← hx]
  cases given with
  | none =>
    cases hrest
    exact ⟨rfl,rfl,fun _ hx => nomatch hx⟩
  | some v =>
    dsimp only at hrest
    have hask : (liftM (Inquiry.ask (·.elements v)) : Generate (List Value)).run r₁ =
        (r₁.workspace.store.elements v, r₁) := by
      change (((Inquiry.lift (r₁.workspace.store.elements v)).act.run r₁.workspace).1,
        { r₁ with workspace := ((Inquiry.lift (r₁.workspace.store.elements v)).act.run
          r₁.workspace).2 }) = _
      cases r₁.workspace.store.elements v <;> rfl
    replace hreach : o.Reaches v := hreach
    rw [hask,hr.elements_eq hreach] at hrest
    obtain ⟨hxs,rfl⟩ := Prod.mk.inj hrest
    dsimp only
    rw [hxs]
    exact ⟨rfl,rfl,hreach.elements hxs⟩

theorem documentOf_spec {entry : Value} (hentry : o.Reaches entry) (hr : r.Follows o)
    {pair : Value × Value} (h : (documentOf entry).run r = (.ok pair, r')) :
    pair = o.store.pairOf entry ∧ (∀ i, o.store.mapping? entry ≠ some (i, [])) ∧ r' = r := by
  unfold documentOf at h
  obtain ⟨w,r₁,hget,hrest⟩ := ok_of_bind h
  cases hget
  rw [Store.pairOf,← hr.mapping?_eq hentry]
  split at hrest
  · rename_i hmap
    cases hrest
    rw [hmap]
    exact ⟨rfl,by simp,rfl⟩
  · cases hrest
  · rename_i hmap
    cases hrest
    rw [hmap]
    exact ⟨rfl,by simp,rfl⟩

end Generate

/-! ## What a walk asks for -/

/-- The documents that were asked for, each at its symbol. -/
def ordersIn (events : List Event) : List (Visit × Request) :=
  events.filterMap fun e => match e with
    | .entered _ _ _ => none
    | .issued v q _ => some (v, q)

namespace Watched

/-- Begun while a document is followed, it asks for the documents `qs` in their order. If it fails
it may leave out the last ones; if it succeeds the document is still followed. -/
def Issues {α : Type} (o : Opening) (x : Watched α) (P : α → Prop) (qs : List (Visit × Request)) :
    Prop :=
  ∀ s : Watch, s.run.Follows o → ∃ done, done <+: qs ∧
    ordersIn (x.run s).2.events = ordersIn s.events ++ done ∧
    ∀ a, (x.run s).1 = .ok a → P a ∧ done = qs ∧ (x.run s).2.run.Follows o

namespace Issues
variable {α β : Type} {o : Opening} {x : Watched α} {P : α → Prop} {R : β → Prop}
  {qs qs' : List (Visit × Request)}

theorem pure (a : α) (h : P a) : Issues o (Pure.pure a) P [] := by
  intro s hs
  refine ⟨[],List.prefix_rfl,(List.append_nil _).symm,fun b hb => ?_⟩
  cases hb
  exact ⟨h,rfl,hs⟩

variable {f : α → Watched β} {y : Generate α}

theorem bind (hx : Issues o x P qs) (hf : ∀ a, P a → Issues o (f a) R qs') :
    Issues o (x >>= f) R (qs ++ qs') := by
  intro s hs
  obtain ⟨done,hfront,hissues,hok⟩ := hx s hs
  rw [run_bind]
  revert hissues hok
  rcases x.run s with ⟨r,s'⟩
  intro hissues hok
  cases r with
  | error e => exact ⟨done,hfront.trans (List.prefix_append qs qs'),hissues,nofun⟩
  | ok a =>
    obtain ⟨ha,rfl,hs'⟩ := hok a rfl
    obtain ⟨done',hfront',hissues',hok'⟩ := hf a ha s' hs'
    refine ⟨done ++ done',List.prefix_append_right_inj done |>.mpr hfront',?_,fun b hb => ?_⟩
    · rw [hissues',show ordersIn s'.events = _ from hissues,List.append_assoc]
    · obtain ⟨hb',rfl,hfollows⟩ := hok' b hb
      exact ⟨hb',rfl,hfollows⟩

theorem after (hx : Issues o x P []) (hf : ∀ a, P a → Issues o (f a) R qs) :
    Issues o (x >>= f) R qs :=
  hx.bind hf

theorem andPure (hx : Issues o x P qs) (b : β) (hb : ∀ a, P a → R b) :
    Issues o (x >>= fun _ => Pure.pure b) R qs := by
  have h := hx.bind (R := R) fun a ha => pure b (hb a ha)
  rw [List.append_nil] at h
  exact h

theorem mono {P' : α → Prop} (hx : Issues o x P qs) (hP : ∀ a, P a → P' a) : Issues o x P' qs := by
  intro s hs
  obtain ⟨done,hfront,hissues,hok⟩ := hx s hs
  refine ⟨done,hfront,hissues,fun a ha => ?_⟩
  obtain ⟨hPa,hdone⟩ := hok a ha
  exact ⟨hP a hPa,hdone⟩

theorem lift (h : ∀ r a r', r.Follows o → y.run r = (.ok a, r') → P a ∧ r'.Follows o) :
    Issues o (liftM y) P [] := by
  intro s hs
  refine ⟨[],List.prefix_rfl,(List.append_nil _).symm,fun a ha => ?_⟩
  obtain ⟨hP,hfollows⟩ := h s.run a _ hs (Prod.ext ha rfl)
  exact ⟨hP,rfl,hfollows⟩

theorem steady (h : Generate.Steady o (fun _ => False) y) : Issues o (liftM y) (fun _ => True) [] :=
  .lift fun r a r' hr hrun => ⟨trivial,by simpa [hrun] using (h r hr).follows⟩

/-- `C` is what the rounds show of the elements. -/
theorem forIn {f : α → PUnit → Watched (ForInStep PUnit)} {g : α → List (Visit × Request)}
    {C : α → Prop} {as : List α}
    (hf : ∀ a ∈ as, Issues o (f a PUnit.unit) (fun step => step = .yield PUnit.unit ∧ C a) (g a)) :
    Issues o (ForIn.forIn as PUnit.unit f) (fun _ => ∀ a ∈ as, C a) (as.flatMap g) := by
  induction as with
  | nil => exact pure _ (List.forall_mem_nil C)
  | cons a as ih =>
    obtain ⟨ha,has⟩ := List.forall_mem_cons.mp hf
    rw [List.forIn_cons,List.flatMap_cons]
    refine ha.bind fun step hstep => ?_
    obtain ⟨rfl,hC⟩ := hstep
    exact (ih has).mono fun _ hrest => List.forall_mem_cons.mpr ⟨hC,hrest⟩

end Issues

section
variable {o : Opening}

theorem write_issues (v : Visit) {q : Request} (hq : q.bindings = none) :
    Issues o (follower.write v q) (fun _ => True) [(v, q)] := by
  have hnote : Issues o (note (.issued v q)) (fun _ => True) [(v, q)] := by
    intro s hs
    refine ⟨[(v, q)],List.prefix_rfl,?_,fun _ _ => ⟨trivial,rfl,hs⟩⟩
    exact List.filterMap_append
  exact hnote.bind fun _ _ => .steady (write_steady hq)

variable {rule rules : Value}

theorem enter_issues (visit : Option Visit) (hrule : o.Reaches rule) :
    Issues o (follower.enter visit rule) (fun _ => True) [] := by
  have hnote : Issues o (note (.entered visit rule)) (fun _ => True) [] := by
    intro s hs
    refine ⟨[],List.prefix_rfl,?_,fun _ _ => ⟨trivial,rfl,hs⟩⟩
    exact List.filterMap_append
  refine Issues.bind (P := fun _ => True) (.lift fun r _ r' hr hrun => ?_) fun _ _ => hnote
  exact ⟨trivial,(enter_spec hrule hr hrun).follows⟩

theorem writeListed_issues (v : Visit) (hrule : o.Reaches rule) (name : String) (preserve : Bool) :
    Issues o (writeListed (follower.write v) rule name preserve)
      (fun _ => ∀ entry ∈ o.store.entriesIn rule name, ∀ i, o.store.mapping? entry ≠ some (i, []))
      ((o.store.requestsIn rule name preserve).map (v, ·)) := by
  rw [Store.requestsIn,List.map_map,List.map_eq_flatMap]
  unfold writeListed
  refine (Issues.lift fun r xs r' hr hrun => ?_).after
    (P := fun xs => xs = o.store.entriesIn rule name ∧ ∀ x ∈ xs, o.Reaches x) fun xs hxs => ?_
  · obtain ⟨hxs,rfl,hreach⟩ := listed_spec hrule hr hrun
    exact ⟨⟨hxs,hreach⟩,hr⟩
  obtain ⟨rfl,hreach⟩ := hxs
  refine (Issues.forIn fun entry hentry => ?_).andPure _ fun _ h => h
  refine (Issues.lift fun r pair r' hr hrun => ?_).after
    (P := fun pair => pair = o.store.pairOf entry ∧ ∀ i, o.store.mapping? entry ≠ some (i, []))
      fun pair hpair => ?_
  · obtain ⟨hpair,hfilled,rfl⟩ := documentOf_spec (hreach entry hentry) hr hrun
    exact ⟨⟨hpair,hfilled⟩,hr⟩
  obtain ⟨rfl,hfilled⟩ := hpair
  exact (write_issues v rfl).andPure _ fun _ _ => ⟨rfl,hfilled⟩

/-- A rule that is followed asks for its documents, and one that is passed over for none. An empty
mapping among its entries would make it fail. -/
theorem rule_issues (v : Visit) (hrule : o.Reaches rule) : Issues o (followRule follower rule v)
      (fun _ => o.store.isFollowed o.features rule → ∀ name ∈ ["documents", "preserve"],
        ∀ entry ∈ o.store.entriesIn rule name, ∀ i, o.store.mapping? entry ≠ some (i, []))
      (if o.store.isFollowed o.features rule then (o.store.requestsOf rule).map (v, ·) else []) := by
  unfold followRule
  refine (Issues.lift fun r proceed r' hr hrun => ?_).after
    (P := (· = o.store.isFollowed o.features rule))
    fun proceed hproceed => ?_
  · obtain ⟨hproceed,rfl⟩ := (isFollowed_reads _).eq_of_ok hrun
    refine ⟨?_,hr⟩
    rw [hproceed,hr.features]
    exact hr.isFollowed_eq hrule
  rw [← hproceed]
  split
  · rw [Store.requestsOf,List.map_append]
    refine (Issues.lift fun r _ r' hr hrun => ?_).after (P := fun _ => True) fun _ _ => ?_
    · exact ⟨trivial,(bindOne_spec hr hrun).1.follows⟩
    refine (enter_issues (some v) hrule).after fun _ _ => ?_
    refine (writeListed_issues v hrule _ _).bind fun _ hdocuments => ?_
    refine (writeListed_issues v hrule _ _).mono fun _ hpreserved _ => ?_
    exact List.forall_mem_cons.mpr ⟨hdocuments,List.forall_mem_singleton.mpr hpreserved⟩
  · rename_i hpassed
    exact .pure _ fun hfollowed => absurd hfollowed hpassed

theorem followRule_issues (v : Visit) (hrule : o.Reaches (o.store.ruleFor rules v)) :
    Issues o (followRule follower (o.store.ruleFor rules v) v) (fun _ => True)
      (o.store.orders o.features rules v) := by
  rw [Store.orders_eq_ite]
  exact (rule_issues v hrule).mono fun _ _ => trivial

theorem followTarget_issues (hrules : o.Reaches rules) (n : Nat) :
    Issues o (followTarget follower rules n) (fun _ => True)
      (if o.store.applies o.features rules then
        (o.visits n).flatMap (o.store.orders o.features rules) else []) := by
  unfold followTarget
  refine (Issues.lift fun r proceed r' hr hrun => ?_).after
    (P := (· = o.store.applies o.features rules))
    fun proceed hproceed => ?_
  · unfold openTarget at hrun
    obtain ⟨_,r₁,hforget,happlies⟩ := ok_of_bind hrun
    obtain ⟨hproceed,rfl⟩ := (applies_reads rules).eq_of_ok happlies
    cases hforget
    have hfollows := (hr.setGenerator (g := { r.generator with source := .null }) rfl rfl).1
    refine ⟨?_,hfollows⟩
    rw [hproceed,hfollows.features]
    exact hfollows.applies_eq hrules
  rw [← hproceed]
  split
  · refine (enter_issues none hrules).after fun _ _ => ?_
    refine (Issues.lift fun r w r' hr hrun => ?_).after
      (P := fun w => w.visits n = o.visits n) fun w hw => ?_
    · cases hrun
      exact ⟨hr.visits n,hr⟩
    rw [← hw]
    refine (Issues.forIn (C := fun _ => True) fun v _ => ?_).andPure _ fun _ _ => trivial
    refine (Issues.lift fun r x r' hr hrun => ?_).after
      (P := fun x => x = o.store.given rules v.kind ∧ o.Reaches (x.getD .null)) fun x hx => ?_
    · obtain ⟨hx,rfl,hrule⟩ := given?_spec hrules hr hrun
      exact ⟨⟨hx,hrule⟩,hr⟩
    obtain ⟨rfl,hrule⟩ := hx
    exact (followRule_issues v hrule).andPure _ fun _ _ => ⟨rfl,trivial⟩
  · exact .pure _ trivial

theorem followDocument_issues {document : Value} (hreach : o.Reaches document) (n : Nat) :
    Issues o (followDocument follower document n) (fun _ => True)
      ((o.store.targets document).flatMap fun target =>
      if o.store.applies o.features target.2 then
      (o.visits n).flatMap (o.store.orders o.features target.2)
      else []) := by
  unfold followDocument
  refine (Issues.lift fun r targets r' hr hrun => ?_).after (P := (· = o.store.targets document))
    fun targets htargets => ?_
  · obtain ⟨htargets,rfl⟩ := (targetsOf_reads document).eq_of_ok hrun
    rw [Store.targets,hr.mapping?_eq hreach] at htargets
    exact ⟨htargets,hr⟩
  subst htargets
  refine (Issues.forIn (C := fun _ => True) fun target htarget => ?_).andPure _ fun _ _ => trivial
  refine (Issues.steady (announce_obeys lenient_steady target.1)).after fun _ _ => ?_
  exact (followTarget_issues (hreach.target target htarget) n).andPure _ fun _ _ => ⟨rfl,trivial⟩

end

end Watched

namespace Run.Ready
variable {r r₀ : Run} {path : Path} {n : Nat} {document : Value}

/-- Opening rules changes neither the generator nor the systems. -/
theorem openRules_keeps (hr : r.Ready)
    (hopen : (Generate.openRules path n).run r = (.ok document, r₀)) :
    r₀.generator = r.generator ∧ r₀.workspace.systems = r.workspace.systems := by
  obtain ⟨_,-,-,-,hkeeps⟩ := hr.openRules hopen
  exact hkeeps

/-- A generator asks for the documents of the rules that apply, target by target, at each of the
symbols in their order. If it fails it has asked for the first ones of them. -/
theorem requests_in_order (hr : r.Ready)
    (hopen : (Generate.openRules path n).run r = (.ok document, r₀)) :
    let requests := (r₀.workspace.store.targets document).flatMap fun target =>
      r₀.workspace.orders (r₀.generator.features.getD []) n target.2
    let walk := (Watched.processRules path n).run { run := r }
    (r₀.generator = r.generator ∧ r₀.workspace.systems = r.workspace.systems) ∧
      (Generate.processRules path n).run r = (walk.1, walk.2.run) ∧
      ordersIn walk.2.events <+: requests ∧
        (walk.1 = .ok () → ordersIn walk.2.events = requests) := by
  intro requests walk
  obtain ⟨o,hstore,hfollows,hreach,-⟩ := hr.openRules hopen
  have hrequests : requests = (o.store.targets document).flatMap fun target =>
      if o.store.applies o.features target.2 then
        (o.visits n).flatMap (o.store.orders o.features target.2)
      else [] := by
    change List.flatMap _ _ = _
    simp only [Workspace.orders_eq,hfollows.features,hstore,hfollows.visits,Option.getD_some]
  obtain ⟨done,hfront,hissues,hok⟩ := Watched.followDocument_issues hreach n { run := r₀ } hfollows
  rw [← Watched.processRules_run hopen] at hissues hok
  rw [← hrequests] at hfront hok
  replace hissues : ordersIn walk.2.events = done := hissues
  refine ⟨hr.openRules_keeps hopen,Watched.processRules_erases path n { run := r },?_,
    fun hdone => ?_⟩
  · rw [hissues]
    exact hfront
  · rw [hissues]
    exact (hok () hdone).2.1

/-- Rules in another order than that of the symbols, for a generator that has the feature that they
ask for. -/
def conditionalRun : Run :=
  { sampleRun with
    generator.features := some [.text "x"]
    workspace.files.files := [(["rules"],
      ("t: \x7bwhen: x, struct: \x7bpreserve: [\x7ba: b\x7d], documents: [c]\x7d, " ++
        "interface: \x7bdocuments: [d]\x7d\x7d").toUTF8.toList)] }

theorem conditionalRun_ready : conditionalRun.Ready := by
  refine ⟨⟨⟨1,[],rfl,rfl,List.nodup_nil⟩,0,.map [],rfl,rfl⟩,fun f hf => ?_⟩
  obtain rfl := List.mem_singleton.mp hf
  exact nofun

/-- The interface comes before the structure, and what is preserved comes last. -/
theorem requests_reordered :
    conditionalRun.Ready ∧
      ∃ document r₀, (Generate.openRules (.ofString "rules") 0).run conditionalRun =
        (.ok document, r₀) ∧
        ordersIn
          ((Watched.processRules (.ofString "rules") 0).run { run := conditionalRun }).2.events =
          [(sampleInterface, { target := .text "d", template := .text "d" }),
            (sampleStruct, { target := .text "c", template := .text "c" }),
            (sampleStruct, { target := .text "a", template := .text "b", preserve := true })] := by
  have hread : succeedsWith (fun document r₀ => decide (
        ((followDocument Watched.follower document 0).run { run := r₀ }).1 = .ok () ∧
        ((r₀.workspace.store.targets document).flatMap fun target =>
          r₀.workspace.orders (r₀.generator.features.getD []) 0 target.2) =
            [(sampleInterface, { target := .text "d", template := .text "d" }),
              (sampleStruct, { target := .text "c", template := .text "c" }),
              (sampleStruct, { target := .text "a", template := .text "b", preserve := true })]))
      ((Generate.openRules (.ofString "rules") 0).run conditionalRun) = true := by
    decide +kernel
  obtain ⟨document,r₀,hopen,hread⟩ := succeedsWith_iff.mp hread
  obtain ⟨hdone,horders⟩ := of_decide_eq_true hread
  rw [← Watched.processRules_run hopen] at hdone
  refine ⟨conditionalRun_ready,document,r₀,hopen,?_⟩
  rw [(requests_in_order conditionalRun_ready hopen).2.2.2 hdone,horders]

end Run.Ready

end InterfaceKit
