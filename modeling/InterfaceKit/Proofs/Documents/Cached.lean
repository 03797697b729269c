import InterfaceKit.Proofs.Documents.Mirroring

/-!
# Reading with the cache

A call that uses the cache does not spare itself any reading. It goes on with a copy of the system
that the cache holds under its identifier, reads all of its inputs into that, and sets a copy of the
outcome aside. So it gives what would come of reading, without a cache, all inputs that the calls
before it have gathered under the identifier and then its own.
-/
namespace InterfaceKit
open Data Model Files

/-! ## Reading without the cache -/

namespace Act

def readSources (n : Nat) (sources : List (String × String)) : Act Unit := do
  for s in sources do readInput n s.1 s.2

def readAnew (sources : List (String × String)) : Act Nat := do
  let n ← newSystem
  readSources n sources
  return n

section
variable {n n' : Nat} {R : Nat → Nat → Prop} {w w' u u' : Workspace}

theorem readSources_abreast (h : w.Mirrors n n' R w') (sources : List (String × String)) :
    Abreast n n' (fun _ _ _ => True) R w w' (readSources n sources) (readSources n' sources) := by
  unfold readSources
  refine (Abreast.forIn (P := Eq) h (List.forall₂_same.mpr fun _ _ => rfl) ?_).bind
    fun _ _ R₁ t t' ht _ _ => .pure ht trivial
  rintro s _ R₁ t t' rfl ht -
  exact (readInput_abreast ht s.1 s.2).bind fun _ _ R₂ o o' ho _ _ => .pure ho ⟨rfl,rfl⟩

theorem readSources_append (n : Nat) (sources others : List (String × String)) :
    readSources n (sources ++ others) = (do readSources n sources; readSources n others) := by
  simp [readSources]

theorem readSources_map (n : Nat) (pattern : String) (inputs : List String) :
    readSources n (inputs.map fun input => (pattern, input)) =
      (do for input in inputs do readInput n pattern input) := by
  simp [readSources,List.foldlM_map]

theorem newSystem_mirrors (h : w.SameFiles u) :
    (newSystem.run w).2.Mirrors w.systems.length u.systems.length
      (Joined (fun _ _ => False) w.store u.store (newSystem.run w).2.store) (newSystem.run u).2 := by
  have hempty : w.store.Mirror (fun _ _ => False) u.store := ⟨nofun,nofun,nofun⟩
  have hrun : ∀ u : Workspace, newSystem.run u = (.ok u.systems.length,
    { u with
      store := (u.store.alloc (.map [])).2
      systems := u.systems ++ [{ tags := .ref u.store.cells.size }] }) :=
    fun _ => rfl
  rw [hrun,hrun]
  refine ⟨⟨h.files,h.folder,h.strict⟩,?_,_,_,List.getElem?_concat_length ..,
    List.getElem?_concat_length ..,?_⟩
  · exact hempty.join (fun i c hc => Store.get?_alloc hc _) (fun i c hc => Store.get?_alloc hc _)
      ((Store.Aligned.start ..).alloc (.map .nil .nil))
  · refine ⟨.ref (.inr ⟨Nat.le_refl _,?_,Nat.add_comm ..⟩),.nil,rfl⟩
    rw [Store.size_alloc]
    exact Nat.lt_succ_self _

theorem run_newSystem (w : Workspace) :
    newSystem.run w = (.ok w.systems.length, (newSystem.run w).2) := rfl

theorem newSystem_spares (w : Workspace) : w.Spares (fun _ => False) (newSystem.run w).2 where
  ground := ⟨rfl,rfl,rfl⟩
  cache := rfl
  size := (Store.size_alloc w.store (.map [])).symm ▸ Nat.le_succ _
  cells _ _ _ hc := Store.get?_alloc hc _

theorem readAnew_sameFiles (sources : List (String × String)) (u : Workspace) :
    u.SameFiles ((readAnew sources).run u).2 := by
  obtain ⟨R',hmoves,-⟩ := readSources_abreast (newSystem_mirrors (.refl u)) sources
  have hground := (newSystem_spares u).ground.trans hmoves.kept.ground
  unfold readAnew
  rw [run_bind_ok (run_newSystem _),run_bind]
  revert hground
  rcases (readSources u.systems.length sources).run (newSystem.run u).2 with ⟨r,t⟩
  intro hground
  cases r <;> exact hground

theorem run_readAnew_append (sources others : List (String × String))
    (h : (readAnew sources).run u = (.ok n, u')) :
    (readAnew (sources ++ others)).run u = (do readSources n others; return n : Act Nat).run u' := by
  have hsplit : readAnew (sources ++ others) = (do
      let n ← readAnew sources
      readSources n others
      return n) := by
    simp [readAnew,readSources_append]
  rw [hsplit,run_bind,h]

end

end Act

/-! ## Calls -/

/-- A call: the inputs to be read, and how the cache is used. -/
structure ReadCall where
  inputs : List String
  pattern : String := "*.qface"
  cache : Act.CacheUse

namespace ReadCall

def read (q : ReadCall) : Act Nat := Act.readAll q.inputs q.pattern q.cache

/-- The inputs, each with the pattern for its documents. -/
def sources (q : ReadCall) : List (String × String) := q.inputs.map fun input => (q.pattern, input)

/-- What is read before the inputs of a call, if `held` has been read under its identifier. -/
def before (q : ReadCall) (held : List (String × String)) : List (String × String) :=
  if q.cache.use ∧ ¬ q.cache.clear then held else []

end ReadCall

/-- The systems are the same but for the places of the cells that hold their tags. -/
def SameSystem (s : Store) (x : System) (s' : Store) (x' : System) : Prop :=
  ∃ R, s.Mirror R s' ∧ x.Mirrors R x'

/-- Reading ends with the same failure, or with systems that are the same. -/
def SameReading (r r' : Except Failure Nat × Workspace) : Prop :=
  Agrees (fun n n' => ∃ x x', r.2.systems[n]? = some x ∧ r'.2.systems[n']? = some x' ∧
    SameSystem r.2.store x r'.2.store x') r.1 r'.1

/-- Whenever inputs are read without the cache, what it holds under the identifier is the same. -/
def Workspace.Holds (w : Workspace) (id : String) (sources : List (String × String)) : Prop :=
  match w.cache.get? id with
  | none => sources = []
  | some s =>
    ∀ u, w.SameFiles u → ∃ n u' x, (Act.readAnew sources).run u = (.ok n, u') ∧
      u'.systems[n]? = some x ∧
    SameSystem w.store s u'.store x

def Workspace.cleared (w : Workspace) (cache : Act.CacheUse) : Workspace :=
  if cache.use ∧ cache.clear then { w with cache := w.cache.filter fun e => e.1 ≠ cache.identifier }
  else w

namespace Workspace
variable {n n' : Nat} {P : Nat → Prop} {R : Nat → Nat → Prop} {w w' t : Workspace}

@[simp] theorem cleared_store (w : Workspace) (cache : Act.CacheUse) :
    (w.cleared cache).store = w.store := by
  unfold cleared
  split <;> rfl

theorem cleared_sameFiles (w : Workspace) (cache : Act.CacheUse) :
    (w.cleared cache).SameFiles w := by
  unfold cleared
  split <;> exact ⟨rfl,rfl,rfl⟩

theorem Mirrors.cleared (h : w.Mirrors n n' R w') (cache : Act.CacheUse) :
    (w.cleared cache).Mirrors n n' R w' := by
  unfold Workspace.cleared
  split
  · exact ⟨⟨h.ground.files,h.ground.folder,h.ground.strict⟩,h.store,h.system⟩
  · exact h

theorem Spares.cleared (h : w.Spares P t) (cache : Act.CacheUse) :
    (w.cleared cache).Spares P (t.cleared cache) := by
  unfold Workspace.cleared
  split
  · exact ⟨⟨h.ground.files,h.ground.folder,h.ground.strict⟩,by rw [h.cache],h.size,h.cells⟩
  · exact h

end Workspace

namespace Act
open Workspace

theorem run_restore (n : Nat) (cache : CacheUse) (w : Workspace) :
    (restore n cache).run w = (.ok (),
      if cache.use then
        match (w.cleared cache).cache.get? cache.identifier with
        | some s => { w.cleared cache with
            store := w.store.double.1
            systems := w.systems.modify n fun _ => s.mapTags (Store.moved w.store.cells.size) }
        | none => w.cleared cache
      else w.cleared cache) := by
  obtain ⟨id,use,clear⟩ := cache
  have htake : ∀ w : Workspace, (do
      match (← MonadState.get).cache.get? id with
      | some s => do
        let s ← copySystem s
        modifySystem n fun _ => s
      | none => pure () : Act Unit).run w = (.ok (),
        match w.cache.get? id with
        | some s => { w with
            store := w.store.double.1
            systems := w.systems.modify n fun _ => s.mapTags (Store.moved w.store.cells.size) }
        | none => w) := by
    intro w
    rw [run_get_bind]
    cases w.cache.get? id <;> rfl
  cases use with
  | false => rfl
  | true =>
    cases clear with
    | false => exact htake w
    | true => exact htake { w with cache := w.cache.filter fun e => e.1 ≠ id }

theorem run_setAside (n : Nat) (cache : CacheUse) (w : Workspace) :
    (setAside n cache).run w = (.ok (),
      if cache.use then
        { w with
          store := w.store.double.1
          cache :=
            w.cache.set cache.identifier ((w.systemAt n).mapTags (Store.moved w.store.cells.size)) }
      else w) := by
  obtain ⟨id,use,clear⟩ := cache
  cases use <;> rfl

theorem restore_opens {w u : Workspace} (h : w.SameFiles u) (cache : CacheUse)
    {base : List (String × String)}
    (hbase : if cache.use then (w.cleared cache).Holds cache.identifier base else base = []) :
    ∃ t n u' R, (restore w.systems.length cache).run (newSystem.run w).2 = (.ok (), t) ∧
      (readAnew base).run u = (.ok n, u') ∧ t.Mirrors w.systems.length n R u' ∧
      (∀ i j, R i j → w.store.cells.size ≤ i) ∧ (w.cleared cache).Spares (fun _ => False) t := by
  have hspares := (newSystem_spares w).cleared cache
  have hmirrors := (newSystem_mirrors h).cleared cache
  have hnew : base = [] → ∃ n u' R, (readAnew base).run u = (.ok n, u') ∧
      ((newSystem.run w).2.cleared cache).Mirrors w.systems.length n R u' ∧ ∀ i j, R i j →
        w.store.cells.size ≤ i := by
    rintro rfl
    exact ⟨_,_,_,rfl,hmirrors,fun i j hij => hij.elim False.elim fun hij => hij.1⟩
  rw [run_restore]
  split at hbase
  · rename_i huse
    rw [if_pos huse,hspares.cache]
    unfold Workspace.Holds at hbase
    split at hbase
    · rename_i hnone
      obtain ⟨n,u',R,hrun,hmirrors,hold⟩ := hnew hbase
      rw [hnone]
      exact ⟨_,n,u',R,rfl,hrun,hmirrors,hold,hspares⟩
    · rename_i s hsome
      obtain ⟨n,u',x,hrun,hx,R,hstore,hsame⟩ := hbase u ((w.cleared_sameFiles cache).trans h)
      have hfiles : u.SameFiles u' := by
        have hread := readAnew_sameFiles base u
        rwa [hrun] at hread
      rw [cleared_store] at hstore
      have hgrown := hstore.grow (fun i c hc => (newSystem_spares w).cells i c id hc) fun _ _ => id
      rw [hsome]
      refine ⟨_,n,u',_,rfl,hrun,⟨?_,hgrown.copy,_,x,?_,hx,hsame.copy _⟩,?_,?_⟩
      · have hground := ((newSystem.run w).2.cleared_sameFiles cache).trans
          ((newSystem_spares w).ground.symm.trans h)
        exact ⟨(hground.trans hfiles).files,(hground.trans hfiles).folder,
          (hground.trans hfiles).strict⟩
      · simp [show (newSystem.run w).2.systems =
          w.systems ++ [{ tags := .ref w.store.cells.size }] from rfl]
      · rintro _ j ⟨k,rfl,-⟩
        exact Nat.le_trans (newSystem_spares w).size (Nat.le_add_left ..)
      · refine ⟨⟨hspares.ground.files,hspares.ground.folder,hspares.ground.strict⟩,hspares.cache,?_,
          ?_⟩
        · rw [cleared_store]
          exact Nat.le_trans (newSystem_spares w).size (Store.size_double _)
        · intro i c _ hc
          rw [cleared_store] at hc
          exact Store.get?_double ((newSystem_spares w).cells i c id hc)
  · rename_i huse
    obtain ⟨n,u',R,hrun,hmirrors,hold⟩ := hnew hbase
    rw [if_neg huse]
    exact ⟨_,n,u',R,rfl,hrun,hmirrors,hold,hspares⟩

theorem run_read (q : ReadCall) {w t : Workspace}
    (h : (restore w.systems.length q.cache).run (newSystem.run w).2 = (.ok (), t)) :
    q.read.run w = (do
      readSources w.systems.length q.sources
      setAside w.systems.length q.cache
      return w.systems.length : Act Nat).run t := by
  unfold ReadCall.read readAll
  rw [run_bind_ok (run_newSystem _),run_bind_ok h,ReadCall.sources,readSources_map]
  simp only [bind_assoc,pure_bind]

end Act

/-! ## One call -/

/-- How a call ends beside reading without the cache: both fail for the same reason, and nothing is
set aside; or both end with systems that are the same, and so is what is set aside, if the cache is
used. -/
def ReadCall.Ends (q : ReadCall) (w : Workspace) (r r' : Except Failure Nat × Workspace) : Prop :=
  (∃ e, r.1 = .error e ∧ r'.1 = .error e ∧ r.2.cache = (w.cleared q.cache).cache) ∨
    ∃ n n' x x', (r.1 = .ok n ∧ r'.1 = .ok n') ∧
      (r.2.systems[n]? = some x ∧ r'.2.systems[n']? = some x') ∧
      SameSystem r.2.store x r'.2.store x' ∧
      if q.cache.use then
        ∃ s, r.2.cache = (w.cleared q.cache).cache.set q.cache.identifier s ∧
          SameSystem r.2.store s r'.2.store x'
      else r.2.cache = (w.cleared q.cache).cache

section
variable {w t u : Workspace} {q : ReadCall} {key : String} {held : List (String × String)}
  {r r' : Except Failure Nat × Workspace}

theorem ReadCall.Ends.sameReading (h : q.Ends w r r') : SameReading r r' := by
  unfold SameReading
  rcases h with ⟨e,hr,hr',-⟩ | ⟨n,n',x,x',⟨hr,hr'⟩,⟨hx,hx'⟩,hsame,-⟩
  · rw [hr,hr']
    exact rfl
  · rw [hr,hr']
    exact ⟨x,x',hx,hx',hsame⟩

theorem get?_cleared_self (huse : q.cache.use) (hclear : q.cache.clear) :
    (w.cleared q.cache).cache.get? q.cache.identifier = none := by
  rw [Workspace.cleared,if_pos ⟨huse,hclear⟩]
  exact (Table.get?_filter_ne ..).trans (if_pos rfl)

theorem get?_cleared (hother : ¬ (q.cache.use ∧ q.cache.identifier = key)) :
    (w.cleared q.cache).cache.get? key = w.cache.get? key := by
  unfold Workspace.cleared
  split
  · rename_i hclear
    exact (Table.get?_filter_ne ..).trans (if_neg fun hkey => hother ⟨hclear.1,hkey.symm⟩)
  · rfl

theorem ReadCall.Ends.get?_cache (h : q.Ends w r r')
    (hother : ¬ (q.cache.use ∧ q.cache.identifier = key)) :
    r.2.cache.get? key = w.cache.get? key := by
  refine Eq.trans ?_ (get?_cleared hother)
  rcases h with ⟨_,-,-,hcache⟩ | ⟨_,_,_,_,-,-,-,haside⟩
  · rw [hcache]
  · split at haside
    · rename_i huse
      obtain ⟨s,hcache,-⟩ := haside
      rw [hcache]
      exact Table.get?_set_of_ne (fun hkey => hother ⟨huse,hkey.symm⟩) ..
    · rw [haside]

theorem Workspace.Holds.before (h : w.Holds q.cache.identifier held) :
    if q.cache.use then (w.cleared q.cache).Holds q.cache.identifier (q.before held)
    else q.before held = [] := by
  unfold ReadCall.before
  split
  · rename_i huse
    by_cases hclear : q.cache.clear
    · rw [if_neg (by simp [hclear])]
      unfold Workspace.Holds
      rw [get?_cleared_self huse hclear]
    · rw [if_pos ⟨huse,hclear⟩,Workspace.cleared,if_neg (by simp [hclear])]
      exact h
  · rename_i huse
    rw [if_neg (by simp [huse])]

theorem ReadCall.read_ends (hu : w.SameFiles u) (h : w.Holds q.cache.identifier held) :
    q.Ends w (q.read.run w) ((Act.readAnew (q.before held ++ q.sources)).run u) ∧
      w.SameFiles (q.read.run w).2 ∧
      ∀ i c, w.store.get? i = some c → (q.read.run w).2.store.get? i = some c := by
  obtain ⟨t,n,u',R,hrestore,hanew,hmirrors,hnew,hspares⟩ := Act.restore_opens hu q.cache h.before
  have hsources := Act.readSources_abreast hmirrors q.sources
  obtain ⟨R',hmoves,hagrees⟩ := hsources
  rw [Act.run_read q hrestore,Act.run_readAnew_append _ _ hanew,run_bind,run_bind]
  revert hmoves hagrees
  rcases (Act.readSources w.systems.length q.sources).run t with ⟨r,t₁⟩
  rcases (Act.readSources n q.sources).run u' with ⟨r',u₁⟩
  intro hmoves hagrees
  dsimp only at hmoves
  have hfiles := (w.cleared_sameFiles q.cache).symm.trans (hspares.ground.trans hmoves.kept.ground)
  have hcache : t₁.cache = (w.cleared q.cache).cache := hmoves.kept.cache.trans hspares.cache
  have hcells : ∀ i c, w.store.get? i = some c → t₁.store.get? i = some c := by
    intro i c hc
    have hlt : i < w.store.cells.size := (Array.getElem?_eq_some_iff.mp hc).1
    refine hmoves.kept.cells i c ?_ (hspares.cells i c id (by rwa [Workspace.cleared_store]))
    rintro ⟨j,hij⟩
    exact absurd (hnew i j hij) (Nat.not_le.mpr hlt)
  cases r <;> cases r' <;> try exact hagrees.elim
  · obtain rfl := hagrees
    exact ⟨.inl ⟨_,rfl,rfl,hcache⟩,hfiles,hcells⟩
  · obtain ⟨-,hstore,x,x',hx,hx',hsame⟩ := hmoves.mirrors
    dsimp only
    rw [run_bind_ok (Act.run_setAside ..)]
    by_cases huse : q.cache.use
    · rw [if_pos huse]
      refine ⟨.inr ⟨_,n,x,x',⟨rfl,rfl⟩,⟨hx,hx'⟩,⟨R',?_,hsame⟩,?_⟩,
        ⟨hfiles.files,hfiles.folder,hfiles.strict⟩,fun i c hc => Store.get?_double (hcells i c hc)⟩
      · exact hstore.grow (fun _ _ => Store.get?_double) fun _ _ => id
      · rw [if_pos huse]
        refine ⟨_,congrArg (Table.set · _ _) hcache,_,hstore.copy,?_⟩
        rw [Workspace.systemAt_of_getElem? hx]
        exact hsame.copy _
    · rw [if_neg huse]
      exact ⟨.inr ⟨_,n,x,x',⟨rfl,rfl⟩,⟨hx,hx'⟩,⟨R',hstore,hsame⟩,by rwa [if_neg huse]⟩,hfiles,hcells⟩

theorem Workspace.Holds.grow (h : w.Holds key held) (hfiles : w.SameFiles t)
    (hcells : ∀ i c, w.store.get? i = some c → t.store.get? i = some c)
    (hcache : t.cache.get? key = w.cache.get? key) :
    t.Holds key held := by
  unfold Workspace.Holds at h ⊢
  rw [hcache]
  split at h
  · exact h
  · intro u hu
    obtain ⟨n,u',x,hrun,hx,R,hstore,hsame⟩ := h u (hfiles.trans hu)
    exact ⟨n,u',x,hrun,hx,R,hstore.grow hcells fun _ _ => id,hsame⟩

/-! ## Calls one after the other -/

/-- The inputs that have been gathered under the identifiers after one more call, if it was made
where the files of `w` lie. A call that does not use the cache changes nothing. One that ends early
leaves what it has found. -/
def ReadCall.gather (w : Workspace) (held : String → List (String × String)) (q : ReadCall)
    (key : String) :
    List (String × String) :=
  if q.cache.use ∧ q.cache.identifier = key then
    if ((Act.readAnew (q.before (held key) ++ q.sources)).run w).1.toOption.isSome then
      q.before (held key) ++ q.sources
    else q.before (held key)
  else held key

def ReadCall.gathered (w : Workspace) (past : List ReadCall) : String → List (String × String) :=
  past.foldl (ReadCall.gather w) fun _ => []

/-- The workspace after calls, whether they have ended early or not. -/
def ReadCall.serve (w : Workspace) (past : List ReadCall) : Workspace :=
  past.foldl (fun w q => (q.read.run w).2) w

theorem ReadCall.read_holds {held : String → List (String × String)} (hu : w.SameFiles u)
    (h : ∀ key, w.Holds key (held key)) (key : String) :
    (q.read.run w).2.Holds key (q.gather u held key) := by
  obtain ⟨hends,hfiles,hcells⟩ := q.read_ends hu (h q.cache.identifier)
  by_cases hq : q.cache.use ∧ q.cache.identifier = key
  · obtain ⟨huse,rfl⟩ := hq
    rw [gather,if_pos ⟨huse,rfl⟩]
    rcases hends with ⟨e,hr,hr',hcache⟩ | ⟨n,n',x,x',⟨hr,hr'⟩,-,-,haside⟩
    · have hbefore := (h q.cache.identifier).before
      rw [if_pos huse] at hbefore
      rw [hr']
      refine hbefore.grow ((w.cleared_sameFiles q.cache).trans hfiles) ?_ (by rw [hcache])
      rwa [Workspace.cleared_store]
    · rw [if_pos huse] at haside
      obtain ⟨s,hcache,-⟩ := haside
      rw [hr']
      unfold Workspace.Holds
      rw [hcache,Table.get?_set]
      intro v hv
      obtain ⟨hends,-⟩ := q.read_ends (hfiles.trans hv) (h q.cache.identifier)
      rcases hends with ⟨e,hr₂,-⟩ | ⟨_,n₂,_,x₂,⟨-,hr₂⟩,⟨-,hx₂⟩,-,haside⟩
      · cases hr.symm.trans hr₂
      · rw [if_pos huse] at haside
        obtain ⟨s₂,hcache₂,hsame⟩ := haside
        have hs : some s = some s₂ := by
          rw [← Table.get?_set _ q.cache.identifier s,← hcache,hcache₂,Table.get?_set]
        obtain rfl := Option.some.inj hs
        exact ⟨n₂,_,x₂,Prod.ext hr₂ rfl,hx₂,hsame⟩
  · rw [gather,if_neg hq]
    exact (h key).grow hfiles hcells (hends.get?_cache hq)

theorem ReadCall.serve_holds (hcache : w.cache = []) (past : List ReadCall) :
    w.SameFiles (serve w past) ∧ ∀ key, (serve w past).Holds key (gathered w past key) := by
  induction past using List.reverseRecOn with
  | nil =>
    refine ⟨.refl w,fun key => ?_⟩
    unfold Workspace.Holds
    rw [serve,List.foldl_nil,hcache]
    rfl
  | append_singleton past q ih =>
    obtain ⟨hfiles,hholds⟩ := ih
    rw [serve,gathered,List.foldl_append,List.foldl_append]
    obtain ⟨-,hfiles',-⟩ := q.read_ends hfiles.symm (hholds q.cache.identifier)
    exact ⟨hfiles.trans hfiles',fun key => q.read_holds hfiles.symm hholds key⟩

end

def ReadCall.uncached (q : ReadCall) : ReadCall := { q with cache.use := false }

theorem ReadCall.read_uncached (q : ReadCall) : q.uncached.read = Act.readAnew q.sources := by
  simp [uncached,read,Act.readAll,Act.restore,Act.setAside,Act.readAnew,sources,Act.readSources_map]

/-- After any calls a call ends as reading ends, without the cache, of all inputs that those calls
have gathered under its identifier and then of its own; what has been gathered is left out if the
call clears the cache or does not use it. So the cache makes no difference where nothing has been
gathered. -/
theorem read_after_calls {w u : Workspace} (hcache : w.cache = []) (hu : w.SameFiles u)
    (past : List ReadCall) (q : ReadCall) :
    let before := q.before (ReadCall.gathered w past q.cache.identifier)
    let r := q.read.run (ReadCall.serve w past)
    SameReading r ((Act.readAnew (before ++ q.sources)).run u) ∧
      (before = [] → SameReading r (q.uncached.read.run u)) := by
  intro before r
  obtain ⟨hfiles,hholds⟩ := ReadCall.serve_holds hcache past
  obtain ⟨hends,-⟩ := q.read_ends (hfiles.symm.trans hu) (hholds q.cache.identifier)
  refine ⟨hends.sameReading,fun hbefore => ?_⟩
  have hsame : SameReading r ((Act.readAnew (before ++ q.sources)).run u) := hends.sameReading
  rwa [hbefore,List.nil_append,← q.read_uncached] at hsame

/-- Annotations of the module `a` that name the module `b` first, which is read later. -/
def annotatedAhead : Workspace where
  files :=
    { files :=
        [(["a.qface"], "module a 1.0".toUTF8.toList),
          (["a.yaml"], "b: \x7bk: 1\x7d\na: \x7bk: 2\x7d".toUTF8.toList),
            (["b.qface"], "module b 1.0".toUTF8.toList)] }

def bothCached : ReadCall :=
  { inputs := ["a.qface","b.qface"], cache := { use := true, clear := false } }

def Workspace.tag? (w : Workspace) (n : Nat) (name key : String) : Option Value :=
  ((w.systemAt n).lookup name).toOption.bind fun e =>
    w.store.follow ((w.systemAt n).tagsOf e) [.text key]

/-- The annotations fail in the first call, because there is no module `b` yet. In the second one
there is, from the cache, and the module `a` gets its tag. -/
theorem annotatedAhead_twice :
    let r := bothCached.read.run (ReadCall.serve annotatedAhead [bothCached])
    let r' := bothCached.uncached.read.run annotatedAhead
    SameReading r ((Act.readAnew (bothCached.sources ++ bothCached.sources)).run annotatedAhead) ∧
      (r.1 = .ok 1 ∧ r.2.tag? 1 "a" "k" = some (.int 2)) ∧ r'.1 = .ok 0 ∧
        r'.2.tag? 0 "a" "k" = none := by
  have hgathered : ReadCall.gathered annotatedAhead [bothCached] "system" = bothCached.sources := by
    decide +kernel
  have hcached : (bothCached.read.run (ReadCall.serve annotatedAhead [bothCached])).1 = .ok 1 ∧
      (bothCached.read.run (ReadCall.serve annotatedAhead [bothCached])).2.tag? 1 "a" "k" =
        some (.int 2) := by
    decide +kernel
  have huncached : (bothCached.uncached.read.run annotatedAhead).1 = .ok 0 ∧
      (bothCached.uncached.read.run annotatedAhead).2.tag? 0 "a" "k" = none := by decide +kernel
  have hbefore : bothCached.before bothCached.sources = bothCached.sources :=
    if_pos ⟨rfl,Bool.false_ne_true⟩
  have hsame := (read_after_calls (w := annotatedAhead) rfl (.refl _) [bothCached] bothCached).1
  rw [show bothCached.cache.identifier = "system" from rfl,hgathered,hbefore] at hsame
  exact ⟨hsame,hcached,huncached⟩

end InterfaceKit
