import InterfaceKit.Proofs.Documents.Built
import InterfaceKit.Proofs.Documents.Spared
import InterfaceKit.Proofs.Model.Counterpart

/-!
# Texts that are read into one system

Texts are read into an empty system one after the other, and each of them would be accepted alone.
Then all are accepted, and none interferes with another: the system has the modules that the heads
of the texts name, and each is what the last text of this name gives when it is read alone. So the
order of texts with different names does not matter, nor does reading a text again.
-/
namespace InterfaceKit
open Data Grammar Lexical Model

/-! ## One text in two stores -/

/-- Two walks over one tree. What they add to their stores begins at the cells `k` and `k'`. -/
def Model.Tandem.offset (f : Nat → Nat) (k k' : Nat) : Tandem where
  const := Eq
  kind := Eq
  renumber := f
  store s s' := s.Aligned k k' s'
  tags s _ := Value.Match (Offset k k' s.cells.size)
  kind_enum := same.kind_enum
  kind_flag := same.kind_flag
  isFlag_eq := @same.isFlag_eq
  alloc {s s'} h := by
    have hsize := Store.size_alloc s (.map [])
    refine ⟨⟨.ref ⟨h.base,?_,h.size⟩,h.alloc (.map .nil .nil)⟩,
      fun v v' hv => hv.mono fun _ _ => Offset.mono (by omega)⟩
    rw [hsize]
    exact Nat.lt_succ_self _
  load {s s'} h text d hd := by
    have hsize := s.size_append d.store
    exact ⟨(Yaml.read_proper text d hd).aligned h,
      fun v v' hv => hv.mono fun _ _ => Offset.mono (by omega)⟩

theorem ofDocument_offset (f : Nat → Nat) (number : Nat) (t : Grammar.Tree) (s s' : Store) :
    (Draft.ofDocument number t s).1 = (Draft.ofDocument (f number) t s').1 ∧
      (Draft.ofDocument number t s).2.Like (.offset f s.cells.size s'.cells.size)
        (Draft.ofDocument (f number) t s').2 :=
  Corresponds.ofDocument (T := .offset f s.cells.size s'.cells.size) (.refl (fun _ => rfl) [t])
    (Store.Aligned.start s s') number

theorem Data.Store.Matching.grow {R : Nat → Nat → Prop} {s s' t t' : Store} (h : s.Matching R s')
    (ht : ∀ i c, s.get? i = some c → t.get? i = some c)
    (ht' : ∀ i c, s'.get? i = some c → t'.get? i = some c) :
    t.Matching R t' where
  left := h.left
  right := h.right
  cells hij := by
    obtain ⟨c,c',hc,hc',hmatch⟩ := h.cells hij
    exact ⟨c,c',ht _ c hc,ht' _ c' hc',hmatch⟩

/-- Two modules are the same but for their numbers, each with the cells of its store that hold its
tags. -/
def SameContent (s : Store) (m : Module) (s' : Store) (m' : Module) : Prop :=
  ∃ R f, s.Matching R s' ∧ m.Like ⟨Value.Match R,Eq,Eq,fun o o' => o' = o.renumber f⟩ m'

/-! ## Texts that are accepted -/

/-- What comes of reading a text into a new system. -/
def readAlone (text : String) : Except Failure Unit × Workspace :=
  (Act.readSystemText 0 .full text).run (Act.newSystem.run {}).2

def headName (text : String) : String := (parse .document (Source.ofText text.toList)).headName

/-- The module is what was read of a text, and its cells are still there. -/
def Stems (text : String) (store : Store) (m : Module) : Prop :=
  ∃ (t : Grammar.Tree) (c : Cursor) (number : Nat) (base : Store),
    parse .document (Source.ofText text.toList) = .parsed t c ∧
    (Draft.ofDocument number t base).2.module = some m ∧
    ∀ i c, (Draft.ofDocument number t base).2.store.get? i = some c → store.get? i = some c

namespace Stems
variable {text : String} {s s' : Store} {m m' : Module}

theorem grow (h : Stems text s m) (hs : ∀ i c, s.get? i = some c → s'.get? i = some c) :
    Stems text s' m := by
  obtain ⟨t,c,number,base,hparse,hm,hcells⟩ := h
  exact ⟨t,c,number,base,hparse,hm,fun i c hi => hs i c (hcells i c hi)⟩

theorem sameContent (h : Stems text s m) (h' : Stems text s' m') : SameContent s m s' m' := by
  obtain ⟨t,c,number,base,hparse,hm,hcells⟩ := h
  obtain ⟨t',c',number',base',hparse',hm',hcells'⟩ := h'
  obtain ⟨rfl,-⟩ := Outcome.parsed.inj (hparse.symm.trans hparse')
  have hlike := (ofDocument_offset (fun _ => number') number t base base').2
  have hmodule := hlike.module
  rw [hm,hm'] at hmodule
  cases hmodule with
  | some hmodule => exact ⟨_,_,hlike.store.matching.grow hcells hcells',hmodule⟩

end Stems

variable {w : Workspace} {n : Nat} {texts texts' : List String} {text : String} {s : System}

/-- A text that is accepted alone is accepted by every system, which takes in its module. -/
theorem readSystemText_accepted (h : (readAlone text).1 = .ok ()) (hs : w.systems[n]? = some s) :
    ∃ w' s' m, (Act.readSystemText n .full text).run w = (.ok (), w') ∧ w'.systems[n]? = some s' ∧
      s.Takes m s' ∧
      m.name = headName text ∧ Stems text w'.store m ∧ ∀ i c, w.store.get? i = some c →
      w'.store.get? i = some c := by
  cases hparse : parse .document (Source.ofText text.toList) with
  | failed e c =>
    have hfailed : (readAlone text).1 = _ := Act.readSource_failed hparse _
    rw [hfailed] at h
    contradiction
  | parsed t c =>
    obtain ⟨doc,rfl⟩ := exists_document hparse
    obtain ⟨hcells,hhead⟩ := ofDocument_begins doc (w.nextModule n) w.store
    obtain ⟨m,hm,hnamed⟩ := Option.map_eq_some_iff.mp hhead
    have hok : (Draft.ofDocument (w.nextModule n) doc.tree w.store).1 = .ok () := by
      rw [readAlone,Act.readSystemText,Act.readSource_parsed hparse] at h
      rw [(ofDocument_offset (fun _ => 0) _ doc.tree w.store (Act.newSystem.run {}).2.store).1]
      exact (readTree_ok rfl h).1
    have hrun : ∃ log, (Act.readSystemText n .full text).run w = (.ok (),
        { w with
          store := (Draft.ofDocument (w.nextModule n) doc.tree w.store).2.store
          log
          systems := w.systems.modify n fun s => (s.register m).2 }) := by
      refine ⟨w.log ++ (Outcome.parsed doc.tree c).log "<TEXT>" (Source.ofText text.toList)
        ++ (Draft.ofDocument (w.nextModule n) doc.tree w.store).2.log,?_⟩
      rw [Act.readSystemText,Act.readSource_parsed hparse]
      simp only [Act.readTree,ExceptT.run,Act.nextModule_log,hm,hok]
      rfl
    obtain ⟨log,hrun⟩ := hrun
    obtain ⟨s',hs',htakes⟩ := System.takes_of_modify (n := n) (m := m) rfl hs
    rw [if_pos rfl] at htakes
    have hname : m.name = headName text := by
      rw [headName,hparse,Outcome.headName_document,(Prod.mk.inj hnamed).1]
    exact ⟨_,s',m,hrun,hs',htakes,hname,⟨doc.tree,c,_,w.store,hparse,hm,fun _ _ => id⟩,hcells⟩

/-! ## Many texts -/

def Act.readTexts (n : Nat) (texts : List String) : Act Unit := forM texts (readSystemText n .full)

def lastNamed (texts : List String) (name : String) : Option String :=
  (texts.filter fun t => headName t = name).getLast?

theorem lastNamed_append (texts texts' : List String) (name : String) :
    lastNamed (texts ++ texts') name = (lastNamed texts' name).or (lastNamed texts name) := by
  rw [lastNamed,List.filter_append,List.getLast?_append]
  rfl

theorem lastNamed_singleton (text name : String) :
    lastNamed [text] name = if headName text = name then some text else none := by
  by_cases h : headName text = name <;> simp [lastNamed,h]

theorem lastNamed_perm (h : texts.Perm texts') (hnodup : (texts.map headName).Nodup)
    (name : String) : lastNamed texts name = lastNamed texts' name := by
  have hperm := h.filter fun t => headName t = name
  have hone : (texts.filter fun t => headName t = name).length ≤ 1 := by
    have hcount := List.nodup_iff_count_le_one.mp hnodup name
    rw [List.count,List.countP_map,List.countP_eq_length_filter] at hcount
    simpa only [Function.comp_def,beq_eq_decide] using hcount
  unfold lastNamed
  generalize texts.filter _ = xs at hperm hone
  generalize texts'.filter _ = ys at hperm
  rcases xs with _ | ⟨x,_ | ⟨y,xs⟩⟩
  · rw [List.nil_perm.mp hperm]
  · rw [List.singleton_perm.mp hperm]
  · simp at hone

theorem lastNamed_twice (before after : List String) (text name : String) :
    lastNamed (before ++ text :: text :: after) name = lastNamed (before ++ text :: after) name := by
  have hcons : ∀ rest, lastNamed (text :: rest) name =
      (lastNamed rest name).or (lastNamed [text] name) :=
    fun rest => lastNamed_append [text] rest name
  rw [lastNamed_append,lastNamed_append,hcons,hcons]
  cases lastNamed after name <;> cases lastNamed [text] name <;> rfl

theorem eraseDups_twice (ms ns : List String) (n : String) :
    (ms ++ n :: n :: ns).eraseDups = (ms ++ n :: ns).eraseDups := by
  rw [List.eraseDups_append,List.eraseDups_append]
  by_cases h : n ∈ ms
  · simp [h,List.removeAll]
  · simp [h,List.removeAll,List.eraseDups_cons]

/-- What the texts have left in a system that was empty in the workspace `w₀`. -/
structure Gathered (w₀ : Workspace) (tags : Value) (n : Nat) (texts : List String) (w : Workspace) :
    Prop where
  cells : ∀ i c, w₀.store.get? i = some c → w.store.get? i = some c
  system : ∃ s, w.systems[n]? = some s ∧ s.tags = tags ∧
    s.directory.names = (texts.map headName).eraseDups ∧
    ∀ name, Option.Rel (fun t id => ∃ m, s.module? id = some m ∧ Stems t w.store m)
      (lastNamed texts name) (s.moduleNamed? name)

theorem readTexts_gathered (hs : w.systems[n]? = some s)
    (hempty : s.directory = []) (htexts : ∀ t ∈ texts, (readAlone t).1 = .ok ()) :
    ∃ w', (Act.readTexts n texts).run w = (.ok (), w') ∧ Gathered w s.tags n texts w' := by
  induction texts using List.reverseRecOn with
  | nil =>
    refine ⟨w,rfl,fun _ _ => id,s,hs,rfl,by rw [hempty]; rfl,fun name => ?_⟩
    rw [System.moduleNamed?,hempty]
    exact .none
  | append_singleton texts text ih =>
    obtain ⟨w₁,hrun,hcells,s₁,hs₁,htags,hnames,hmodules⟩ := ih fun t ht => htexts t (by simp [ht])
    obtain ⟨w₂,s₂,m,hrun₂,hs₂,htakes,hm,hstems,hcells₂⟩ :=
      readSystemText_accepted (htexts text (by simp)) hs₁
    refine ⟨w₂,?_,fun i c hi => hcells₂ i c (hcells i c hi),s₂,hs₂,htakes.tags.trans htags,?_,?_⟩
    · rw [Act.readTexts,List.forM_append,run_bind,
        show (forM texts (Act.readSystemText n .full)).run w = _ from hrun]
      dsimp only
      rw [List.forM_cons,run_bind,hrun₂]
      rfl
    · rw [htakes.names,hnames,hm,List.map_append]
      refine Eq.trans ?_ (Table.eraseDups_concat _ (headName text)).symm
      split <;> simp
    · intro name
      rw [lastNamed_append,lastNamed_singleton]
      by_cases hname : headName text = name
      · obtain ⟨id,hid,hmodule⟩ := htakes.current
        rw [if_pos hname,← hname,← hm,hid]
        exact .some ⟨m,hmodule,hstems⟩
      · rw [if_neg hname,htakes.others name (by rw [hm]; exact Ne.symm hname),Option.none_or]
        rcases rel_cases (hmodules name) with ⟨ht,hid⟩ | ⟨t,id,ht,hid,x,hx,hstems⟩
        · rw [ht,hid]
          exact .none
        · rw [ht,hid]
          exact .some ⟨x,htakes.archived id x hx,hstems.grow hcells₂⟩

def Model.System.called? (s : System) (name : String) : Option Module :=
  (s.moduleNamed? name).bind s.module?

/-- Two workspaces whose systems `n` are the same but for the order and the numbers of their
modules: under each name they have the same content or nothing, and every name that is looked up, in
the system or from one of its modules, leads to the same. -/
structure Agree (n : Nat) (w w' : Workspace) : Prop where
  contents : ∀ name, Option.Rel (SameContent w.store · w'.store ·) ((w.systemAt n).called? name)
    ((w'.systemAt n).called? name)
  lookup : ∀ name, (w.systemAt n).SameAnswer (w'.systemAt n) ((w.systemAt n).lookup name)
    ((w'.systemAt n).lookup name)
  lookupFrom : ∀ module id id', (w.systemAt n).moduleNamed? module = some id →
    (w'.systemAt n).moduleNamed? module = some id' → ∀ name fragment,
      (w.systemAt n).SameAnswer (w'.systemAt n) ((w.systemAt n).lookupFrom id name fragment)
        ((w'.systemAt n).lookupFrom id' name fragment)

/-- What is left depends on the last text of each name only. -/
theorem Gathered.agree {w₀ w' : Workspace} {tags : Value}
    (h : Gathered w₀ tags n texts w) (h' : Gathered w₀ tags n texts' w')
    (hlast : ∀ name, lastNamed texts name = lastNamed texts' name) : Agree n w w' := by
  obtain ⟨-,s,hs,-,-,hmodules⟩ := h
  obtain ⟨-,s',hs',-,-,hmodules'⟩ := h'
  have hnames : ∀ name, s.moduleNamed? name = none ∧ s'.moduleNamed? name = none ∨
      ∃ id id' m m', (s.moduleNamed? name = some id ∧ s.module? id = some m) ∧
        (s'.moduleNamed? name = some id' ∧ s'.module? id' = some m') ∧
          SameContent w.store m w'.store m' := by
    intro name
    have hname' := hmodules' name
    rw [← hlast name] at hname'
    rcases rel_cases (hmodules name) with ⟨ht,hid⟩ | ⟨t,id,ht,hid,m,hm,hstems⟩
    · rw [ht] at hname'
      rcases rel_cases hname' with ⟨-,hid'⟩ | ⟨_,_,ht',-⟩
      · exact .inl ⟨hid,hid'⟩
      · contradiction
    · rw [ht] at hname'
      rcases rel_cases hname' with ⟨ht',-⟩ | ⟨t',id',ht',hid',m',hm',hstems'⟩
      · contradiction
      · obtain rfl := Option.some.inj ht'
        exact .inr ⟨id,id',m,m',⟨hid,hm⟩,⟨hid',hm'⟩,hstems.sameContent hstems'⟩
  have halike : s.Alike s' := by
    intro name
    rcases hnames name with ⟨hid,hid'⟩ | ⟨id,id',m,m',⟨hid,hm⟩,⟨hid',hm'⟩,R,f,-,hlike⟩
    · rw [hid,hid']
      exact .none
    · rw [hid,hid']
      exact .some ⟨m,m',hm,hm',hlike.content?⟩
  rw [← Workspace.systemAt_of_getElem? hs,← Workspace.systemAt_of_getElem? hs'] at halike hnames
  refine ⟨fun name => ?_,halike.lookup,fun _ _ _ hid hid' => halike.lookupFrom hid hid'⟩
  unfold System.called?
  rcases hnames name with ⟨hid,hid'⟩ | ⟨id,id',m,m',⟨hid,hm⟩,⟨hid',hm'⟩,hsame⟩
  · rw [hid,hid']
    exact .none
  · rw [hid,hid',Option.bind_some,Option.bind_some,hm,hm']
    exact .some hsame

/-- Texts that are each accepted alone do not interfere. All are accepted; the names of the modules
are those of the heads in the order in which they first occur; what was there before, with the tags
of the system, is kept; and a module has the content that the last text of its name gives when it is
read alone. So texts of different names may be read in any order, and reading one of them twice is
reading it once. -/
theorem readTexts_independent {w : Workspace} {n : Nat} {s : System} (hs : w.systems[n]? = some s)
    (hempty : s.directory = []) {texts : List String}
    (htexts : ∀ t ∈ texts, (readAlone t).1 = .ok ()) :
    let r := (Act.readTexts n texts).run w
    (r.1 = .ok () ∧ (r.2.systemAt n).directory.names = (texts.map headName).eraseDups) ∧
      ((r.2.systemAt n).tags = s.tags ∧ ∀ i c, w.store.get? i = some c → r.2.store.get? i = some c) ∧
      (∀ name t, lastNamed texts name = some t →
        ∃ m m', (r.2.systemAt n).called? name = some m ∧
          ((readAlone t).2.systemAt 0).called? name = some m' ∧
          SameContent (readAlone t).2.store m' r.2.store m) ∧
      (∀ texts', texts.Perm texts' → (texts.map headName).Nodup →
        Agree n r.2 ((Act.readTexts n texts').run w).2) ∧
      ∀ before t after, texts = before ++ t :: after →
        let r' := (Act.readTexts n (before ++ t :: t :: after)).run w
        (r'.2.systemAt n).directory.names = (r.2.systemAt n).directory.names ∧ Agree n r.2 r'.2 := by
  intro r
  obtain ⟨w',hrun,hgathered⟩ := readTexts_gathered hs hempty htexts
  have hr : r = (.ok (), w') := hrun
  clear_value r
  subst hr
  obtain ⟨s',hs',htags,hnames,hmodules⟩ := hgathered.system
  dsimp only
  rw [Workspace.systemAt_of_getElem? hs']
  refine ⟨⟨rfl,hnames⟩,⟨htags,hgathered.cells⟩,?_,?_,?_⟩
  · intro name t ht
    have hmem := List.mem_of_getLast? ht
    obtain ⟨hmem,hname⟩ : t ∈ texts ∧ headName t = name := by simpa using hmem
    obtain ⟨w₁,s₁,m₁,hrun₁,hs₁,htakes,hm₁,hstems₁,-⟩ :=
      readSystemText_accepted (htexts t hmem) (w := (Act.newSystem.run {}).2) (n := 0) rfl
    have hone : readAlone t = (.ok (), w₁) := hrun₁
    obtain ⟨id₁,hid₁,hmodule₁⟩ := htakes.current
    rcases rel_cases (hmodules name) with ⟨hnone,-⟩ | ⟨t',id,ht',hid,m,hm,hstems⟩
    · rw [ht] at hnone
      contradiction
    · obtain rfl := Option.some.inj (ht.symm.trans ht')
      refine ⟨m,m₁,?_,?_,?_⟩
      · rw [System.called?,hid]
        exact hm
      · rw [hone,Workspace.systemAt_of_getElem? hs₁,System.called?,← hname,← hm₁,hid₁]
        exact hmodule₁
      · rw [hone]
        exact hstems₁.sameContent hstems
  · intro texts' hperm hnodup
    obtain ⟨w₂,hrun₂,hgathered₂⟩ := readTexts_gathered hs hempty fun t ht =>
      htexts t (hperm.mem_iff.mpr ht)
    rw [hrun₂]
    exact hgathered.agree hgathered₂ (lastNamed_perm hperm hnodup)
  · rintro before t after rfl
    have htwice : ∀ u ∈ before ++ t :: t :: after, (readAlone u).1 = .ok () :=
      fun u hu => htexts u (by simpa using hu)
    obtain ⟨w₂,hrun₂,hgathered₂⟩ := readTexts_gathered hs hempty htwice
    obtain ⟨s₂,hs₂,-,hnames₂,-⟩ := hgathered₂.system
    rw [hrun₂]
    refine ⟨?_,hgathered.agree hgathered₂ fun name => (lastNamed_twice before after t name).symm⟩
    dsimp only
    rw [Workspace.systemAt_of_getElem? hs₂,hnames₂,hnames]
    simp only [List.map_append,List.map_cons,eraseDups_twice]

/-- The module `a` is read twice, with another one between; the second text counts. -/
theorem second_text_counts :
    let first := "module a 1.0 struct S \x7b\x7d"
    let other := "module b 1.0 interface I \x7b a.S s \x7d"
    let second := "@k: [1]\nmodule a 2.0"
    let w := (Act.newSystem.run {}).2
    let r := (Act.readTexts 0 [first,other,second]).run w
    (∀ t ∈ [first, other,second], (readAlone t).1 = .ok ()) ∧ r.1 = .ok () ∧
      (r.2.systemAt 0).directory.names = ["a","b"] ∧
      (∃ m m', (r.2.systemAt 0).called? "a" = some m ∧
        ((readAlone second).2.systemAt 0).called? "a" = some m' ∧
        SameContent (readAlone second).2.store m' r.2.store m) ∧
      Agree 0 r.2 ((Act.readTexts 0 [first,other,second,second]).run w).2 := by
  intro first other second w r
  have hfirst : (readAlone first).1 = .ok () ∧ headName first = "a" := by decide +kernel
  have hother : (readAlone other).1 = .ok () ∧ headName other = "b" := by decide +kernel
  have hsecond : (readAlone second).1 = .ok () ∧ headName second = "a" := by decide +kernel
  clear_value first other second
  have htexts : ∀ t ∈ [first, other,second], (readAlone t).1 = .ok () := by
    simp [hfirst.1,hother.1,hsecond.1]
  have hlast : lastNamed [first,other,second] "a" = some second := by
    simp [lastNamed,hfirst.2,hother.2,hsecond.2]
  obtain ⟨⟨hok,hnames⟩,-,hcontent,-,htwice⟩ := readTexts_independent (w := w) (n := 0) rfl rfl htexts
  have hheads : ([first,other,second].map headName).eraseDups = ["a","b"] := by
    simp only [List.map_cons,List.map_nil,hfirst.2,hother.2,hsecond.2]
    decide
  exact ⟨htexts,hok,hnames.trans hheads,hcontent "a" second hlast,
    (htwice [first,other] second [] rfl).2⟩

end InterfaceKit
