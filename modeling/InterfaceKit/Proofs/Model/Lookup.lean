import InterfaceKit.Proofs.Model.Naming
import InterfaceKit.Proofs.Model.SplitName

/-!
# Looking up names

A system knows each of its modules under the module's own name, and the symbols of a module stand
under theirs. So a qualified name leads back to its symbol, unless a module has that very name. A
name whose module lacks the type is looked up once more by the type alone, and then another module
or the system may answer to it. A type has no dot, so that search is the last one, and it is known
which names are not found and what is said about them.
-/
namespace InterfaceKit.Model
open Lexical

/-! ## Contents -/

namespace Module
variable {m : Module} {n f : String} {p x : Place}

theorem lookup_placesIn {α : Type} (t : Table α) (place : String → Place) (n : String) :
    (placesIn t place).lookup n = (t.get? n).map fun _ => place n := by
  induction t with
  | nil => rfl
  | cons e t ih =>
    obtain ⟨k,b⟩ := e
    have hcons : (placesIn ((k, b) :: t) place).lookup n =
        if n = k then some (place k) else (placesIn t place).lookup n :=
      Table.get?_cons k (place k) (placesIn t place) n
    rw [hcons,ih,Table.get?_cons]
    by_cases hn : n = k
    · simp [hn]
    · simp [hn]

theorem content?_module (h : m.content? .module n = some p) :
    (p = .interface n ∧ (m.interfaces.get? n).isSome) ∨ (p = .struct n ∧ (m.structs.get? n).isSome) ∨
      (p = .enum n ∧ (m.enums.get? n).isSome) := by
  simp only [content?,contentTables,List.findSome?_cons,List.findSome?_nil,lookup_placesIn] at h
  cases hi : m.interfaces.get? n with
  | some i => exact .inl ⟨by simpa [hi,eq_comm] using h,rfl⟩
  | none =>
    cases hs : m.structs.get? n with
    | some s => exact .inr (.inl ⟨by simpa [hi,hs,eq_comm] using h,rfl⟩)
    | none =>
      cases he : m.enums.get? n with
      | some e => exact .inr (.inr ⟨by simpa [hi,hs,he,eq_comm] using h,rfl⟩)
      | none => simp [hi,hs,he] at h

theorem containerName?_content (hp : m.content? .module n = some p) (hx : m.content? p f = some x) :
    containerName? x = some n := by
  have hplace : ∀ {α : Type} (t : Table α) (place : String → Place),
      (placesIn t place).lookup f = some x → x = place f := by
    intro α t place h
    rw [lookup_placesIn] at h
    obtain ⟨_,_,rfl⟩ := Option.map_eq_some_iff.mp h
    rfl
  obtain ⟨ts,hts,hlookup⟩ := List.exists_of_findSome?_eq_some hx
  rcases content?_module hp with ⟨rfl,h⟩ | ⟨rfl,h⟩ | ⟨rfl,h⟩
  · obtain ⟨i,hi⟩ := Option.isSome_iff_exists.mp h
    simp only [contentTables,hi,List.mem_cons,List.not_mem_nil,or_false] at hts
    rcases hts with rfl | rfl | rfl <;> rw [hplace _ _ hlookup] <;> rfl
  · obtain ⟨s,hs⟩ := Option.isSome_iff_exists.mp h
    simp only [contentTables,hs,List.mem_singleton] at hts
    subst hts
    rw [hplace _ _ hlookup]
    rfl
  · obtain ⟨e,he⟩ := Option.isSome_iff_exists.mp h
    simp only [contentTables,he,List.mem_singleton] at hts
    subst hts
    rw [hplace _ _ hlookup]
    rfl

theorem qualifiedName_content (hp : m.content? .module n = some p) (hx : m.content? p f = some x)
    (name : String) : m.qualifiedName x name = m.name ++ "." ++ n ++ "#" ++ name := by
  have hc := containerName?_content hp hx
  cases x <;> simp_all [qualifiedName,containerName?]

theorem qualifiedName_symbol (hp : m.content? .module n = some p) (name : String) :
    m.qualifiedName p name = m.qualify name := by
  rcases content?_module hp with ⟨rfl,-⟩ | ⟨rfl,-⟩ | ⟨rfl,-⟩ <;> rfl

namespace Named

/-- All names are spelt as names are. -/
theorem isName (h : m.Named) {c : Common} (hc : m.common? p = some c) : IsName c.name.toList := by
  obtain ⟨hname,hspelt⟩ := (named_iff.mp h).common? hc
  rw [hname]
  exact hspelt

theorem exists_common (h : m.Named) (hp : m.content? .module n = some p) :
    ∃ c, m.common? p = some c ∧ c.name = n := by
  rcases content?_module hp with ⟨rfl,hx⟩ | ⟨rfl,hx⟩ | ⟨rfl,hx⟩
  · obtain ⟨x,hx⟩ := Option.isSome_iff_exists.mp hx
    exact ⟨x.common,by simp [common?,hx],(h.interfaces.get? hx).common.1⟩
  · obtain ⟨x,hx⟩ := Option.isSome_iff_exists.mp hx
    exact ⟨x.common,by simp [common?,hx],(h.structs.get? hx).common.1⟩
  · obtain ⟨x,hx⟩ := Option.isSome_iff_exists.mp hx
    exact ⟨x.common,by simp [common?,hx],(h.enums.get? hx).common.1⟩

end Named

end Module

/-! ## Systems -/

/-- A system knows its modules under their own names. -/
structure System.Named (s : System) : Prop where
  listed : s.directory.All fun n id => ∃ m, s.module? id = some m ∧ m.name = n
  distinct : s.directory.names.Nodup
  modules : ∀ m ∈ s.archive, m.Named

/-- The symbols of a system are at the places that they were made for. -/
def System.Placed (s : System) : Prop := ∀ id m, s.module? id = some m → m.Placed id

namespace System.Placed
variable {s : System}

theorem register (hs : s.Placed) {m : Module} (hm : m.Placed s.archive.length) :
    (s.register m).2.Placed := by
  intro id m' hm'
  rcases Nat.lt_or_ge id s.archive.length with hlt | hge
  · exact hs id m' ((List.getElem?_append_left hlt).symm.trans hm')
  · have hlast : [m][id - s.archive.length]? = some m' :=
      (List.getElem?_append_right hge).symm.trans hm'
    obtain ⟨hlt,rfl⟩ := List.getElem?_eq_some_iff.mp hlast
    obtain rfl : id = s.archive.length := by simp only [List.length_singleton] at hlt; omega
    simpa using hm

variable (hs : s.Placed)
include hs

theorem common? {h : Handle} {c : Common} (hc : s.common? h = some c) :
    c.Placed h.module h.place := by
  obtain ⟨m,hm,hc⟩ := Option.bind_eq_some_iff.mp hc
  exact (hs _ m hm).common? hc

theorem module_originAt (h : Handle) : (s.originAt h).module = h.module := by
  rw [originAt]
  cases hc : s.common? h with
  | none => rfl
  | some c => exact (hs.common? hc).module

theorem moduleAt_originAt (h : Handle) (depth : Nat) : (s.originAt h).moduleAt depth = h.module := by
  have htypes : ∀ k ∈ (s.originAt h).types, k = h.module := by
    rw [originAt]
    cases hc : s.common? h with
    | none => exact fun k hk => List.mem_singleton.mp hk
    | some c =>
      intro k hk
      rw [Option.map_some,Option.getD_some,(hs.common? hc).types] at hk
      exact List.eq_of_mem_replicate hk
  rw [Origin.moduleAt,List.getD_eq_getElem?_getD,hs.module_originAt]
  cases hk : (s.originAt h).types[depth]? with
  | none => rfl
  | some k => exact htypes k (List.mem_of_getElem? hk)

theorem owner_originAt {id : Nat} {p q : Place} {part : Section}
    (hp : (s.common? ⟨id,p⟩).isSome = true) (hholds : q.Holds part p) :
    (s.originAt ⟨id,p⟩).owner = ⟨id,q⟩ := by
  obtain ⟨c,hc⟩ := Option.isSome_iff_exists.mp hp
  rw [originAt,hc]
  exact (hs.common? hc).owner q part hholds

end System.Placed

namespace System

def qualifiedName? (s : System) (h : Handle) : Option String := do
  let m ← s.module? h.module
  let c ← m.common? h.place
  return m.qualifiedName h.place c.name

theorem Named.register {s : System} {m : Module} (h : s.Named) (hm : m.Named) :
    (s.register m).2.Named := by
  refine ⟨?_,Table.nodup_names_set h.distinct _ _,?_⟩
  · have hold : s.directory.All fun n id =>
        ∃ m', (s.archive ++ [m])[id]? = some m' ∧ m'.name = n := by
      intro e he
      obtain ⟨m',hm',hn⟩ := h.listed e he
      exact ⟨m',by rw [List.getElem?_append_left (List.getElem?_eq_some_iff.mp hm').1]; exact hm',hn⟩
    exact hold.set ⟨m,by simp,rfl⟩
  · intro m' hm'
    rcases List.mem_append.mp hm' with hm' | hm'
    · exact h.modules m' hm'
    · exact List.mem_singleton.mp hm' ▸ hm

section
variable {s : System} {id : Nat} {m : Module} {n t f : String} {p x : Place} {e : Entity}

theorem Named.module (h : s.Named) (hm : s.module? id = some m) : m.Named :=
  h.modules m (List.mem_of_getElem? hm)

theorem Named.name_of_moduleNamed? (h : s.Named) (hn : s.moduleNamed? n = some id) :
    ∃ m, s.module? id = some m ∧ m.name = n := h.listed.get? hn

theorem Named.moduleNamed?_name (h : s.Named) (hid : id ∈ s.modules) (hm : s.module? id = some m) :
    s.moduleNamed? m.name = some id := by
  obtain ⟨⟨n,_⟩,he,rfl⟩ := List.mem_map.mp hid
  obtain ⟨m',hm',rfl⟩ := h.listed _ he
  obtain rfl := Option.some.inj (hm'.symm.trans hm)
  exact Table.get?_of_mem h.distinct he

/-- No module has a number sign in its name. -/
theorem Named.moduleNamed?_sign (h : s.Named) (hn : '#' ∈ n.toList) : s.moduleNamed? n = none := by
  rw [Option.eq_none_iff_forall_ne_some]
  intro id hid
  obtain ⟨m,hm,rfl⟩ := h.name_of_moduleNamed? hid
  exact (h.module hm).common.2.sign_notMem hn

theorem lookup_module (hn : s.moduleNamed? n = some id) :
    s.lookup n = .ok (.symbol ⟨id,.module⟩) := by
  simp [lookup,lookupPlain,hn]

theorem lookupPlain_error (hn : s.moduleNamed? n = none) (hsystem : n ≠ "system") :
    s.lookupPlain n = .error (.unknownName n) := by
  simp [lookupPlain,hn,hsystem]

theorem ne_system_of_dot (h : '.' ∈ n.toList) : n ≠ "system" := by
  rintro rfl
  exact absurd h (by decide)

theorem localSymbol?_symbol (hm : s.module? id = some m) (hp : m.content? .module t = some p) :
    s.localSymbol? id t none = some (.ok (.symbol ⟨id,p⟩)) := by
  simp [localSymbol?,hm,hp]

theorem localSymbol?_fragment (hm : s.module? id = some m) (hp : m.content? .module t = some p)
    (hx : m.content? p f = some x) (hf : f ≠ "") :
    s.localSymbol? id t (some f) = some (.ok (.symbol ⟨id,x⟩)) := by
  simp [localSymbol?,hm,hp,hx]

/-- The qualified name of a symbol leads back to it. -/
theorem Named.lookup_symbol (h : s.Named) (hid : s.moduleNamed? m.name = some id)
    (hm : s.module? id = some m) (hp : m.content? .module t = some p) (hdot : '.' ∉ t.toList)
    (hfree : s.moduleNamed? (m.name ++ "." ++ t) = none) :
    s.lookup (m.name ++ "." ++ t) = .ok (.symbol ⟨id,p⟩) := by
  have hnamed := h.module hm
  obtain ⟨c,hc,rfl⟩ := hnamed.exists_common hp
  have hsystem : m.name ++ "." ++ c.name ≠ "system" := ne_system_of_dot (by simp)
  have hsplit : splitName (m.name ++ "." ++ c.name) = ⟨some m.name,c.name,none⟩ :=
    splitName_symbol hnamed.common.2.sign_notMem (hnamed.isName hc).sign_notMem hdot
  simp [lookup,lookupPlain_error hfree hsystem,hsplit,hid,localSymbol?_symbol hm hp]

/-- The qualified name of a symbol's content leads back to it. -/
theorem Named.lookup_content (h : s.Named) (hid : s.moduleNamed? m.name = some id)
    (hm : s.module? id = some m) (hp : m.content? .module t = some p) (hdot : '.' ∉ t.toList)
    (hx : m.content? p f = some x) (hf : IsName f.toList) :
    s.lookup (m.name ++ "." ++ t ++ "#" ++ f) = .ok (.symbol ⟨id,x⟩) := by
  have hfree : s.moduleNamed? (m.name ++ "." ++ t ++ "#" ++ f) = none :=
    h.moduleNamed?_sign (by simp)
  have hsystem : m.name ++ "." ++ t ++ "#" ++ f ≠ "system" := ne_system_of_dot (by simp)
  have hempty : f ≠ "" := by
    rintro rfl
    obtain ⟨_,_,_,_,he⟩ := hf
    cases he
  simp [lookup,lookupPlain_error hfree hsystem,splitName_fragment hf.sign_notMem hdot,hid,
    localSymbol?_fragment hm hp hx hempty]

/-- The entity has the name: it is the system, or a symbol that has this qualified name. -/
def Answers (s : System) (name : String) : Entity → Prop
  | .system => name = "system"
  | .symbol h => s.qualifiedName? h = some name

/-- The entity answers to the last part of a name alone: the module before it is there and lacks the
type. -/
def Strays (s : System) (name : String) (e : Entity) : Prop :=
  ∃ m t id, name = m ++ "." ++ t ∧ '.' ∉ t.toList ∧ s.moduleNamed? name = none ∧
    s.moduleNamed? m = some id ∧
    (s.module? id).bind (·.content? .module t) = none ∧ s.lookupPlain t = .ok e

theorem Named.qualifiedName?_module (h : s.Named) (hn : s.moduleNamed? n = some id) :
    s.qualifiedName? ⟨id,.module⟩ = some n := by
  obtain ⟨m,hm,rfl⟩ := h.name_of_moduleNamed? hn
  simp [qualifiedName?,hm,Module.common?,Module.qualifiedName]

theorem Named.answers_of_lookupPlain (h : s.Named) (he : s.lookupPlain n = .ok e) :
    s.Answers n e := by
  unfold lookupPlain at he
  split at he
  · next id hn =>
      obtain rfl := Except.ok.inj he
      exact h.qualifiedName?_module hn
  · split at he
    · obtain rfl := Except.ok.inj he
      assumption
    · cases he

theorem Named.not_answers (h : s.Named) (he : s.lookupPlain t = .ok e) (hne : n ≠ t) :
    ¬ s.Answers n e := by
  have hanswers := h.answers_of_lookupPlain he
  cases e with
  | system => exact fun hn => hne (hn.trans hanswers.symm)
  | symbol a => exact fun hn => hne (Option.some.inj (hn.symm.trans hanswers))

/-- How a name without a number sign is looked up: it stands for itself, it leads to a symbol of a
module, or the last part of it stands for something. -/
theorem Named.lookup_finds (h : s.Named) (hsign : '#' ∉ n.toList) (he : s.lookup n = .ok e) :
    s.lookupPlain n = .ok e ∨ s.Strays n e ∨
      ∃ m t id p, n = m.name ++ "." ++ t ∧ '.' ∉ t.toList ∧ s.module? id = some m ∧
        m.content? .module t = some p ∧ e = .symbol ⟨id,p⟩ := by
  cases hplain : s.lookupPlain n with
  | ok e' =>
    obtain rfl : e' = e := by simpa [lookup,hplain] using he
    exact .inl rfl
  | error failure =>
    have hfree : s.moduleNamed? n = none := by
      cases hn : s.moduleNamed? n with
      | none => rfl
      | some id => simp [lookupPlain,hn] at hplain
    rcases exists_symbolName hsign with hdot | ⟨m,t,rfl,hm,ht,hdot⟩
    · simp [lookup,hplain,splitName_type hdot hsign] at he
    · simp only [lookup,hplain,splitName_symbol hm ht hdot,Option.bind_some] at he
      cases hid : s.moduleNamed? m with
      | none => simp [hid] at he
      | some id =>
        obtain ⟨x,hx,rfl⟩ := h.name_of_moduleNamed? hid
        cases hp : x.content? .module t with
        | none =>
          have hlocal : s.localSymbol? id t none = none := by simp [localSymbol?,hx,hp]
          simp only [hid,hlocal] at he
          exact .inr (.inl ⟨x.name,t,id,rfl,hdot,hfree,hid,by simp [hx,hp],he⟩)
        | some p =>
          simp only [hid,localSymbol?_symbol hx hp] at he
          exact .inr (.inr ⟨x,t,id,p,rfl,hdot,hx,hp,(Except.ok.inj he).symm⟩)

/-- A name without a number sign is answered by what has it, or by what the last part of it
names. -/
theorem Named.lookup_cases (h : s.Named) (hsign : '#' ∉ n.toList) (he : s.lookup n = .ok e) :
    s.Answers n e ∨ s.Strays n e := by
  rcases h.lookup_finds hsign he with hplain | hstrays | ⟨m,t,id,p,rfl,hdot,hm,hp,rfl⟩
  · exact .inl (h.answers_of_lookupPlain hplain)
  · exact .inr hstrays
  · obtain ⟨c,hc,rfl⟩ := (h.module hm).exists_common hp
    refine .inl ?_
    simp [Answers,qualifiedName?,hm,hc,Module.qualifiedName_symbol hp,Module.qualify,hdot]

/-- Where a name strays something else is found. -/
theorem Named.lookup_of_strays (h : s.Named) (hsign : '#' ∉ n.toList) (he : s.Strays n e) :
    s.lookup n = .ok e ∧ ¬ s.Answers n e := by
  obtain ⟨m,t,id,rfl,hdot,hfree,hid,hlacks,hplain⟩ := he
  have hboth : '#' ∉ m.toList ∧ '#' ∉ t.toList := by simpa using hsign
  have hsystem : m ++ "." ++ t ≠ "system" := ne_system_of_dot (by simp)
  have hlocal : s.localSymbol? id t none = none := by
    obtain ⟨x,hx,-⟩ := h.name_of_moduleNamed? hid
    have hp : x.content? .module t = none := by simpa [hx] using hlacks
    simp [localSymbol?,hx,hp]
  refine ⟨?_,h.not_answers hplain ?_⟩
  · simp [lookup,lookupPlain_error hfree hsystem,splitName_symbol hboth.1 hboth.2 hdot,hid,hlocal,
      hplain]
  · intro heq
    exact hdot (by rw [← heq]; simp)

end

/-! ## Searches that end -/

mutual

/-- The system is asked for a name. The search ends with the result, and the system has been asked
`k` times. -/
inductive Asked (s : System) : String → Nat → Except Failure Entity → Prop
  | module {n : String} {id : Nat} (h : s.moduleNamed? n = some id) :
      Asked s n 1 (.ok (.symbol ⟨id,.module⟩))
  | system (h : s.moduleNamed? "system" = none) : Asked s "system" 1 (.ok .system)
  | refused {n : String} (hfree : s.moduleNamed? n = none) (hsystem : n ≠ "system")
      (hm : (splitName n).module.bind s.moduleNamed? = none) : Asked s n 1 (.error (.unknownName n))
  | passedOn {n : String} {id k : Nat} {r : Except Failure Entity} (hfree : s.moduleNamed? n = none)
      (hsystem : n ≠ "system") (hm : (splitName n).module.bind s.moduleNamed? = some id)
      (h : AskedIn s id (splitName n).type (splitName n).fragment k r) : Asked s n (k + 1) r

/-- A module is asked for a type or a part of it. For a type that it lacks it asks the system
again. -/
inductive AskedIn (s : System) : Nat → String → Option String → Nat → Except Failure Entity → Prop
  | own {id : Nat} {t : String} {f : Option String} {r : Except Failure Entity}
      (h : s.localSymbol? id t f = some r) : AskedIn s id t f 0 r
  | back {id k : Nat} {t : String} {f : Option String} {r : Except Failure Entity}
      (hlacks : s.localSymbol? id t f = none) (h : Asked s t k r) : AskedIn s id t f k r

end

/-- The name leads to a type of a module, and its fragment to nothing there. -/
def LacksPart (s : System) (name f : String) : Prop :=
  s.moduleNamed? name = none ∧ f ≠ "" ∧ ∃ m t id p, splitName name = ⟨some m,t,some f⟩ ∧
    s.moduleNamed? m = some id ∧ (s.module? id).bind (·.content? .module t) = some p ∧
    (s.module? id).bind (·.content? p f) = none

/-- Nothing answers to a name, and it is said that nothing answers to `missed`. This is the name
itself where no module stands before the type, else it is the type, which the module lacks. -/
def Misses (s : System) (name missed : String) : Prop :=
  s.moduleNamed? name = none ∧ name ≠ "system" ∧
    (missed = name ∧ (splitName name).module.bind s.moduleNamed? = none ∨
      ∃ id, (splitName name).module.bind s.moduleNamed? = some id ∧ missed = (splitName name).type ∧
        (s.module? id).bind (·.content? .module missed) = none ∧ s.moduleNamed? missed = none ∧
          missed ≠ "system")

section
variable {s : System} {id j k : Nat} {n t : String} {fragment : Option String}
  {r : Except Failure Entity} {e : Failure}

theorem localSymbol?_eq_none_iff :
    s.localSymbol? id t fragment = none ↔ (s.module? id).bind (·.content? .module t) = none := by
  unfold localSymbol?
  cases s.module? id with
  | none => simp
  | some m =>
    cases hp : m.content? .module t with
    | none => simp [hp]
    | some p =>
      simp only [Option.bind_some,hp,reduceCtorEq,iff_false]
      split
      · simp_all
      · simp
      · split <;> simp

theorem localSymbol?_eq_error_iff :
    s.localSymbol? id t fragment = some (.error e) ↔
      ∃ p f, fragment = some f ∧ f ≠ "" ∧ (s.module? id).bind (·.content? .module t) = some p ∧
        (s.module? id).bind (·.content? p f) = none ∧ e = .missingKey (some f) (Text.quoted f) := by
  unfold localSymbol?
  cases s.module? id with
  | none => simp
  | some m =>
    simp only [Option.bind_some]
    constructor
    · intro h
      split at h
      · cases h
      · cases h
      · rename_i p hp hne
        split at h
        · cases h
        · rename_i hnone
          cases fragment with
          | none => exact absurd rfl hne
          | some f => exact ⟨p,f,rfl,hne,hp,hnone,by simpa [eq_comm] using h⟩
    · rintro ⟨p,f,rfl,hne,hp,hnone,rfl⟩
      simp [hp,hnone]

theorem lookupPlain_eq_error_iff :
    s.lookupPlain n = .error e ↔ s.moduleNamed? n = none ∧ n ≠ "system" ∧ e = .unknownName n := by
  unfold lookupPlain
  cases s.moduleNamed? n with
  | some id => simp
  | none => by_cases hsystem : n = "system" <;> simp [hsystem,eq_comm]

/-- A search ends at once if the name stands for itself or no module stands before the type. -/
theorem asked_iff_of_plain
    (hend : ∀ e, s.lookupPlain n = .error e → (splitName n).module.bind s.moduleNamed? = none) :
    s.Asked n k r ↔ k = 1 ∧ r = s.lookupPlain n := by
  constructor
  · intro h
    cases h with
    | module h | system h => simp [lookupPlain,h]
    | refused hfree hsystem => simp [lookupPlain_error hfree hsystem]
    | passedOn hfree hsystem hm =>
      exact nomatch (hend _ (lookupPlain_error hfree hsystem)).symm.trans hm
  · rintro ⟨rfl,rfl⟩
    cases hn : s.moduleNamed? n with
    | some id => simpa [lookupPlain,hn] using Asked.module hn
    | none =>
      by_cases hsystem : n = "system"
      · subst hsystem
        simpa [lookupPlain,hn] using Asked.system hn
      · have hplain := lookupPlain_error hn hsystem
        rw [hplain]
        exact .refused hn hsystem (hend _ hplain)

theorem lookup_of_plain
    (hend : ∀ e, s.lookupPlain n = .error e → (splitName n).module.bind s.moduleNamed? = none) :
    s.lookup n = s.lookupPlain n := by
  unfold lookup
  cases hplain : s.lookupPlain n with
  | ok e => rfl
  | error e => simp [hend e hplain]

theorem lookup_passedOn (hfree : s.moduleNamed? n = none) (hsystem : n ≠ "system")
    (hm : (splitName n).module.bind s.moduleNamed? = some id) :
    s.lookup n =
      (s.localSymbol? id (splitName n).type (splitName n).fragment).getD
        (s.lookupPlain (splitName n).type) := by
  simp only [lookup,lookupPlain_error hfree hsystem,hm]
  split <;> simp_all

/-- The type in a name has no dot, so a search for it ends at once. -/
theorem asked_type_iff (n : String) :
    s.Asked (splitName n).type k r ↔ k = 1 ∧ r = s.lookupPlain (splitName n).type := by
  have hm : (splitName (splitName n).type).module = none :=
    splitName_module_eq_none (separated_splitName n).type
  exact asked_iff_of_plain fun _ _ => by simp [hm]

/-- A module gives what is its own, or the search for the type decides. -/
theorem exists_askedIn_iff (s : System) (id : Nat) (n : String) (fragment : Option String) :
    ∃ k ≤ 1, ∀ j r, s.AskedIn id (splitName n).type fragment j r ↔
      j = k ∧ r = (s.localSymbol? id (splitName n).type fragment).getD
        (s.lookupPlain (splitName n).type) := by
  cases hlocal : s.localSymbol? id (splitName n).type fragment with
  | some found =>
    refine ⟨0,by decide,fun j r => ⟨fun h => ?_,?_⟩⟩
    · cases h with
      | own h => exact ⟨rfl,Option.some.inj (h.symm.trans hlocal)⟩
      | back hlacks => exact nomatch hlacks.symm.trans hlocal
    · rintro ⟨rfl,rfl⟩
      exact .own hlocal
  | none =>
    refine ⟨1,le_rfl,fun j r => ⟨fun h => ?_,fun h => .back hlocal ((asked_type_iff n).mpr h)⟩⟩
    cases h with
    | own h => exact nomatch h.symm.trans hlocal
    | back _ h => exact (asked_type_iff n).mp h

theorem asked_iff_of_passedOn (hfree : s.moduleNamed? n = none) (hsystem : n ≠ "system")
    (hm : (splitName n).module.bind s.moduleNamed? = some id) :
    s.Asked n j r ↔ ∃ k, j = k + 1 ∧ s.AskedIn id (splitName n).type (splitName n).fragment k r := by
  constructor
  · intro h
    cases h with
    | module h => exact nomatch h.symm.trans hfree
    | system => exact absurd rfl hsystem
    | refused _ _ hnone => exact nomatch hnone.symm.trans hm
    | passedOn _ _ hid h =>
      obtain rfl := Option.some.inj (hid.symm.trans hm)
      exact ⟨_,rfl,h⟩
  · rintro ⟨k,rfl,h⟩
    exact .passedOn hfree hsystem hm h

/-- A search either ends at once or is passed on to a module. -/
theorem plain_or_passedOn (s : System) (n : String) :
    (∀ e, s.lookupPlain n = .error e → (splitName n).module.bind s.moduleNamed? = none) ∨
      s.moduleNamed? n = none ∧ n ≠ "system" ∧
      ∃ id, (splitName n).module.bind s.moduleNamed? = some id := by
  cases hm : (splitName n).module.bind s.moduleNamed? with
  | none => exact .inl fun _ _ => rfl
  | some id =>
    cases hplain : s.lookupPlain n with
    | ok e => exact .inl nofun
    | error e =>
      obtain ⟨hfree,hsystem,-⟩ := lookupPlain_eq_error_iff.mp hplain
      exact .inr ⟨hfree,hsystem,id,rfl⟩

theorem exists_asked_iff (s : System) (n : String) :
    ∃ k ≤ 2, ∀ j r, s.Asked n j r ↔ j = k ∧ r = s.lookup n := by
  rcases plain_or_passedOn s n with hend | ⟨hfree,hsystem,id,hid⟩
  · refine ⟨1,by decide,fun j r => ?_⟩
    rw [lookup_of_plain hend]
    exact asked_iff_of_plain hend
  · obtain ⟨k,hk,hin⟩ := exists_askedIn_iff s id n (splitName n).fragment
    refine ⟨k + 1,by omega,fun j r => ?_⟩
    rw [asked_iff_of_passedOn hfree hsystem hid,lookup_passedOn hfree hsystem hid]
    simp [hin]

theorem lookup_of_lacksPart {f : String} (h : s.LacksPart n f) :
    s.lookup n = .error (.missingKey (some f) (Text.quoted f)) := by
  obtain ⟨hfree,hne,m,t,id,p,hsplit,hid,hp,hnone⟩ := h
  have hsystem : n ≠ "system" := by
    rintro rfl
    have hmodule : (splitName "system").module = none := splitName_module_eq_none (by decide)
    rw [hsplit] at hmodule
    cases hmodule
  have hlocal :
      s.localSymbol? id t (some f) = some (.error (.missingKey (some f) (Text.quoted f))) :=
    localSymbol?_eq_error_iff.mpr ⟨p,f,rfl,hne,hp,hnone,rfl⟩
  rw [lookup_passedOn hfree hsystem (by simpa [hsplit] using hid),hsplit,hlocal,Option.getD_some]

theorem lookup_of_misses {missed : String} (h : s.Misses n missed) :
    s.lookup n = .error (.unknownName missed) := by
  obtain ⟨hfree,hsystem,⟨rfl,hm⟩ | ⟨id,hm,rfl,hlacks,hfree',hsystem'⟩⟩ := h
  · rw [lookup_of_plain fun _ _ => hm]
    exact lookupPlain_error hfree hsystem
  · rw [lookup_passedOn hfree hsystem hm,localSymbol?_eq_none_iff.mpr hlacks,Option.getD_none]
    exact lookupPlain_error hfree' hsystem'

theorem lacksPart_or_misses (h : s.lookup n = .error e) :
    (∃ f, e = .missingKey (some f) (Text.quoted f) ∧ s.LacksPart n f) ∨
      ∃ missed, e = .unknownName missed ∧ s.Misses n missed := by
  rcases plain_or_passedOn s n with hend | ⟨hfree,hsystem,id,hid⟩
  · rw [lookup_of_plain hend] at h
    obtain ⟨hfree,hsystem,rfl⟩ := lookupPlain_eq_error_iff.mp h
    exact .inr ⟨n,rfl,hfree,hsystem,.inl ⟨rfl,hend _ h⟩⟩
  · rw [lookup_passedOn hfree hsystem hid] at h
    cases hlocal : s.localSymbol? id (splitName n).type (splitName n).fragment with
    | some found =>
      obtain rfl : found = .error e := by simpa [hlocal] using h
      obtain ⟨p,f,hf,hne,hp,hnone,rfl⟩ := localSymbol?_eq_error_iff.mp hlocal
      obtain ⟨m,hm,hid⟩ := Option.bind_eq_some_iff.mp hid
      exact .inl ⟨f,rfl,hfree,hne,m,_,id,p,by rw [← hm,← hf],hid,hp,hnone⟩
    | none =>
      rw [hlocal,Option.getD_none] at h
      obtain ⟨hfree',hsystem',rfl⟩ := lookupPlain_eq_error_iff.mp h
      exact .inr ⟨_,rfl,hfree,hsystem,
        .inr ⟨id,hid,rfl,localSymbol?_eq_none_iff.mp hlocal,hfree',hsystem'⟩⟩

/-- A search ends with one result, and the system is asked at most twice for it. It fails in two
cases only: with the part that a type lacks, and with the name, or the type in it, to which nothing
answers. -/
theorem lookup_ends_and_fails_iff (s : System) (n : String) :
    (∃ k ≤ 2, ∀ j r, s.Asked n j r ↔ j = k ∧ r = s.lookup n) ∧
      (∀ missed, (Failure.unknownName missed).message = "not able to lookup symbol: " ++ missed) ∧
      ∀ e, s.lookup n = .error e ↔
        (∃ f, e = .missingKey (some f) (Text.quoted f) ∧ s.LacksPart n f) ∨
          ∃ missed, e = .unknownName missed ∧ s.Misses n missed := by
  refine ⟨exists_asked_iff s n,fun _ => rfl,fun e => ⟨lacksPart_or_misses,?_⟩⟩
  rintro (⟨f,rfl,h⟩ | ⟨missed,rfl,h⟩)
  · exact lookup_of_lacksPart h
  · exact lookup_of_misses h

end

end System

end InterfaceKit.Model
