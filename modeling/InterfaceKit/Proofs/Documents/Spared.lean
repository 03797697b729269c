import InterfaceKit.Proofs.Documents.Reading
import InterfaceKit.Proofs.Model.Extending

/-!
# What a text leaves that cannot be read

A text that the parser refuses changes nothing. When the walk through an accepted one ends early,
the module that its head names is there, with what was read of it, and it has taken the place of an
older one of this name. Everything else is as it was: the other modules, what they hold, and all
tags.
-/
namespace InterfaceKit
open Grammar Lexical Model

/-- A system has taken in a module: it stands under its name, where an older one of this name stood,
or else at the end. All else is as it was, also the older one, to which types may refer. -/
structure Model.System.Takes (m : Module) (s s' : System) : Prop where
  tags : s'.tags = s.tags
  current : ∃ id, s'.moduleNamed? m.name = some id ∧ s'.module? id = some m
  others : ∀ name, name ≠ m.name → s'.moduleNamed? name = s.moduleNamed? name
  archived : ∀ id x, s.module? id = some x → s'.module? id = some x
  names : s'.directory.names =
    if m.name ∈ s.directory.names then s.directory.names else s.directory.names ++ [m.name]

theorem Model.System.register_takes (s : System) (m : Module) : s.Takes m (s.register m).2 where
  tags := rfl
  current := ⟨s.archive.length,Table.get?_set ..,List.getElem?_concat_length ..⟩
  others _ h := Table.get?_set_of_ne h s.directory _
  archived id x hx := by
    have hlt : id < s.archive.length := (List.getElem?_eq_some_iff.mp hx).1
    have happend : (s.archive ++ [m])[id]? = s.archive[id]? := List.getElem?_append_left hlt
    exact happend.trans hx
  names := Table.names_set s.directory m.name _

theorem Model.System.takes_of_modify {systems systems' : List System} {n : Nat} {m : Module}
    (h : systems' = systems.modify n fun s => (s.register m).2) {k : Nat} {s : System}
    (hs : systems[k]? = some s) :
    ∃ s', systems'[k]? = some s' ∧ if k = n then s.Takes m s' else s' = s := by
  rw [h,List.getElem?_modify,hs]
  by_cases hk : k = n
  · refine ⟨(s.register m).2,by simp [hk],?_⟩
    rw [if_pos hk]
    exact s.register_takes m
  · exact ⟨s,by simp [Ne.symm hk],by rw [if_neg hk]⟩

/-- The module `a` has lost its interface to a text whose number cannot be read. -/
theorem unread_number_replaces :
    let w :=
      ((Act.readSystemText 0 .full "module a 1.0 interface I \x7b\x7d").run
        (Act.newSystem.run {}).2).2
    let outcome := (Act.readSystemText 0 .full "module a 1.0 enum E \x7b x = 010 \x7d").run w
    outcome.1 = .error (.invalidValue "invalid literal") ∧
      (w.systemAt 0).lookup "a.I" = .ok (.symbol ⟨0,.interface "I"⟩) ∧
      (outcome.2.systemAt 0).lookup "a.I" = .error (.unknownName "I") ∧
      (outcome.2.systemAt 0).lookup "a.E" = .ok (.symbol ⟨1,.enum "E"⟩) := by
  intro w outcome
  have hread : (outcome.1, (w.systemAt 0).lookup "a.I", (outcome.2.systemAt 0).lookup "a.I",
      (outcome.2.systemAt 0).lookup "a.E") =
      (.error (.invalidValue "invalid literal"), .ok (.symbol ⟨0,.interface "I"⟩),
        .error (.unknownName "I"),.ok (.symbol ⟨1,.enum "E"⟩)) := by decide +kernel
  obtain ⟨hfailed,hbefore,hlost,hnew⟩ := by simpa only [Prod.mk.injEq] using hread
  exact ⟨hfailed,hbefore,hlost,hnew⟩

variable {n : Nat} {profile : Profile} {text : String} {w w' : Workspace} {e : Failure}

/-- A text that cannot be read is refused at once and leaves nothing but messages; or a system has
taken in what was read of its module, which has the name and the version that the head gives. All
cells of the store are spared, among them all tags that were there, and so are the other systems. -/
theorem readSystemText_spares (h : (Act.readSystemText n profile text).run w = (.error e, w')) :
    (((∃ error c, parse .document (Source.ofText text.toList) = .failed error c) ∨ profile ≠ .full) ∧
      w' = { w with log := w'.log }) ∨
    ∃ (doc : Phrase.Document) (c : Cursor) (m : Module),
      (parse .document (Source.ofText text.toList) = .parsed doc.tree c ∧ profile = .full) ∧
      ((Draft.ofDocument (w.nextModule n) doc.tree w.store).2.module = some m ∧
        m.name = doc.header.head.name.val.text ∧ m.version = doc.header.head.version.val.text) ∧
      w' = { w with store := w'.store, systems := w'.systems, log := w'.log } ∧
      (∀ i c, w.store.get? i = some c → w'.store.get? i = some c) ∧
      w'.systems.length = w.systems.length ∧
      ∀ k s, w.systems[k]? = some s → ∃ s', w'.systems[k]? = some s' ∧
        if k = n then s.Takes m s' else s' = s := by
  cases hparse : parse .document (Source.ofText text.toList) with
  | failed error c =>
      left
      refine ⟨.inl ⟨error,c,rfl⟩,?_⟩
      simp only [Act.readSystemText,Act.readSource,Act.readTokens,hparse] at h
      cases h
      rfl
  | parsed t c =>
      by_cases hprofile : profile = .full
      · right
        subst hprofile
        obtain ⟨doc,rfl⟩ := exists_document hparse
        obtain ⟨hcells,hhead⟩ := ofDocument_begins doc (w.nextModule n) w.store
        obtain ⟨m,hm,hnamed⟩ := Option.map_eq_some_iff.mp hhead
        rw [Act.readSystemText,Act.readSource_parsed hparse] at h
        simp only [Act.readTree,ExceptT.run,Act.nextModule_log,hm] at h
        obtain ⟨-,rfl⟩ := Prod.mk.inj h
        refine ⟨doc,c,m,⟨rfl,rfl⟩,⟨hm,Prod.mk.inj hnamed⟩,rfl,hcells,List.length_modify ..,?_⟩
        intro k s hs
        exact System.takes_of_modify rfl hs
      · left
        refine ⟨.inr hprofile,?_⟩
        simp only [Act.readSystemText,Act.readSource,Act.readTokens,hparse,hprofile,ne_eq,
          not_false_eq_true,if_true] at h
        cases h
        rfl

/-- After a number that cannot be read, the module `b` and the tags of the system are as they were,
and so is the first module `a`, although another one has its name. -/
theorem unread_number_spares :
    let w := ((Act.readSystemText 0 .full "module b 1.0 struct S \x7b\x7d").run
      ((Act.readSystemText 0 .full "module a 1.0 interface I \x7b\x7d").run
        (Act.newSystem.run {}).2).2).2
    let text := "module a 2.0 enum E \x7b x = 010 \x7d"
    (w.systemAt 0).directory.names = ["a","b"] ∧
      ∃ w', (Act.readSystemText 0 .full text).run w =
        (.error (.invalidValue "invalid literal"), w') ∧
          ∃ (m : Module) (s s' : System), m.head = ("a", "2.0") ∧ w.systems[0]? = some s ∧
          w'.systems[0]? = some s' ∧
          s.Takes m s' ∧ ∀ i c, w.store.get? i = some c → w'.store.get? i = some c := by
  intro w text
  have hread : (w.systemAt 0).directory.names = ["a","b"] ∧ 0 < w.systems.length ∧
      ((Act.readSystemText 0 .full text).run w).1 = .error (.invalidValue "invalid literal") := by
        decide +kernel
  obtain ⟨hnames,hlength,hfailed⟩ := hread
  have hhead : (match parse .document (Source.ofText text.toList) with
      | .parsed t _ => (Draft.ofDocument (w.nextModule 0) t w.store).2.module.map Module.head
      | .failed _ _ => none) = some ("a", "2.0") := by decide +kernel
  cases hrun : (Act.readSystemText 0 .full text).run w with
  | mk r w' =>
      rw [hrun] at hfailed
      subst hfailed
      obtain ⟨s,hs⟩ : ∃ s, w.systems[0]? = some s := ⟨_,List.getElem?_eq_getElem hlength⟩
      refine ⟨hnames,w',rfl,?_⟩
      rcases readSystemText_spares hrun with
        ⟨⟨error,c,hparse⟩ | hprofile,-⟩ | ⟨doc,c,m,⟨hparse,-⟩,⟨hm,-⟩,-,hcells,-,hsystems⟩
      · rw [hparse] at hhead
        nomatch hhead
      · exact absurd rfl hprofile
      · rw [hparse] at hhead
        dsimp only at hhead
        rw [hm] at hhead
        obtain ⟨s',hs',htakes⟩ := hsystems 0 s hs
        exact ⟨m,s,s',Option.some.inj hhead,hs,hs',htakes,hcells⟩

end InterfaceKit
