import InterfaceKit.Proofs.Documents.Reading
import InterfaceKit.Proofs.Model.Collisions

/-!
# Texts and the numbers of their enumerations

What a text that is read to its end makes of the enumerations that it declares. Each declaration is
numbered by itself, wherever it stands, and members come to share a number only where one is written
that belongs to a position.
-/
namespace InterfaceKit
open Grammar Lexical Model

theorem readSource_ok {n : Nat} {profile : Profile} {document : String} {text : List Char}
    {w : Workspace} (h : ((Act.readSource n profile document text).run w).1 = .ok ()) :
    ∃ (doc : Phrase.Document) (c : Cursor) (d : Draft) (m : Module),
      parse .document (Source.ofText text) = .parsed doc.tree c ∧
      (∀ t ∈ doc.tree.tokens, t.kind.Spells t.text.toList) ∧
      Draft.ofDocument (w.nextModule n) doc.tree w.store = (.ok (), d) ∧ d.module = some m ∧
      ((Act.readSource n profile document text).run w).2.systems = w.systems.modify n fun s =>
      (s.register m).2 := by
  cases hparse : parse .document (Source.ofText text) with
  | failed e c =>
    rw [Act.readSource_failed hparse] at h
    cases h
  | parsed t c =>
    by_cases hprofile : profile = .full
    · subst hprofile
      obtain ⟨doc,rfl⟩ := exists_document hparse
      rw [Act.readSource_parsed hparse] at h ⊢
      rcases hd : Draft.ofDocument (w.nextModule n) doc.tree w.store with ⟨r,d⟩
      obtain ⟨rfl,hsystems⟩ := readTree_ok hd h
      obtain ⟨m,hm,-⟩ := ofDocument_describes hd
      exact ⟨doc,c,d,m,rfl,Source.spells_of_parsed hparse,hd,hm,hsystems m hm⟩
    · rw [Act.run_readSource_other hparse hprofile] at h
      cases h

section
variable {doc : Phrase.Document} {k : Nat}

theorem tokens_upTo : (doc.tree.upTo k).tokens ⊆ doc.tree.tokens := by
  intro t ht
  rw [doc.upTo_tree] at ht
  have hsplit : doc.definitions = doc.definitions.take k ++ doc.definitions.drop k :=
    (List.take_append_drop k _).symm
  rw [Phrase.Document.tree,Phrase.Document.parts,hsplit]
  simp only [Phrase.Document.tree,Phrase.Document.parts,Tree.tokens_node,Tree.tokensOf_cons,
    List.map_append,Tree.tokensOf_append,List.mem_append] at ht ⊢
  tauto

theorem ofDocument_upTo {number : Nat} {store : Data.Store} {d : Draft}
    (hok : Draft.ofDocument number doc.tree store = (.ok (), d)) :
    ∃ d', Draft.ofDocument number (doc.tree.upTo k) store = (.ok (), d') := by
  have hsplit : doc.definitions = doc.definitions.take k ++ doc.definitions.drop k :=
    (List.take_append_drop k _).symm
  unfold Draft.ofDocument at hok ⊢
  rw [Drafting.walk_document,hsplit,List.map_append,Drafting.walkAll_append] at hok
  obtain ⟨_,d₁,hhead,hrest⟩ := ok_of_bind hok
  obtain ⟨_,d₂,himports,hrest⟩ := ok_of_bind hrest
  obtain ⟨_,d₃,hupTo,-⟩ := ok_of_bind hrest
  refine ⟨d₃,?_⟩
  rw [doc.upTo_tree,Drafting.walk_document,run_bind]
  simp only [hhead]
  rw [run_bind]
  simp only [himports]
  exact hupTo

end

/-- In a text that is read to its end the member at each position of an enumeration has the number
that it is written with, and else the one of the position. However many definitions the walk has
come through, this holds of the last enumeration of each name, and so it does in the module that is
registered. -/
theorem readSource_numbered {n : Nat} {profile : Profile} {document : String} {text : List Char}
    {w : Workspace} (hok : ((Act.readSource n profile document text).run w).1 = .ok ()) :
    ∃ t c m, parse .document (Source.ofText text) = .parsed t c ∧
      ((Act.readSource n profile document text).run w).2.systems =
        w.systems.modify n (fun s => (s.register m).2) ∧
      (∀ before e behind, t.listings = before ++ e :: behind → e.name ∉ behind.map (·.name) →
        ∃ x, m.enums.get? e.name = some x ∧ x.Numbered e) ∧
      ∀ k, ∃ d m', Draft.ofDocument (w.nextModule n) (t.upTo k) w.store = (.ok (), d) ∧
        d.module = some m' ∧ ∀ before e behind, (t.upTo k).listings = before ++ e :: behind →
          e.name ∉ behind.map (·.name) → ∃ x, m'.enums.get? e.name = some x ∧ x.Numbered e := by
  obtain ⟨doc,c,d,m,hparse,hspells,hd,hm,hsystems⟩ := readSource_ok hok
  refine ⟨doc.tree,c,m,hparse,hsystems,?_,?_⟩
  · intro before e behind
    exact ofDocument_numbered hspells hd hm
  · intro k
    obtain ⟨d',hd'⟩ := ofDocument_upTo (k := k) hd
    have hspells' : ∀ t ∈ (doc.tree.upTo k).tokens, t.kind.Spells t.text.toList :=
      fun t ht => hspells t (tokens_upTo ht)
    rw [doc.upTo_tree] at hd' hspells' ⊢
    obtain ⟨m',hm',-⟩ := ofDocument_describes hd'
    refine ⟨d',m',hd',hm',?_⟩
    intro before e behind
    exact ofDocument_numbered hspells' hd' hm'

/-- An enumeration that is declared once more behind a flag. The first declaration counts until the
walk comes to the other one. -/
theorem mixed_numbers_given :
    let text :=
      "module m 1.0 enum E \x7b a = -5, b, a, c = 0x1F \x7d flag F \x7b p, q = 7, r \x7d enum E \x7b z \x7d"
    let w : Workspace := { systems := [{}] }
    let act := Act.readSource 0 .full "<TEXT>" text.toList
    let first : Listing := ⟨false,"E",[("a", some "-5"),("b", none),("a", none),("c", some "0x1F")]⟩
    let flag : Listing := ⟨true,"F",[("p", none),("q", some "7"),("r", none)]⟩
    (act.run w).1 = .ok () ∧ ∃ t c m d m' x y,
      parse .document (Source.ofText text.toList) = .parsed t c ∧
      (act.run w).2.systems = w.systems.modify 0 (fun s => (s.register m).2) ∧
      m.enums.get? "F" = some x ∧ x.Numbered flag ∧ (x.members.get? "r").map (·.value) = some 4 ∧
      Draft.ofDocument (w.nextModule 0) (t.upTo 1) w.store = (.ok (), d) ∧ d.module = some m' ∧
      m'.enums.get? "E" = some y ∧ y.Numbered first ∧ y.members.names = ["a","b","c"] ∧
      (y.members.get? "a").map (·.value) = some 2 ∧
        (y.members.get? "c").map (·.value) = some 31 := by
  intro text w act first flag
  obtain ⟨hok,hread⟩ : (act.run w).1 = .ok () ∧
    (match parse .document (Source.ofText text.toList) with
      | .parsed t _ => (t.listings, (t.upTo 1).listings)
      | .failed _ _ =>
        ([], [])) = ([first,flag,⟨false,"E",[("z", none)]⟩], [first]) := by decide +kernel
  obtain ⟨t,c,m,hparse,hsystems,hlast,hstages⟩ := readSource_numbered hok
  rw [hparse] at hread
  obtain ⟨hlistings,hfirst⟩ := Prod.mk.inj hread
  obtain ⟨x,hx,hflag⟩ := hlast [first] flag _ hlistings (by decide)
  obtain ⟨d,m',hd,hm',hstage⟩ := hstages 1
  obtain ⟨y,hy,henum⟩ := hstage [] first [] hfirst (by decide)
  obtain ⟨r,hr,hr'⟩ := hflag.number [("p", none),("q", some "7")] "r" none _ rfl (by decide)
  obtain ⟨a,ha,ha'⟩ := henum.number [("a", some "-5"),("b", none)] "a" none _ rfl (by decide)
  obtain ⟨k,hk,hk'⟩ :=
    henum.number [("a", some "-5"),("b", none),("a", none)] "c" (some "0x1F") _ rfl (by decide)
  refine ⟨hok,t,c,m,d,m',x,y,hparse,hsystems,hx,hflag,?_,hd,hm',hy,henum,henum.names,?_,?_⟩
  · rw [hr,Option.map_some,hr']
    decide
  · rw [ha,Option.map_some,ha']
    decide
  · rw [hk,Option.map_some,hk']
    decide

/-- If no name and no written number occurs twice, the members have different numbers if and only if
no written number is the one of the position of a member without a written number. In a flag whose
written numbers are powers of two no two members have a bit in common under the same condition. -/
theorem readSource_distinct_iff {n : Nat} {profile : Profile} {document : String} {text : List Char}
    {w : Workspace} (hok : ((Act.readSource n profile document text).run w).1 = .ok ()) :
    ∃ t c m, parse .document (Source.ofText text) = .parsed t c ∧
      ((Act.readSource n profile document text).run w).2.systems =
        w.systems.modify n (fun s => (s.register m).2) ∧
      ∀ before e behind, t.listings = before ++ e :: behind → e.name ∉ behind.map (·.name) →
        (e.members.map (·.1)).Nodup → e.writtenNumbers.Nodup →
        ∃ x, m.enums.get? e.name = some x ∧
          ((x.members.values.map (·.value)).Nodup ↔ e.PositionsFree) ∧
          (e.flag = true → (∀ a ∈ e.writtenNumbers, ∃ b : Nat, a = 2 ^ b) →
            ((x.members.values.map (·.value)).Pairwise (fun a b => ¬ SharesBit a b) ↔
              e.PositionsFree)) := by
  obtain ⟨doc,c,d,m,hparse,hspells,hd,hm,hsystems⟩ := readSource_ok hok
  refine ⟨doc.tree,c,m,hparse,hsystems,?_⟩
  intro before e behind hsplit hlast hnames hwritten
  obtain ⟨x,hx,hnumbered⟩ := ofDocument_numbered hspells hd hm hsplit hlast
  have hiff := e.nodup_numbers_iff hwritten
  refine ⟨x,hx,?_,?_⟩
  · rw [hnumbered.values_eq hnames]
    exact hiff
  · intro hflag hpowers
    rw [hnumbered.values_eq hnames,pairwise_bits_iff (e.numbers_two_pow hflag hpowers)]
    exact hiff

/-- The written numbers stay clear of the positions of the other members, first in an enumeration
and then in a flag. -/
theorem written_numbers_apart :
    let text := "module m 1.0 enum E \x7b a = 7, b, c = -1, d \x7d flag F \x7b p, q = 0x10, r \x7d"
    let w : Workspace := { systems := [{}] }
    let act := Act.readSource 0 .full "<TEXT>" text.toList
    (act.run w).1 = .ok () ∧ ∃ m x y, (act.run w).2.systems =
      w.systems.modify 0 (fun s => (s.register m).2) ∧
      m.enums.get? "E" = some x ∧ (x.members.values.map (·.value)).Nodup ∧
      m.enums.get? "F" = some y ∧
        (y.members.values.map (·.value)).Pairwise (fun a b => ¬ SharesBit a b) := by
  intro text w act
  let e : Listing := ⟨false,"E",[("a", some "7"),("b", none),("c", some "-1"),("d", none)]⟩
  let f : Listing := ⟨true,"F",[("p", none),("q", some "0x10"),("r", none)]⟩
  obtain ⟨hok,hread⟩ : (act.run w).1 = .ok () ∧
    (match parse .document (Source.ofText text.toList) with
      | .parsed t _ => t.listings
      | .failed _ _ => []) = [e,f] := by decide +kernel
  obtain ⟨t,c,m,hparse,hsystems,hlast⟩ := readSource_distinct_iff hok
  rw [hparse] at hread
  obtain ⟨x,hx,hdistinct,-⟩ := hlast [] e [f] hread (by decide) (by decide) (by decide)
  obtain ⟨y,hy,-,hbits⟩ := hlast [e] f [] hread (by decide) (by decide) (by decide)
  refine ⟨hok,m,x,y,hsystems,hx,hdistinct.mpr (by decide),hy,(hbits rfl ?_).mpr (by decide)⟩
  intro a ha
  obtain rfl := List.mem_singleton.mp ha
  exact ⟨4,by decide⟩

/-- The only number that is written is the one of the position of the other member. -/
theorem written_number_collides :
    let text := "module m 1.0 enum E \x7b a = 1, b \x7d flag F \x7b c = 2, d \x7d"
    let r := (Act.readSource 0 .full "<TEXT>" text.toList).run { systems := [{}] }
    let members := r.2.systems.map fun s =>
      (s.module? 0).map fun m => m.enums.values.map fun x => x.members.mapValues (·.value)
    r.1 = .ok () ∧ members = [some [[("a", 1),("b", 1)],[("c", 2),("d", 2)]]] ∧
      ¬ [(1 : Int),1].Nodup ∧ ¬ [(2 : Int),2].Pairwise (fun a b => ¬ SharesBit a b) := by
  refine ⟨by decide +kernel,by decide +kernel,by decide,?_⟩
  intro h
  exact List.rel_of_pairwise_cons h (List.mem_singleton_self 2) ⟨1,by decide,by decide⟩

end InterfaceKit
