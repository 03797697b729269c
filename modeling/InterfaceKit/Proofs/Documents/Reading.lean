import InterfaceKit.Documents
import InterfaceKit.Proofs.Grammar.Extent
import InterfaceKit.Proofs.Model.DocumentWalk

/-!
# Reading a text

A text is parsed first, as far as it is a document: what stands behind is not read, and nothing
tells so. When the parser refuses it nothing else happens. When it accepts it the tree is read, and
the module that the document describes comes into the system.
-/
namespace InterfaceKit
open Grammar Lexical Model

namespace Act
variable {n : Nat} {document : String} {text : List Char} {c : Cursor} {profile : Profile}
  {t : Grammar.Tree} {e : SyntaxError}

theorem nextModule_log (w : Workspace) (n : Nat) (log : Log) :
    ({ w with log } : Workspace).nextModule n = w.nextModule n := rfl

theorem readSource_parsed [Yaml.Readers] (h : parse .document (Source.ofText text) = .parsed t c)
    (w : Workspace) :
    (readSource n .full document text).run w =
      (readTree n t).run
        { w with log := w.log ++ (Outcome.parsed t c).log document (Source.ofText text) } := by
  simp only [readSource,readTokens,h]
  rfl

theorem run_readSource_failed [Yaml.Readers]
    (h : parse .document (Source.ofText text) = .failed e c) (w : Workspace) :
    (readSource n profile document text).run w = (.error (.rejectedText (e.report document)),
      { w with log := w.log ++ (.failed e c :
        Outcome Grammar.Tree).log document (Source.ofText text) }) := by
  simp only [readSource,readTokens,h]
  rfl

theorem readSource_failed [Yaml.Readers] (h : parse .document (Source.ofText text) = .failed e c)
    (w : Workspace) :
    ((readSource n profile document text).run w).1 = .error (.rejectedText (e.report document)) :=
  congrArg Prod.fst (run_readSource_failed h w)

theorem run_readSource_other [Yaml.Readers] (h : parse .document (Source.ofText text) = .parsed t c)
    (hprofile : profile ≠ .full) (w : Workspace) :
    (readSource n profile document text).run w = (.error (.missingAttribute "Logger" "secho"),
      { w with log := w.log ++ (Outcome.parsed t c).log document (Source.ofText text) }) := by
  simp only [readSource,readTokens,h,hprofile,ne_eq,not_false_eq_true,if_true]
  rfl

end Act

/-- A sentence is read to its end, and only a sentence is. -/
theorem rest_eq_nil_iff {s : Source} {t : Grammar.Tree} {c : Cursor}
    (h : parse .document s = .parsed t c) :
    c.rest = [] ↔ Form.Derivable [oneRule .document] s.tokens := by
  have hr := parse_reads h
  have htokens : s.tokens = t.tokens ++ c.rest := by simpa using hr.tokens
  constructor
  · intro hc
    rw [htokens,hc,List.append_nil]
    exact (parse_ends h).1
  · intro hd
    have hend : Ends [oneRule .document] s.tokens [] :=
      ⟨hd,fun x v hv => absurd hv.symm (List.cons_ne_nil x v)⟩
    obtain ⟨t',c',hp,hc⟩ := parse_document (List.append_nil _).symm hend
    rw [h] at hp
    obtain ⟨-,rfl⟩ := Outcome.parsed.inj hp
    exact hc

/-- A text that begins with a document is read as this document, which ends before the first token
that no document has there. Any other text is rejected. -/
theorem readSystemText_extent (n : Nat) (text : String) (w : Workspace) :
    (∃ t c, parse .document (Source.ofText text.toList) = .parsed t c ∧
      (Source.ofText text.toList).tokens = t.tokens ++ c.rest ∧
      Derives [oneRule .document] [t] ∧ Ends [oneRule .document] t.tokens c.rest ∧
      (c.rest = [] ↔ Form.Derivable [oneRule .document] (Source.ofText text.toList).tokens) ∧
      (Act.readSystemText n .full text).run w = (Act.readTree n t).run
        { w with log := w.log ++ (Outcome.parsed t c).log "<TEXT>" (Source.ofText text.toList) }) ∨
    ((¬ ∃ u v, (Source.ofText text.toList).tokens = u ++ v ∧ Ends [oneRule .document] u v) ∧
      ∃ message, ((Act.readSystemText n .full text).run w).1 = .error (.rejectedText message)) := by
  cases h : parse .document (Source.ofText text.toList) with
  | parsed t c =>
      have hr := parse_reads h
      refine .inl ⟨t,c,rfl,by simpa using hr.tokens,hr.derives,parse_ends h,rest_eq_nil_iff h,?_⟩
      exact Act.readSource_parsed h w
  | failed e c =>
      refine .inr ⟨?_,e.report "<TEXT>",Act.readSource_failed h w⟩
      rintro ⟨u,v,hs,hend⟩
      obtain ⟨t,c',hp,-⟩ := parse_document hs hend
      rw [h] at hp
      contradiction

/-- A misspelt keyword is where the document ends, and what stands behind it is lost. -/
example :
    let text := "module org.example 1.0\n\ninterfase xx Failed \x7b\n\n\x7d"
    let read := (Act.readSystemText 0 .full text).run { systems := [{}] }
    read.1.isOk = true ∧
      read.2.systems.flatMap (fun s => s.archive.map fun m => (m.name, m.interfaces.length)) =
        [("org.example", 0)] := by
  decide +kernel

theorem readTree_ok {n : Nat} {t : Grammar.Tree} {w : Workspace} {d : Draft}
    {r : Except Obstacle Unit} (hd : Draft.ofDocument (w.nextModule n) t w.store = (r, d))
    (h : ((Act.readTree n t).run w).1 = .ok ()) :
    r = .ok () ∧ ∀ m, d.module = some m →
      ((Act.readTree n t).run w).2.systems = w.systems.modify n fun s => (s.register m).2 := by
  simp only [Act.readTree,ExceptT.run,hd] at h ⊢
  cases r with
  | error o => contradiction
  | ok u => exact ⟨rfl,fun m hm => by rw [hm]⟩

/-- The walk through an accepted text never misses a symbol, and the module that comes into the
system is, but for the tags and the origins, the one that its document describes. -/
theorem readSystemText_described (n : Nat) (text : String) (w : Workspace) {t : Grammar.Tree}
    {c : Cursor} (h : parse .document (Source.ofText text.toList) = .parsed t c) :
    ∃ doc : Phrase.Document, t = doc.tree ∧
      (∀ o, (Draft.ofDocument (w.nextModule n) t w.store).1 = .error o →
        ∃ cause, o = .failed cause) ∧
      (((Act.readSystemText n .full text).run w).1 = .ok () →
        ∃ m, m.mapCommon Common.plain = doc.describes ∧
          ((Act.readSystemText n .full text).run w).2.systems =
            w.systems.modify n fun s => (s.register m).2) := by
  obtain ⟨doc,rfl⟩ := exists_document h
  obtain ⟨q,hwalk⟩ :=
    Drafting.document_run doc (d := { number := w.nextModule n, store := w.store }) rfl
  have hread : (Act.readSystemText n .full text).run w = (Act.readTree n doc.tree).run
      { w with
        log := w.log ++ (Outcome.parsed doc.tree c).log "<TEXT>" (Source.ofText text.toList) } :=
    Act.readSource_parsed h w
  change match Draft.ofDocument (w.nextModule n) doc.tree w.store with
    | (.ok _, d') => d'.Shows doc.describes { parameter := q }
    | (.error o, _) => ∃ cause, o = .failed cause at hwalk
  rcases hd : Draft.ofDocument (w.nextModule n) doc.tree w.store with ⟨r,d⟩
  rw [hd] at hwalk
  refine ⟨doc,rfl,?_,?_⟩
  · rintro o rfl
    exact hwalk
  · intro hok
    rw [hread] at hok ⊢
    obtain ⟨rfl,hsystems⟩ := readTree_ok hd hok
    obtain ⟨m,hm,hplain⟩ := Option.map_eq_some_iff.mp hwalk.module
    rw [Module.plain_eq_mapCommon] at hplain
    exact ⟨m,hplain,hsystems m hm⟩

/-- Two declarations of one interface: the second one counts. -/
theorem repeated_interface_described :
    let text :=
      "module a 1.0 interface I \x7b int f(list<map<T>> x, int x) const readonly string p \x7d " ++
      "flag F \x7b A, B = 8 \x7d interface I extends J \x7b /** q */ signal g(int y) \x7d"
    let w : Workspace := { systems := [{}] }
    ∃ t c, parse .document (Source.ofText text.toList) = .parsed t c ∧
      ∃ doc : Phrase.Document, t = doc.tree ∧
        ∃ m, m.mapCommon Common.plain = doc.describes ∧
          ((Act.readSystemText 0 .full text).run w).2.systems =
            w.systems.modify 0 fun s => (s.register m).2 := by
  intro text w
  have hok : ((Act.readSystemText 0 .full text).run w).1 = .ok () := by decide +kernel
  cases h : parse .document (Source.ofText text.toList) with
  | failed e c =>
      have hfailed : ((Act.readSystemText 0 .full text).run w).1 = _ := Act.readSource_failed h w
      rw [hok] at hfailed
      nomatch hfailed
  | parsed t c =>
      obtain ⟨doc,ht,-,hm⟩ := readSystemText_described 0 text w h
      exact ⟨t,c,rfl,doc,ht,hm hok⟩

end InterfaceKit
