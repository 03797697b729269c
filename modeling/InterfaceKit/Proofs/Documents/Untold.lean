import InterfaceKit.Proofs.Documents.Mirroring
import InterfaceKit.Proofs.Model.Readings

/-!
# Documents that fail without a word

When a document cannot be read this is told, or it is believed that it has been told: a text that is
rejected is taken for one that the parser has complained of. So nothing is told about bytes that are
no text, nor about values that cannot be made, be they in the document or in its annotations.
-/
namespace InterfaceKit
open Data Grammar Lexical Model Files

/-! ## What is seen of a log -/

namespace Log
variable {watched : Stream → Bool}

/-- No line goes to a stream that is watched. -/
def Unseen (watched : Stream → Bool) (log : Log) : Prop := ∀ l ∈ log, watched l.1 = false

theorem Unseen.nil : Unseen watched [] := List.forall_mem_nil _

theorem unseen_append {log log' : Log} :
    Unseen watched (log ++ log') ↔ log.Unseen watched ∧ log'.Unseen watched :=
  List.forall_mem_append

theorem splitOnAux_ne_nil (s sep : String) (b i j : String.Pos.Raw) (r : List String) :
    s.splitOnAux sep b i j r ≠ [] := by
  fun_induction String.splitOnAux s sep b i j r with
  | case1 => simp
  | case2 => assumption
  | case3 => assumption
  | case4 => assumption

theorem not_unseen_line {s : Stream} (hs : watched s = true) (text : String) :
    ¬ (line s text).Unseen watched := by
  intro h
  have hsplit : text.splitOn "\n" ≠ [] := by
    rw [String.splitOn,if_neg (by decide)]
    exact splitOnAux_ne_nil _ _ _ _ _ _
  obtain ⟨l,hl⟩ := List.exists_mem_of_ne_nil _ hsplit
  have hfalse := h (s, l) (List.mem_map_of_mem hl)
  rw [hs] at hfalse
  cases hfalse

end Log

namespace Model.Reading
variable {watched : Stream → Bool} {m : Module} {r : Reading} {rs : List Reading} {e : Failure}

/-- A value is read, and nothing is seen of it. -/
def Passes [Yaml.Readers] (watched : Stream → Bool) (m : Module) (r : Reading) : Prop :=
  (r.outcome m).2 = none ∧ (r.outcome m).1.Unseen watched

theorem log_of_fails [Yaml.Readers] (h : (r.outcome m).2 = some e) : (r.outcome m).1 = [] := by
  cases r with
  | tags lines | text quoted | number digits =>
    rw [outcome] at h ⊢
    split at h <;> first | rfl | cases h
  | type layer =>
    rw [outcome] at h
    split at h <;> cases h
  | surrogate => rfl

theorem report_none_iff [Yaml.Readers] :
    (report m rs).2 = none ∧ (report m rs).1.Unseen watched ↔ ∀ r ∈ rs, r.Passes watched m := by
  induction rs with
  | nil => exact iff_of_true ⟨rfl,.nil⟩ (List.forall_mem_nil _)
  | cons r rs ih =>
    rw [List.forall_mem_cons,← ih,Passes]
    cases hr : (r.outcome m).2 with
    | none =>
      rw [report_cons_of_none hr,Log.unseen_append]
      tauto
    | some e =>
      rw [report_cons_of_some hr,hr]
      simp

/-- The first value that cannot be read, and nothing is seen before it. -/
theorem report_some_iff [Yaml.Readers] :
    (report m rs).2 = some e ∧ (report m rs).1.Unseen watched ↔
      ∃ before r after, rs = before ++ r :: after ∧ (∀ q ∈ before, q.Passes watched m) ∧
      (r.outcome m).2 = some e := by
  constructor
  · rintro ⟨hsome,hunseen⟩
    induction rs with
    | nil => cases hsome
    | cons r rs ih =>
      cases hr : (r.outcome m).2 with
      | none =>
        rw [report_cons_of_none hr] at hsome hunseen
        obtain ⟨hfirst,hrest⟩ := Log.unseen_append.mp hunseen
        obtain ⟨before,q,after,rfl,hbefore,hq⟩ := ih hsome hrest
        exact ⟨r :: before,q,after,rfl,List.forall_mem_cons.mpr ⟨⟨hr,hfirst⟩,hbefore⟩,hq⟩
      | some e' =>
        rw [report_cons_of_some hr] at hsome
        exact ⟨[],r,rs,rfl,List.forall_mem_nil _,hsome⟩
  · rintro ⟨before,r,after,rfl,hbefore,hr⟩
    obtain ⟨hnone,hunseen⟩ := report_none_iff.mpr hbefore
    rw [report_append_of_none hnone,report_cons_of_some hr,log_of_fails hr,List.append_nil]
    exact ⟨hr,hunseen⟩

end Model.Reading

/-! ## Files -/

namespace Workspace
variable {w w' : Workspace} {p : Path} {e : Failure}

def bytesAt (w : Workspace) (p : Path) : Option (List UInt8) :=
  (w.files.locate w.folder p).bind w.files.bytes?

def textAt (w : Workspace) (p : Path) : Option (List Char) := (w.bytesAt p).bind Text.utf8Decode?

/-- A file is there whose bytes are no text. -/
def Garbled (w : Workspace) (p : Path) : Prop := (w.bytesAt p).isSome = true ∧ w.textAt p = none

/-- A value of a data document cannot be made. -/
def Unmade [Yaml.Readers] (w : Workspace) (p : Path) (e : Failure) : Prop :=
  ∃ text, w.textAt p = some text ∧ Yaml.Readers.documents (Act.joinBreaks text) = .error (.failed e)

theorem Unmade.there [Yaml.Readers] (h : w.Unmade p e) : (w.bytesAt p).isSome = true := by
  obtain ⟨text,htext,-⟩ := h
  obtain ⟨bytes,hbytes,-⟩ := Option.bind_eq_some_iff.mp htext
  rw [hbytes]
  rfl

theorem SameFiles.bytesAt (h : w.SameFiles w') (p : Path) : w'.bytesAt p = w.bytesAt p := by
  rw [Workspace.bytesAt,Workspace.bytesAt,h.files,h.folder]

theorem SameFiles.textAt (h : w.SameFiles w') (p : Path) : w'.textAt p = w.textAt p := by
  rw [Workspace.textAt,Workspace.textAt,h.bytesAt]

theorem SameFiles.garbled_iff (h : w.SameFiles w') : w'.Garbled p ↔ w.Garbled p := by
  rw [Garbled,Garbled,h.bytesAt,h.textAt]

theorem SameFiles.unmade_iff [Yaml.Readers] (h : w.SameFiles w') : w'.Unmade p e ↔ w.Unmade p e := by
  rw [Unmade,Unmade,h.textAt]

end Workspace

namespace Act
variable {n : Nat} {document : String} {w w' : Workspace} {p : Path} {text : List Char} {e : Failure}

theorem run_readBytes {bytes : List UInt8} (h : w.bytesAt p = some bytes) :
    (readBytes p).run w = (.ok bytes, w) := by
  obtain ⟨l,hl,hbytes⟩ := Option.bind_eq_some_iff.mp h
  rw [readBytes,run_get_bind,hl]
  dsimp only
  rw [hbytes]
  rfl

theorem readText_of_textAt (h : w.textAt p = some text) : (readText p).run w = (.ok text, w) := by
  obtain ⟨bytes,hbytes,htext⟩ := Option.bind_eq_some_iff.mp h
  rw [readText,run_bind_ok (run_readBytes hbytes),htext]
  rfl

theorem readText_of_garbled (h : w.Garbled p) : (readText p).run w = (.error .undecodable, w) := by
  obtain ⟨hsome,htext⟩ := h
  obtain ⟨bytes,hbytes⟩ := Option.isSome_iff_exists.mp hsome
  rw [Workspace.textAt,hbytes,Option.bind_some] at htext
  rw [readText,run_bind_ok (run_readBytes hbytes),htext]
  rfl

theorem readText_of_none (h : w.bytesAt p = none) :
    ∃ e, e.isRejection = false ∧ (readText p).run w = (.error e, w) := by
  rw [readText,run_bind,readBytes,run_get_bind]
  cases hl : w.files.locate w.folder p with
  | none => exact ⟨_,rfl,rfl⟩
  | some l =>
    rw [Workspace.bytesAt,hl,Option.bind_some] at h
    dsimp only
    rw [h]
    refine ⟨_,?_,rfl⟩
    split <;> rfl

theorem readText_cases (p : Path) (w : Workspace) :
    (∃ text, w.textAt p = some text ∧ (readText p).run w = (.ok text, w)) ∨
      ∃ e, (readText p).run w = (.error e, w) ∧ (e.isRejection = true → w.Garbled p) := by
  cases hbytes : w.bytesAt p with
  | none =>
    obtain ⟨e,he,hrun⟩ := readText_of_none hbytes
    exact .inr ⟨e,hrun,fun hrejection => by rw [he] at hrejection; cases hrejection⟩
  | some bytes =>
    cases htext : w.textAt p with
    | some text => exact .inl ⟨text,rfl,readText_of_textAt htext⟩
    | none =>
      have hgarbled : w.Garbled p := ⟨by rw [hbytes]; rfl,htext⟩
      exact .inr ⟨_,readText_of_garbled hgarbled,fun _ => hgarbled⟩

theorem fileExists_of_bytesAt (h : (w.bytesAt p).isSome = true) :
    (fileExists p).run w = (.ok true, w) := by
  have hrun : (fileExists p).run w =
    (.ok (((w.files.locate w.folder p).map w.files.exists?).getD false), w) := rfl
  obtain ⟨bytes,hbytes⟩ := Option.isSome_iff_exists.mp h
  obtain ⟨l,hl,hbytes⟩ := Option.bind_eq_some_iff.mp hbytes
  rw [hrun,hl,Option.map_some,Option.getD_some,Tree.exists?,Tree.isFile,hbytes]
  rfl

/-! ## Annotations -/

theorem loadYaml_of_garbled [Yaml.Readers] (h : w.Garbled p) :
    (loadYaml p false).run w = (.error .undecodable, w) := by
  rw [loadYaml,run_bind_ok (fileExists_of_bytesAt h.1),if_neg (by decide),run_bind,
    readText_of_garbled h]

theorem loadYaml_of_unmade [Yaml.Readers] (h : w.Unmade p e) :
    (loadYaml p false).run w = (.error e, w) := by
  have hthere := h.there
  obtain ⟨text,htext,hload⟩ := h
  rw [loadYaml,run_bind_ok (fileExists_of_bytesAt hthere),if_neg (by decide),
    run_bind_ok (readText_of_textAt htext)]
  rw [run_get_bind,Yaml.load_error_iff.mpr hload]
  rfl

/-- Why a data document cannot be loaded: faults are not tolerated, or its bytes or one of its
values are at fault. -/
theorem loadYaml_error [Yaml.Readers] (h : (loadYaml p false).run w = (.error e, w')) :
    e = .exit (-1) ∨ w' = w ∧ (e.isRejection = true → w.Garbled p ∨ w.Unmade p e) := by
  rw [loadYaml,run_bind_ok (show (fileExists p).run w = (.ok _, w) from rfl)] at h
  split at h
  · cases h
  · rw [run_bind] at h
    rcases readText_cases p w with ⟨text,htext,hrun⟩ | ⟨e',hrun,hgarbled⟩
    · rw [hrun] at h
      dsimp only at h
      rw [run_get_bind] at h
      split at h
      · cases h
      · rename_i e' hload
        cases h
        exact .inr ⟨rfl,fun _ => .inr ⟨text,htext,Yaml.load_error_iff.mp hload⟩⟩
      · rw [run_bind_ok (run_print ..)] at h
        split at h
        · cases h
          exact .inl rfl
        · cases h
    · rw [hrun] at h
      cases h
      exact .inr ⟨rfl,fun hrejection => .inl (hgarbled hrejection)⟩

theorem mergeAnnotations_of_loadYaml [Yaml.Readers]
    (hthere : (w.bytesAt (.ofString document)).isSome = true)
    (h : (loadYaml (.ofString document) false).run w = (.error e, w)) :
    (mergeAnnotations n document).run w = (.error e, w) := by
  rw [mergeAnnotations,run_bind_ok (fileExists_of_bytesAt hthere),if_neg (by decide),run_bind,h]

theorem mergeAnnotations_error [Yaml.Readers]
    (h : (mergeAnnotations n document).run w = (.error e, w')) :
    e = .exit (-1) ∨ w' = w ∧ (e.isRejection = true →
      w.Garbled (.ofString document) ∨ w.Unmade (.ofString document) e) := by
  rw [mergeAnnotations,
    run_bind_ok (show (fileExists (.ofString document)).run w = (.ok _, w) from rfl)] at h
  split at h
  · cases h
  · rw [run_bind] at h
    cases hload : (loadYaml (.ofString document) false).run w with
    | mk r w₁ =>
      rw [hload] at h
      cases r with
      | error e' =>
        cases h
        exact loadYaml_error hload
      | ok data =>
        refine .inl ?_
        dsimp only at h
        rw [run_bind_ok (run_store _)] at h
        split at h
        · cases h
        · rw [run_bind_ok (run_print ..),run_bind_ok (run_attempt ..)] at h
          split at h
          · cases h
          · rw [run_bind_ok (run_print ..),run_get_bind] at h
            split at h
            · cases h
              rfl
            · cases h

/-! ## Texts -/

/-- Reading a text that the parser accepts prints what the parser prints and what its readings
print, and it fails as these fail. -/
theorem readSource_report [Yaml.Readers] {doc : Phrase.Document} {c : Cursor}
    (h : parse .document (Source.ofText text) = .parsed doc.tree c) (n : Nat) (document : String)
    (w : Workspace) :
    ∃ w', (readSource n .full document text).run w =
        ((Reading.report doc.describes (Reading.ofTree doc.tree)).2.elim (.ok ()) .error, w') ∧
      w.SameFiles w' ∧
      w'.log = w.log ++ ((Outcome.parsed doc.tree c).log document (Source.ofText text) ++
        (Reading.report doc.describes (Reading.ofTree doc.tree)).1) := by
  obtain ⟨hlog,hresult⟩ := ofDocument_report doc (w.nextModule n) w.store
  refine ⟨_,Prod.ext ?_ rfl,?_,?_⟩
  · rw [readSource_parsed h]
    change (Draft.ofDocument (w.nextModule n) doc.tree w.store).1.mapError Obstacle.failure = _
    rw [hresult]
    cases (Reading.report doc.describes (Reading.ofTree doc.tree)).2 <;> rfl
  · rw [readSource_parsed h]
    exact ⟨rfl,rfl,rfl⟩
  · rw [readSource_parsed h,← hlog,← List.append_assoc]
    rfl

end Act

/-! ## Documents -/

namespace Workspace
variable {watched : Stream → Bool} {w w' : Workspace} {document : String}

def annotationsOf (document : String) : Path := .ofString (withoutExtension document ++ ".yaml")

/-- The parser accepts a document, and nothing is seen of that. -/
def Accepts (watched : Stream → Bool) (w : Workspace) (document : String) (doc : Phrase.Document) :
    Prop :=
  ∃ text c, w.textAt (.ofString document) = some text ∧
    parse .document (Source.ofText text) = .parsed doc.tree c ∧
    ((Outcome.parsed doc.tree c).log document (Source.ofText text)).Unseen watched

/-- Why a document cannot be read without anything being seen: its bytes are no text, or a value in
it or in its annotations cannot be made, and so far nothing was remarked on. -/
inductive Untold [Yaml.Readers] (watched : Stream → Bool) (profile : Profile) (document : String)
    (w : Workspace) : Prop
  | bytes (h : w.Garbled (.ofString document))
  | value {doc : Phrase.Document} {before after : List Model.Reading} {r : Model.Reading} {e :
      Failure}
      (hprofile : profile = .full) (hdoc : w.Accepts watched document doc)
      (hreadings : Model.Reading.ofTree doc.tree = before ++ r :: after)
      (hbefore : ∀ q ∈ before, q.Passes watched doc.describes) (hvalue :
        (r.outcome doc.describes).2 = some e)
      (hrejection : e.isRejection = true)
  | annotations {doc : Phrase.Document} (hprofile : profile = .full) (hdoc :
      w.Accepts watched document doc)
      (hreadings : ∀ q ∈ Model.Reading.ofTree doc.tree, q.Passes watched doc.describes)
      (h : w.Garbled (annotationsOf document) ∨ ∃ e, w.Unmade (annotationsOf document) e ∧
        e.isRejection = true)

end Workspace

namespace Act
variable {watched : Stream → Bool} {n : Nat} {profile : Profile} {document : String}
  {w w' : Workspace} {e : Failure}

theorem readFile_of_untold [Yaml.Readers] (h : w.Untold watched profile document) :
    ∃ e w' lines, e.isRejection = true ∧ (readFile n profile document).run w = (.error e, w') ∧
      w.SameFiles w' ∧ w'.log = w.log ++ lines ∧ lines.Unseen watched := by
  cases h with
  | bytes h =>
    refine ⟨.undecodable,w,[],rfl,?_,.refl w,(List.append_nil _).symm,.nil⟩
    rw [readFile,run_bind,readText_of_garbled h]
  | @value doc before after r e hprofile hdoc hreadings hbefore hvalue hrejection =>
    subst hprofile
    obtain ⟨text,c,htext,hparse,hunseen⟩ := hdoc
    obtain ⟨w',hrun,hfiles,hlog⟩ := readSource_report hparse n document w
    obtain ⟨hsome,hlines⟩ := Reading.report_some_iff.mpr ⟨before,r,after,hreadings,hbefore,hvalue⟩
    refine ⟨e,w',_,hrejection,?_,hfiles,hlog,Log.unseen_append.mpr ⟨hunseen,hlines⟩⟩
    rw [readFile,run_bind_ok (readText_of_textAt htext),run_bind,hrun,hsome]
    rfl
  | @annotations doc hprofile hdoc hreadings h =>
    subst hprofile
    obtain ⟨text,c,htext,hparse,hunseen⟩ := hdoc
    obtain ⟨w',hrun,hfiles,hlog⟩ := readSource_report hparse n document w
    obtain ⟨hnone,hlines⟩ := Reading.report_none_iff.mpr hreadings
    have hmerge : ∃ e, e.isRejection = true ∧
        (mergeAnnotations n (withoutExtension document ++ ".yaml")).run w' = (.error e, w') := by
      rcases h with hgarbled | ⟨e,hunmade,hrejection⟩
      · rw [← hfiles.garbled_iff] at hgarbled
        exact ⟨_,rfl,mergeAnnotations_of_loadYaml hgarbled.1 (loadYaml_of_garbled hgarbled)⟩
      · rw [← hfiles.unmade_iff] at hunmade
        exact ⟨e,hrejection,mergeAnnotations_of_loadYaml hunmade.there (loadYaml_of_unmade hunmade)⟩
    obtain ⟨e,hrejection,hmerge⟩ := hmerge
    refine ⟨e,w',_,hrejection,?_,hfiles,hlog,Log.unseen_append.mpr ⟨hunseen,hlines⟩⟩
    rw [readFile,run_bind_ok (readText_of_textAt htext),run_bind,hrun,hnone]
    exact hmerge

/-- A document cannot be read because faults are not tolerated, or it is known what was printed; a
rejection that is not seen has one of the reasons above. -/
theorem readFile_error [Yaml.Readers] (hout : watched .out = true)
    (h : (readFile n profile document).run w = (.error e, w')) :
    e = .exit (-1) ∨ w.SameFiles w' ∧ ∃ lines, w'.log = w.log ++ lines ∧
      (e.isRejection = true → lines.Unseen watched → w.Untold watched profile document) := by
  rw [readFile,run_bind] at h
  rcases readText_cases (.ofString document) w with ⟨text,htext,hrun⟩ | ⟨e',hrun,hgarbled⟩
  · rw [hrun] at h
    dsimp only at h
    rw [run_bind] at h
    cases hparse : parse .document (Source.ofText text) with
    | failed error c =>
      rw [run_readSource_failed hparse] at h
      cases h
      refine .inr ⟨⟨rfl,rfl,rfl⟩,_,rfl,fun _ hunseen => ?_⟩
      exact absurd (Log.unseen_append.mp hunseen).2 (Log.not_unseen_line hout _)
    | parsed tree c =>
      by_cases hprofile : profile = .full
      · subst hprofile
        obtain ⟨doc,rfl⟩ := exists_document hparse
        obtain ⟨w₁,hsource,hfiles,hlog⟩ := readSource_report hparse n document w
        rw [hsource] at h
        have haccepts : ∀ {lines : Log},
            ((Outcome.parsed doc.tree c).log document (Source.ofText text) ++ lines).Unseen watched →
              w.Accepts watched document doc ∧ lines.Unseen watched := by
          intro lines hunseen
          obtain ⟨hparser,hlines⟩ := Log.unseen_append.mp hunseen
          exact ⟨⟨text,c,htext,hparse,hparser⟩,hlines⟩
        cases hresult : (Reading.report doc.describes (Reading.ofTree doc.tree)).2 with
        | some e' =>
          rw [hresult] at h
          cases h
          refine .inr ⟨hfiles,_,hlog,fun hrejection hunseen => ?_⟩
          obtain ⟨hdoc,hlines⟩ := haccepts hunseen
          obtain ⟨before,r,after,hreadings,hbefore,hvalue⟩ :=
            Reading.report_some_iff.mp ⟨hresult,hlines⟩
          exact .value rfl hdoc hreadings hbefore hvalue hrejection
        | none =>
          rw [hresult] at h
          rcases mergeAnnotations_error h with hexit | ⟨rfl,hreason⟩
          · exact .inl hexit
          · refine .inr ⟨hfiles,_,hlog,fun hrejection hunseen => ?_⟩
            obtain ⟨hdoc,hlines⟩ := haccepts hunseen
            refine .annotations rfl hdoc (Reading.report_none_iff.mp ⟨hresult,hlines⟩) ?_
            rw [hfiles.garbled_iff,hfiles.unmade_iff] at hreason
            exact (hreason hrejection).imp_right fun hunmade => ⟨_,hunmade,hrejection⟩
      · rw [run_readSource_other hparse hprofile] at h
        cases h
        exact .inr ⟨⟨rfl,rfl,rfl⟩,_,rfl,fun hrejection => absurd hrejection Bool.false_ne_true⟩
  · rw [hrun] at h
    cases h
    exact .inr ⟨.refl w,[],(List.append_nil _).symm,fun hrejection _ => .bytes (hgarbled hrejection)⟩

theorem run_giveUp (w : Workspace) : (do
    if (← get).strictDocuments then throw (.exit (-1))
    return false : Act Bool).run w =
      (if w.strictDocuments then .error (.exit (-1)) else .ok false, w) := by
  rw [run_get_bind]
  split <;> rfl

theorem run_readDocument_rejected [Yaml.Readers]
    (h : (readFile n profile document).run w = (.error e, w')) (he : e.isRejection = true) :
    (readDocument n profile document).run w =
      (if w'.strictDocuments then .error (.exit (-1)) else .ok false, w') := by
  rw [readDocument,run_bind,run_attempt,h,← run_giveUp]
  dsimp only
  split
  · rename_i heq
    cases heq
  · rename_i heq
    cases heq
    cases he
  · rename_i heq
    cases heq
    split
    · cases he
    · rw [if_neg (by rw [he]; decide)]

theorem run_readDocument_told [Yaml.Readers]
    (h : (readFile n profile document).run w = (.error e, w')) (he : e.isRejection = false)
    (hexit : ∀ code, e ≠ .exit code) :
    ∃ text, (readDocument n profile document).run w =
      (if w'.strictDocuments then .error (.exit (-1)) else .ok false,
        { w' with log := w'.log ++ Log.line .err text }) := by
  have hgiveUp := fun text => run_giveUp { w' with log := w'.log ++ Log.line .err text }
  rw [readDocument,run_bind,run_attempt,h]
  dsimp only
  split
  · rename_i heq
    cases heq
  · rename_i code heq
    cases heq
    exact absurd rfl (hexit code)
  · rename_i heq
    cases heq
    split
    · exact ⟨_,hgiveUp _⟩
    · rw [if_pos (by rw [he]; rfl)]
      exact ⟨_,hgiveUp _⟩

theorem run_readDocument_exit [Yaml.Readers] {code : Int}
    (h : (readFile n profile document).run w = (.error (.exit code), w')) :
    (readDocument n profile document).run w = (.error (.exit code), w') := by
  rw [readDocument,run_bind,run_attempt,h]
  rfl

theorem run_readDocument_ok [Yaml.Readers] (h : (readFile n profile document).run w = (.ok (), w')) :
    (readDocument n profile document).run w = (.ok true, w') := by
  rw [readDocument,run_bind,run_attempt,h]
  rfl

/-- A document that cannot be read is told of on a stream that is watched, unless its bytes are no
text or a value in it or in its annotations cannot be made, and so far nothing was remarked on. In
these cases reading fails indeed. -/
theorem readDocument_untold_iff [Yaml.Readers] (hout : watched .out = true)
    (herr : watched .err = true) (n : Nat) (profile : Profile) (document : String) (w : Workspace) :
    (∀ w', (readDocument n profile document).run w = (.ok false, w') →
      ∃ lines, w'.log = w.log ++ lines ∧
      (lines.Unseen watched ↔ w.Untold watched profile document)) ∧
    (w.strictDocuments = false → w.Untold watched profile document →
      ∃ w', (readDocument n profile document).run w = (.ok false, w')) := by
  refine ⟨fun w'' hrun => ?_,fun hstrict huntold => ?_⟩
  · cases hfile : (readFile n profile document).run w with
    | mk r w' =>
        cases r with
        | ok u =>
            rw [run_readDocument_ok hfile] at hrun
            cases hrun
        | error e =>
            by_cases hexit : ∃ code, e = .exit code
            · obtain ⟨code,rfl⟩ := hexit
              rw [run_readDocument_exit hfile] at hrun
              cases hrun
            · have hexit : ∀ code, e ≠ .exit code := fun code he => hexit ⟨code,he⟩
              obtain ⟨hfiles,lines,hlog,huntold⟩ :=
                (readFile_error hout hfile).resolve_left (hexit (-1))
              cases he : e.isRejection with
              | true =>
                  rw [run_readDocument_rejected hfile he] at hrun
                  obtain rfl : w' = w'' := congrArg Prod.snd hrun
                  refine ⟨lines,hlog,huntold he,fun h => ?_⟩
                  obtain ⟨e',w₁,lines',-,hfile',-,hlog',hunseen⟩ := readFile_of_untold (n := n) h
                  obtain ⟨-,rfl⟩ := Prod.mk.inj (hfile.symm.trans hfile')
                  rwa [List.append_cancel_left (hlog.symm.trans hlog')]
              | false =>
                  obtain ⟨text,htold⟩ := run_readDocument_told hfile he hexit
                  rw [htold] at hrun
                  have hlast : w''.log = w'.log ++ Log.line .err text := congrArg (·.2.log) hrun.symm
                  refine ⟨lines ++ Log.line .err text,?_,iff_of_false ?_ fun h => ?_⟩
                  · rw [hlast,hlog,List.append_assoc]
                  · exact fun hunseen =>
                      Log.not_unseen_line herr text (Log.unseen_append.mp hunseen).2
                  · obtain ⟨e',w₁,-,he',hfile',-⟩ := readFile_of_untold (n := n) h
                    rw [hfile] at hfile'
                    cases hfile'
                    rw [he] at he'
                    cases he'
  · obtain ⟨e,w',-,he,hfile,hfiles,-⟩ := readFile_of_untold (n := n) huntold
    refine ⟨w',?_⟩
    rw [run_readDocument_rejected hfile he,← hfiles.strict,hstrict]
    rfl

/-- A document with a number that begins with a zero. -/
def misnumbered : Workspace where
  systems := [{}]
  files := { files := [(["a.qface"], "module a 1.0\nenum E \x7b x = 010 \x7d".toUTF8.toList)] }

/-- The number cannot be read, and not a line is printed. -/
theorem misnumbered_untold :
    ∃ w', (readDocument 0 .full "a.qface").run misnumbered = (.ok false, w') ∧
      w'.log = misnumbered.log ∧ misnumbered.Untold (fun _ => true) .full "a.qface" := by
  have hrun : (((readDocument 0 .full "a.qface").run misnumbered).1,
      ((readDocument 0 .full "a.qface").run misnumbered).2.log) =
        (.ok false, misnumbered.log) := by decide +kernel
  obtain ⟨hfalse,hsame⟩ := Prod.mk.inj hrun
  obtain ⟨lines,hlog,huntold⟩ :=
    (@readDocument_untold_iff (fun _ => true) _ rfl rfl 0 .full "a.qface"
    misnumbered).1 _ (Prod.ext hfalse rfl)
  rw [hsame] at hlog
  obtain rfl : lines = [] := List.self_eq_append_right.mp hlog
  exact ⟨_,Prod.ext hfalse rfl,hsame,huntold.mp .nil⟩

end Act

end InterfaceKit
