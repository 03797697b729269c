import InterfaceKit.Proofs.Documents.Reading
import InterfaceKit.Proofs.Model.Extending
import InterfaceKit.Proofs.Model.Lookup
import InterfaceKit.Proofs.Model.Types

/-!
# Systems that are built from texts

Texts are read into a system one after the other. Some may be refused, and the walk through one may
end early and leave half a module. In all these systems symbols stand under their names, so what is
said about looking up names holds of them.
-/
namespace InterfaceKit
open Grammar Lexical Model

namespace Workspace

/-- The workspaces in which the system `n` has come about by reading texts, into it or into
others. -/
inductive Built (n : Nat) : Workspace → Prop
  | new {w w' : Workspace} (h : Act.newSystem.run w = (.ok n, w')) : Built n w'
  | read {w : Workspace} (h : Built n w) (k : Nat) (profile : Profile) (text : String) :
      Built n ((Act.readSystemText k profile text).run w).2

variable {w w' : Workspace} {n : Nat} {f : System → System}

theorem systemAt_of_getElem? {s : System} (h : w.systems[n]? = some s) : w.systemAt n = s := by
  simp [systemAt,List.getD_eq_getElem?_getD,h]

theorem systemAt_newSystem (h : Act.newSystem.run w = (.ok n, w')) :
    n < w'.systems.length ∧ ∃ tags, w'.systemAt n = { tags } := by
  obtain ⟨hn,rfl⟩ := Prod.mk.inj h
  obtain rfl := Except.ok.inj hn
  exact ⟨by simp,_,by simp [systemAt]; rfl⟩

theorem systemAt_modify {k : Nat} (n : Nat) (h : w'.systems = w.systems.modify k f) :
    w'.systemAt n = w.systemAt n ∨ k = n ∧ w'.systemAt n = f (w.systemAt n) := by
  simp only [systemAt,h,List.getD_eq_getElem?_getD,List.getElem?_modify]
  cases w.systems[n]? with
  | none => simp
  | some s =>
    by_cases hk : k = n
    · simp [hk]
    · simp [hk]

theorem systemAt_modify_self
    (h : w'.systems = w.systems.modify n f) (hn : n < w.systems.length) :
    w'.systemAt n = f (w.systemAt n) := by
  have hs : w.systems[n]? = some w.systems[n] := List.getElem?_eq_getElem hn
  have hs' : w'.systems[n]? = some (f w.systems[n]) := by
    rw [h,List.getElem?_modify_eq,hs]
    rfl
  rw [systemAt_of_getElem? hs,systemAt_of_getElem? hs']

end Workspace

/-- A module as every walk leaves it that gives it a number. -/
structure Model.Module.Kept (number : Nat) (m : Module) : Prop where
  named : m.Named
  placed : m.Placed number
  decided : m.enums.All Enum.Decided
  fresh : m.AllTypes TypeExpr.Fresh
  untyped : m.Untyped

def Grammar.Outcome.headName : Outcome Grammar.Tree → String
  | .parsed t _ => ((t.node? .header).bind (·.node? .moduleHead)).elim "" Drafting.nameOf
  | .failed _ _ => ""

theorem Grammar.Outcome.headName_document (doc : Phrase.Document) (c : Cursor) :
    (Outcome.parsed doc.tree c).headName = doc.header.head.name.val.text := by
  simp [headName,Phrase.Document.tree,Phrase.Document.parts,Phrase.Header.parts,
    Phrase.ModuleHead.parts,Drafting.nameOf,Drafting.textOf,Tree.node?_node,Tree.token?_node]

/-- Reading a text leaves the systems as they are and fails, or it registers a module that its head
names. When it succeeds the types of the module are well formed. -/
theorem readSource_registers (k : Nat) (profile : Profile) (document : String) (text : List Char)
    (w : Workspace) :
    (((Act.readSource k profile document text).run w).2.systems = w.systems ∧
      ((Act.readSource k profile document text).run w).1 ≠ .ok ()) ∨
    ∃ m : Module, m.Kept (w.nextModule k) ∧
      (m.name = (parse .document (Source.ofText text)).headName ∧
      (((Act.readSource k profile document text).run w).1 = .ok () → m.Typed)) ∧
      ((Act.readSource k profile document text).run w).2.systems = w.systems.modify k fun s =>
      (s.register m).2 := by
  cases h : parse .document (Source.ofText text) with
  | failed e c =>
    rw [Act.run_readSource_failed h]
    exact .inl ⟨rfl,by simp⟩
  | parsed t c =>
    by_cases hprofile : profile = .full
    · subst hprofile
      obtain ⟨doc,rfl⟩ := exists_document h
      obtain ⟨-,hhead⟩ := ofDocument_begins doc (w.nextModule k) w.store
      obtain ⟨m,hm,hnamed⟩ := Option.map_eq_some_iff.mp hhead
      rw [Act.readSource_parsed h]
      simp only [Act.readTree,ExceptT.run,Act.nextModule_log,hm]
      refine .inr ⟨m,⟨ofDocument_named h w.store hm,ofDocument_placed _ w.store hm,
        ofDocument_decided doc.tree w.store hm,ofDocument_fresh h w.store hm,
          ofDocument_untyped _ w.store hm⟩,
        ⟨(Prod.mk.inj hnamed).1.trans (Outcome.headName_document doc c).symm,fun hok => ?_⟩,rfl⟩
      exact ofDocument_typed doc w.store hm (by
        cases hr : (Draft.ofDocument (w.nextModule k) doc.tree w.store).1 with
        | ok _ => rfl
        | error o =>
          rw [hr] at hok
          cases hok)
    · rw [Act.run_readSource_other h hprofile]
      exact .inl ⟨rfl,by simp⟩

/-- What holds of a system, and still does when a module is registered, holds after every text. -/
theorem Workspace.readSystemText_keeps {P : System → Prop} {w : Workspace} {n : Nat}
    (hregister : ∀ m s, m.Kept s.archive.length → P s → P (s.register m).2) (k : Nat)
    (profile : Profile) (text : String) (h : P (w.systemAt n)) :
    P (((Act.readSystemText k profile text).run w).2.systemAt n) := by
  rw [Act.readSystemText]
  rcases readSource_registers k profile _ text.toList w with ⟨hsame,-⟩ | ⟨m,hm,-,hregistered⟩
  · rw [systemAt,hsame]
    exact h
  · rcases systemAt_modify n hregistered with hs | ⟨rfl,hs⟩
    · rw [hs]
      exact h
    · rw [hs]
      exact hregister m _ hm h

namespace Workspace.Built
variable {n : Nat} {w : Workspace}

theorem named (h : w.Built n) : (w.systemAt n).Named := by
  induction h with
  | @new w w' h =>
    obtain ⟨-,tags,hsystem⟩ := systemAt_newSystem h
    rw [hsystem]
    exact ⟨Table.All.nil,List.nodup_nil,fun _ hm => nomatch hm⟩
  | read _ k profile text ih =>
    exact readSystemText_keeps (fun m s hm hs => hs.register hm.named) k profile text ih

/-- Qualified names lead back to their symbols. A symbol is meant that its module holds under its
name, one without dots, and no module must have its qualified name. The same goes for what such a
symbol holds. -/
theorem lookup_qualified (hw : w.Built n) :
    let s := w.systemAt n
    ∀ id ∈ s.modules, ∃ m, s.module? id = some m ∧ s.lookup m.name = .ok (.symbol ⟨id,.module⟩) ∧
      ∀ p c, m.common? p = some c → m.content? .module c.name = some p → '.' ∉ c.name.toList →
        s.moduleNamed? (m.name ++ "." ++ c.name) = none →
        s.lookup (m.qualifiedName p c.name) = .ok (.symbol ⟨id,p⟩) ∧
          s.lookupFrom id c.name none = .ok (.symbol ⟨id,p⟩) ∧
          ∀ x y, m.common? x = some y → m.content? p y.name = some x →
            s.lookup (m.qualifiedName x y.name) = .ok (.symbol ⟨id,x⟩) := by
  intro s id hid
  have hs : s.Named := hw.named
  obtain ⟨⟨name,_⟩,hentry,rfl⟩ := List.mem_map.mp hid
  obtain ⟨m,hm,-⟩ := hs.listed _ hentry
  have hname := hs.moduleNamed?_name hid hm
  refine ⟨m,hm,System.lookup_module hname,?_⟩
  intro p c hc hp hdot hfree
  refine ⟨?_,?_,?_⟩
  · rw [Module.qualifiedName_symbol hp,Module.qualify,if_neg (by simpa using hdot)]
    exact hs.lookup_symbol hname hm hp hdot hfree
  · simp [System.lookupFrom,System.localSymbol?_symbol hm hp]
  · intro x y hy hx
    rw [Module.qualifiedName_content hp hx]
    exact hs.lookup_content hname hm hp hdot hx ((hs.module hm).isName hy)

/-- A property and a signal of one dotted name, in an interface that hides a structure: the property
is found. -/
theorem dotted_property_found :
    let text := "module a.b 1.0 interface I \x7b signal x.y() int x.y \x7d struct I \x7b \x7d"
    let w := ((Act.readSystemText 0 .full text).run (Act.newSystem.run {}).2).2
    w.Built 0 ∧ (w.systemAt 0).lookup "a.b" = .ok (.symbol ⟨0,.module⟩) ∧
      (w.systemAt 0).lookup "a.b.I" = .ok (.symbol ⟨0,.interface "I"⟩) ∧
      (w.systemAt 0).lookup "a.b.I#x.y" = .ok (.symbol ⟨0,.property "I" "x.y"⟩) := by
  intro text w
  have hnew : Built 0 (Act.newSystem.run {}).2 := .new (w := {}) rfl
  have hw : w.Built 0 := hnew.read 0 .full text
  have hdirectory : (w.systemAt 0).directory = [("a.b", 0)] := by decide +kernel
  have hread : ((w.systemAt 0).module? 0).map (fun m =>
      (m.name,
        [(m.common? (.interface "I")).map (·.name),(m.common? (.property "I" "x.y")).map (·.name)],
          [m.content? .module "I",m.content? (.interface "I") "x.y"])) =
      some ("a.b", [some "I",some "x.y"], [some (.interface "I"),some (.property "I" "x.y")]) := by
    decide +kernel
  obtain ⟨m,hm,hlookup,hsymbol⟩ :=
    lookup_qualified hw 0 (by simp [System.modules,hdirectory,Table.values])
  rw [hm] at hread
  simp only [Option.map_some,Option.some.injEq,Prod.mk.injEq,List.cons.injEq,Option.map_eq_some_iff,
    and_true] at hread
  obtain ⟨hname,⟨⟨c,hc,hcname⟩,y,hy,hyname⟩,hp,hx⟩ := hread
  obtain ⟨hfound,-,hcontent⟩ := hsymbol (.interface "I") c hc (by rw [hcname]; exact hp)
    (by rw [hcname]; decide) (by rw [hname,hcname,System.moduleNamed?,hdirectory]; decide)
  have hfound' := hcontent (.property "I" "x.y") y hy (by rw [hyname]; exact hx)
  rw [hcname,Module.qualifiedName_symbol hp,Module.qualify,hname] at hfound
  rw [hyname,Module.qualifiedName_content hp hx,hname] at hfound'
  rw [hname] at hlookup
  exact ⟨hw,hlookup,hfound,hfound'⟩

/-- A name without a number sign is answered by what has this name, but for one case: where its
module lacks the type the last part of the name is looked up alone, and what it names answers
instead. -/
theorem lookup_answers_or_strays (hw : w.Built n) {name : String} (hname : '#' ∉ name.toList)
    (e : Entity) :
    ((w.systemAt n).lookup name = .ok e → (w.systemAt n).Answers name e ∨
      (w.systemAt n).Strays name e) ∧
      ((w.systemAt n).Strays name e →
        (w.systemAt n).lookup name = .ok e ∧ ¬ (w.systemAt n).Answers name e) :=
  ⟨hw.named.lookup_cases hname,hw.named.lookup_of_strays hname⟩

/-- There is no symbol `a.b`, and the module `b` answers to this name. -/
theorem missing_symbol_strays :
    let w := ((Act.readSystemText 0 .full "module b 1.0").run
      ((Act.readSystemText 0 .full "module a 1.0").run (Act.newSystem.run {}).2).2).2
    w.Built 0 ∧ (w.systemAt 0).lookup "a.b" = .ok (.symbol ⟨1,.module⟩) ∧
      ¬ (w.systemAt 0).Answers "a.b" (.symbol ⟨1,.module⟩) := by
  intro w
  have hnew : Built 0 (Act.newSystem.run {}).2 := .new (w := {}) rfl
  have hw : w.Built 0 := (hnew.read 0 .full "module a 1.0").read 0 .full "module b 1.0"
  have hread : ((w.systemAt 0).directory, ((w.systemAt 0).module? 0).bind (·.content? .module "b")) =
      ([("a", 0),("b", 1)], none) := by decide +kernel
  obtain ⟨hdirectory,hlacks⟩ := Prod.mk.inj hread
  have hnames : ∀ n, (w.systemAt 0).moduleNamed? n = Table.get? [("a", 0),("b", 1)] n :=
    fun n => by rw [System.moduleNamed?,hdirectory]
  have hb : (w.systemAt 0).moduleNamed? "b" = some 1 := by rw [hnames]; decide
  have hstrays : (w.systemAt 0).Strays "a.b" (.symbol ⟨1,.module⟩) :=
    ⟨"a","b",0,rfl,by decide,by rw [hnames]; decide,by rw [hnames]; decide,hlacks,
      by simp [System.lookupPlain,hb]⟩
  exact ⟨hw,(lookup_answers_or_strays hw (by decide) _).2 hstrays⟩

end Workspace.Built

end InterfaceKit
