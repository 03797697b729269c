import InterfaceKit.Proofs.Model.DataWalk
import InterfaceKit.Proofs.Model.InterfaceWalk

/-!
# Walking through documents

The walk through a document never misses a symbol, and the module that it leaves is the one that the
document describes.
-/
namespace InterfaceKit.Model
open Grammar Lexical

namespace Drafting
variable {m : Module} {f : Focus} {q : Option Place}

/-! ## The header -/

theorem walk_import [Yaml.Readers] (y : Phrase.Import) :
    walk (.node .importLine y.parts) = (do
      let _ ← need .noModule (← get).module
      edit fun m => { m with imports := m.imports.set y.describes.1 y.describes.2 }) := by
  have hname : nameOf (.node .importLine y.parts) = y.name.val.text :=
    nameOf_node (by simp [Phrase.Import.parts])
  have hversion : textOf (.node .importLine y.parts) .version = y.version.val.text := by
    simp [textOf,Tree.token?_node,Phrase.Import.parts]
  have hchildren : walkAll y.parts = pure () := by simp [Phrase.Import.parts]
  rw [walk,hchildren]
  simp only [enter,exit,pure_bind,bind_pure_unit,enterImport,hname,hversion]
  rfl

theorem import_leads [Yaml.Readers] (y : Phrase.Import) :
    Leads (walk (.node .importLine y.parts)) m f
      { m with imports := m.imports.set y.describes.1 y.describes.2 } f := by
  rw [walk_import]
  refine Ensures.get fun d hd => ?_
  obtain ⟨m₀,hm₀,-⟩ := hd.like
  simp only [hm₀,need,pure_bind]
  refine Leads.edit _ (fun m => { m with imports := m.imports.set y.describes.1 y.describes.2 })
    fun _ _ hm => ?_
  exact { hm with imports := congrArg (·.set y.describes.1 y.describes.2) hm.imports }

theorem imports_leads [Yaml.Readers] (ys : List Phrase.Import) :
    Leads (walkAll (ys.map fun y => .node .importLine y.parts)) m f
      { m with imports := m.imports.setAll (ys.map (·.describes)) } f := by
  induction ys generalizing m with
  | nil => exact Leads.pure
  | cons y ys ih => exact Ensures.after (import_leads y) ih

def headModule (y : Phrase.ModuleHead) : Module :=
  { common := { name := y.name.val.text, comment := y.annotations.text }
    version := y.version.val.text }

/-- The symbol of the module has its cell, and the module is there, before anything can fail. -/
theorem walk_head [Yaml.Readers] (y : Phrase.ModuleHead) (d : Draft) :
    (walk (.node .moduleHead y.parts)).run d = (annotate .module (.node .moduleHead y.parts)).run
      { d with
        store := (d.store.alloc (.map [])).2
        module := some
          { common :=
              { name := y.name.val.text
                tags := .ref (d.store.alloc (.map [])).1
                origin := .root d.number }
            version := y.version.val.text } } := by
  have hname : nameOf (.node .moduleHead y.parts) = y.name.val.text :=
    nameOf_node (by simp [Phrase.ModuleHead.parts])
  have hversion : textOf (.node .moduleHead y.parts) .version = y.version.val.text := by
    simp [textOf,Tree.token?_node,Phrase.ModuleHead.parts]
  have hchildren : walkAll y.parts = pure () := by simp [Phrase.ModuleHead.parts]
  rw [walk,hchildren]
  simp only [enter,exit,pure_bind,bind_pure_unit,enterModule,hname,hversion]
  rfl

/-- Before the head is read there is no module on show. -/
theorem head_run [Yaml.Readers] (y : Phrase.ModuleHead) {d : Draft} (hd : d.focus = {}) :
    match (walk (.node .moduleHead y.parts)).run d with
    | (.ok _, d') => d'.Shows (headModule y) {}
    | (.error o, _) => ∃ cause, o = .failed cause := by
  have hs : Sits .module fun c => ({ common := c, version := y.version.val.text } : Module) :=
    fun c g => rfl
  have hcomment : wordsIn .docComment y.parts = y.annotations.comment.toList.map (·.val) := by
    simp [Phrase.ModuleHead.parts]
  have hannotate :=
    annotate_seat (f := {}) (r := .moduleHead) hs y.annotations hcomment y.name.val.text
  rw [walk_head]
  exact hannotate.run ⟨⟨_,rfl,⟨rfl,rfl,rfl,rfl,rfl⟩,rfl,rfl,.nil,.nil,.nil⟩,hd⟩

/-! ## Definitions -/

def declareDefinition (m : Module) : Phrase.Definition → Module
  | .interface i => m.putInterface i.describes.1 i.describes.2
  | .struct s => m.putStruct s.describes.1 s.describes.2
  | .enum e => m.putEnum e.describes.1 e.describes.2

theorem definition_leads [Yaml.Readers] (x : Phrase.Definition) :
    ∃ q', Leads (walk (.node .definition [x.inside])) m { parameter := q } (declareDefinition m x)
      { parameter := q' } := by
  have hwalk : walk (.node .definition [x.inside]) = walk x.inside := by simp [walk,enter,exit]
  rw [hwalk]
  cases x with
  | interface i => exact interface_leads i
  | struct s => exact ⟨q,struct_leads s⟩
  | enum e => exact ⟨q,enum_leads e⟩

theorem definitions_leads [Yaml.Readers] (xs : List Phrase.Definition) :
    ∃ q', Leads (walkAll (xs.map fun x => .node .definition [x.inside])) m { parameter := q }
      (xs.foldl declareDefinition m) { parameter := q' } := by
  induction xs generalizing m q with
  | nil => exact ⟨q,Leads.pure⟩
  | cons x xs ih =>
    obtain ⟨q₁,hx⟩ := definition_leads (m := m) (q := q) x
    obtain ⟨q₂,hxs⟩ := ih (m := declareDefinition m x) (q := q₁)
    exact ⟨q₂,Ensures.after hx hxs⟩

theorem foldl_declareDefinition (xs : List Phrase.Definition) :
    xs.foldl declareDefinition m =
      { m with
        interfaces :=
  m.interfaces.setAll ((xs.filterMap Phrase.Definition.interface?).map (·.describes))
        structs := m.structs.setAll ((xs.filterMap Phrase.Definition.struct?).map (·.describes))
        enums := m.enums.setAll ((xs.filterMap Phrase.Definition.enum?).map (·.describes)) } := by
  induction xs generalizing m with
  | nil => rfl
  | cons x xs ih =>
    rw [List.foldl_cons,ih]
    cases x <;> rfl

/-! ## Documents -/

theorem walk_document [Yaml.Readers] (doc : Phrase.Document) :
    walk doc.tree = walk (.node .moduleHead doc.header.head.parts) >>= fun _ =>
      walkAll (doc.header.imports.map fun y => .node .importLine y.parts) >>= fun _ =>
      walkAll (doc.definitions.map fun x => .node .definition [x.inside]) := by
  rw [Phrase.Document.tree,walk_node rfl rfl,Phrase.Document.parts,walkAll_cons,walk_node rfl rfl,
    Phrase.Header.parts,walkAll_cons,bind_assoc]

theorem document_run [Yaml.Readers] (doc : Phrase.Document) {d : Draft} (hd : d.focus = {}) :
    ∃ q, match (walk doc.tree).run d with
      | (.ok _, d') => d'.Shows doc.describes { parameter := q }
      | (.error o, _) => ∃ cause, o = .failed cause := by
  obtain ⟨q,hdefinitions⟩ := definitions_leads (q := none) doc.definitions
    (m :=
      { headModule doc.header.head with
        imports := .declared (doc.header.imports.map (·.describes)) })
  rw [foldl_declareDefinition] at hdefinitions
  have himports := imports_leads (f := {}) (m := headModule doc.header.head) doc.header.imports
  simp only [headModule,Table.setAll_nil] at himports hdefinitions
  have hrest :
    Leads (walkAll (doc.header.imports.map fun y => .node .importLine y.parts) >>= fun _ =>
      walkAll (doc.definitions.map fun x => .node .definition [x.inside]))
      (headModule doc.header.head) {} doc.describes { parameter := q } :=
    Ensures.after himports hdefinitions
  have hhead := head_run doc.header.head hd
  refine ⟨q,?_⟩
  rw [walk_document,run_bind]
  revert hhead
  rcases (walk (.node .moduleHead doc.header.head.parts)).run d with ⟨r,d'⟩
  cases r with
  | error o => exact id
  | ok a => exact hrest.run

end Drafting

/-- A walk that comes to its end leaves the module that its document describes. -/
theorem ofDocument_describes [Yaml.Readers] {doc : Phrase.Document} {number : Nat}
    {store : Data.Store} {d : Draft} (h : Draft.ofDocument number doc.tree store = (.ok (), d)) :
    ∃ m, d.module = some m ∧ m.Like .untagged doc.describes := by
  obtain ⟨q,hwalk⟩ := Drafting.document_run doc (d := { number, store }) rfl
  rw [show (Drafting.walk doc.tree).run { number, store } = (.ok (), d) from h] at hwalk
  exact hwalk.like

end InterfaceKit.Model
