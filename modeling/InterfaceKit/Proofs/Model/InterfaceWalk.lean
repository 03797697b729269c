import InterfaceKit.Proofs.Model.Walk

/-!
# Walking through interfaces

The walk through an interface enters the symbol that it describes, with all its members, and leaves
the focus as it was. Only the last parameter stays there, where the next one replaces it. While an
operation is being read no signal is, and the other way round, so a parameter comes to the one whose
parentheses enclose it.
-/
namespace InterfaceKit.Model
open Grammar Lexical

/-! ## Parameters -/

namespace Callable
variable {m : Module}

/-- Modules that differ in the parameters of an operation or a signal. -/
structure Seat (c : Callable) (seat : Table Parameter → Module) : Prop where
  enter : ∀ (ps : Table Parameter) n (p : Parameter),
    c.enter n (fun _ => p.common) (seat ps) = seat (ps.set n p)
  modify : ∀ (ps : Table Parameter) n p g, (seat (ps.set n p)).modifyCommon (c.parameter n) g =
    seat (ps.set n { p with common := g p.common })

theorem seat_operation (m : Module) (i o : String) (x : Interface) (y : Operation) :
    Seat (.operation i o) fun ps =>
    m.putInterface i (x.putOperation o { y with parameters := ps }) where
  enter ps n p := Module.modifyOperation_put x _ _
  modify ps n p g := by
    simp only [parameter,Module.modifyCommon,Module.modifyOperation_put,Table.modify_set]

theorem seat_signal (m : Module) (i s : String) (x : Interface) (y : Signal) :
    Seat (.signal i s) fun ps => m.putInterface i (x.putSignal s { y with parameters := ps }) where
  enter ps n p := Module.modifySignal_put x _ _
  modify ps n p g := by
    simp only [parameter,Module.modifyCommon,Module.modifySignal_put,Table.modify_set]

end Callable

namespace Drafting
variable {m : Module} {f : Focus}

theorem enterParameter_leads {c : Callable} (hf : (f.operation <|> f.signal) = some c) (t : Tree) :
    Leads (enterParameter t) m f (c.enter (nameOf t) (fun _ => { name := nameOf t }) m)
      { f with parameter := some (c.parameter (nameOf t)) } := by
  refine Ensures.get fun d hd => ?_
  simp only [hd.focus,hf,need,pure_bind]
  refine fresh_bind fun tags => ?_
  refine Ensures.after
    (Leads.edit _ (c.enter (nameOf t) (fun _ => { name := nameOf t }) ·) fun _ _ hm => ?_)
    (Leads.turn _)
  refine hm.enter (fun _ _ _ => ?_) c _
  exact ⟨rfl,rfl,rfl,rfl,rfl⟩

theorem exitParameter_leads {p : Place} (hf : f.parameter = some p) (t : Tree) :
    Leads (exitParameter t) m f (m.modifyCommon p fun x => { x with type := Draft.typeOf t }) f := by
  refine Ensures.get fun d hd => ?_
  simp only [hd.focus,hf,need,pure_bind]
  exact giveType_leads p t

section Parameters
variable {c : Callable} {seat : Table Parameter → Module} (hs : c.Seat seat)
  (hf : (f.operation <|> f.signal) = some c)
include hs hf

theorem parameter_leads [Yaml.Readers] (p : Phrase.Parameter) (ps : Table Parameter) :
    Leads (walk (.node .parameter p.parts)) (seat ps) f (seat (ps.set p.describes.1 p.describes.2))
      { f with parameter := some (c.parameter p.name.val.text) } := by
  have hname : nameOf (.node .parameter p.parts) = p.name.val.text :=
    nameOf_node (by simp [Phrase.Parameter.parts])
  have htype : Draft.typeOf (.node .parameter p.parts) = p.type.describes :=
    typeOf_node (by simp [Phrase.Parameter.parts])
  have hchildren : walkAll p.parts = pure () := by
    simp [Phrase.Parameter.parts]
  have henter := enterParameter_leads (m := seat ps) hf (.node .parameter p.parts)
  have hexit := exitParameter_leads
    (m := seat (ps.set p.name.val.text { common := { name := p.name.val.text } }))
    (f := { f with parameter := some (c.parameter p.name.val.text) }) rfl (.node .parameter p.parts)
  rw [hname,hs.enter _ _ ⟨_⟩] at henter
  rw [htype,hs.modify] at hexit
  rw [walk,hchildren]
  simp only [pure_bind]
  exact Ensures.after henter hexit

theorem parameters_leads [Yaml.Readers] (qs : List Phrase.Parameter) (ps : Table Parameter) :
    ∃ q, Leads (walkAll (qs.map fun p => .node .parameter p.parts)) (seat ps) f
      (seat (ps.setAll (qs.map (·.describes)))) { f with parameter := q } := by
  induction qs generalizing ps f with
  | nil => exact ⟨f.parameter,Leads.pure⟩
  | cons p qs ih =>
    have hp := parameter_leads hs hf p ps
    obtain ⟨q,hq⟩ := ih (f := { f with parameter := some (c.parameter p.name.val.text) }) hf
      (ps.set p.describes.1 p.describes.2)
    exact ⟨q,Ensures.after hp hq⟩

end Parameters

/-! ## Members of an interface -/

variable {i : String} {x : Interface} {q : Option Place}

theorem enterOperation_leads [Yaml.Readers] (o : Phrase.Operation) :
    Leads (enterOperation (.node .operation o.parts)) (m.putInterface i x)
      { interface := some i, parameter := q }
      (m.putInterface i (x.putOperation o.name.val.text { o.describes.2 with parameters := [] }))
      { interface := some i, operation := some (.operation i o.name.val.text), parameter := q } := by
  have hname : nameOf (.node .operation o.parts) = o.name.val.text :=
    nameOf_node (by simp [Phrase.Operation.parts])
  have hconst : ((Grammar.Tree.node .operation o.parts).node? .operationModifier).isSome =
      o.modifier.isSome := by
    cases o with
    | mk a r n op ps cl md sc => cases md <;> cases r <;>
        simp [Tree.node?_node,Phrase.Operation.parts,Phrase.Result.tree]
  have htype : Draft.typeOf (.node .operation o.parts) = o.result.describes := by
    cases o with
    | mk a r n op ps cl md sc =>
      cases r with
      | value t => exact typeOf_node (by simp [Phrase.Operation.parts,Phrase.Result.tree])
      | void w => exact typeOf_void (by simp [Phrase.Operation.parts,Phrase.Result.tree])
  have hs : Sits (.operation i o.name.val.text) fun c => m.putInterface i
      (x.putOperation o.name.val.text { common := c, isConst := o.modifier.isSome }) :=
    fun c g => Module.modifyOperation_put x _ _
  refine Ensures.get fun d hd => ?_
  simp only [hd.focus,need,pure_bind]
  refine fresh_bind fun tags => ?_
  simp only [hname,hconst]
  refine Ensures.after (Leads.editInterface _ (fun x => x.putOperation o.name.val.text
    { common := { name := o.name.val.text }, isConst := o.modifier.isSome }) fun _ _ hx => ?_) ?_
  · exact { hx with operations := hx.operations.set _ ⟨⟨rfl,rfl,rfl,rfl,rfl⟩,rfl,.nil⟩ }
  refine Ensures.after (Leads.turn _) ?_
  refine Ensures.after (annotate_seat hs o.annotations (by simp [Phrase.Operation.parts]) _) ?_
  exact giveType_seat hs htype _

theorem operation_leads [Yaml.Readers] (o : Phrase.Operation) :
    ∃ q', Leads (walk (.node .operation o.parts)) (m.putInterface i x)
      { interface := some i, parameter := q }
      (m.putInterface i (x.putOperation o.describes.1 o.describes.2))
      { interface := some i, parameter := q' } := by
  have hchildren :
      walkAll o.parts = walkAll (o.parameters.map fun p => .node .parameter p.parts) := by
    cases o with
    | mk a r n op ps cl md sc =>
      cases md <;> simp [Phrase.Operation.parts,walk,enter,exit]
  have hs := Callable.seat_operation m i o.name.val.text x o.describes.2
  obtain ⟨q',hp⟩ := parameters_leads hs
    (f := { interface := some i, operation := some (.operation i o.name.val.text), parameter := q })
    rfl o.parameters []
  rw [Table.setAll_nil] at hp
  refine ⟨q',?_⟩
  rw [walk,hchildren]
  refine Ensures.after (enterOperation_leads o) (Ensures.after hp ?_)
  exact Leads.turn fun f => { f with operation := none }

theorem enterSignal_leads [Yaml.Readers] (s : Phrase.Signal) :
    Leads (enterSignal (.node .signal s.parts))
      (m.putInterface i x) { interface := some i, parameter := q }
      (m.putInterface i (x.putSignal s.name.val.text { s.describes.2 with parameters := [] }))
      { interface := some i, signal := some (.signal i s.name.val.text), parameter := q } := by
  have hname : nameOf (.node .signal s.parts) = s.name.val.text :=
    nameOf_node (by simp [Phrase.Signal.parts])
  have hs : Sits (.signal i s.name.val.text) fun c => m.putInterface i
      (x.putSignal s.name.val.text { common := c }) :=
    fun c g => Module.modifySignal_put x _ _
  refine Ensures.get fun d hd => ?_
  simp only [hd.focus,need,pure_bind]
  refine fresh_bind fun tags => ?_
  simp only [hname]
  refine Ensures.after (Leads.editInterface _ (fun x => x.putSignal s.name.val.text
    { common := { name := s.name.val.text } }) fun _ _ hx => ?_) ?_
  · exact { hx with signals := hx.signals.set _ ⟨⟨rfl,rfl,rfl,rfl,rfl⟩,.nil⟩ }
  refine Ensures.after (Leads.turn _) ?_
  exact annotate_seat hs s.annotations (by simp [Phrase.Signal.parts]) _

theorem signal_leads [Yaml.Readers] (s : Phrase.Signal) :
    ∃ q', Leads (walk (.node .signal s.parts)) (m.putInterface i x)
      { interface := some i, parameter := q }
      (m.putInterface i (x.putSignal s.describes.1 s.describes.2))
      { interface := some i, parameter := q' } := by
  have hchildren :
      walkAll s.parts = walkAll (s.parameters.map fun p => .node .parameter p.parts) := by
    simp [Phrase.Signal.parts]
  have hs := Callable.seat_signal m i s.name.val.text x s.describes.2
  obtain ⟨q',hp⟩ := parameters_leads hs
    (f := { interface := some i, signal := some (.signal i s.name.val.text), parameter := q })
    rfl s.parameters []
  rw [Table.setAll_nil] at hp
  refine ⟨q',?_⟩
  rw [walk,hchildren]
  refine Ensures.after (enterSignal_leads s) (Ensures.after hp ?_)
  exact Leads.turn fun f => { f with signal := none }

theorem words_property [Yaml.Readers] (p : Phrase.Property) :
    wordsIn .docComment p.parts = p.annotations.comment.toList.map (·.val) ∧
      wordsIn .string p.parts = p.value.toList.map (·.2.val) ∧
      wordsIn .identifier p.parts = [p.name.val] ∧ nodesIn .type p.parts = [p.type.tree] ∧
      walkAll p.parts = pure () := by
  cases p with
  | mk a md t n v sc => cases md <;> simp [Phrase.Property.parts,walk,enter,exit]

theorem modifier_property (p : Phrase.Property) (k : Kind) :
    (((Grammar.Tree.node .property p.parts).node? .propertyModifier).bind (·.token? k)).isSome =
      p.modifier.any (·.val.kind = k) := by
  cases p with
  | mk a md t n v sc =>
    cases md with
    | none => simp [Tree.node?_node,Phrase.Property.parts]
    | some w => by_cases hk : w.val.kind = k <;>
        simp [Tree.node?_node,Tree.token?_node,Phrase.Property.parts,wordsIn_leaf,hk]

theorem property_leads [Yaml.Readers] (p : Phrase.Property) :
    Leads (walk (.node .property p.parts))
      (m.putInterface i x) { interface := some i, parameter := q }
      (m.putInterface i (x.putProperty p.describes.1 p.describes.2))
      { interface := some i, parameter := q } := by
  obtain ⟨hcomment,hstring,hidentifier,hnodes,hchildren⟩ := words_property p
  have hname : nameOf (.node .property p.parts) = p.name.val.text :=
    nameOf_node (by rw [hidentifier]; rfl)
  have hs : Sits (.property i p.name.val.text) fun c =>
    m.putInterface i (x.putProperty p.name.val.text
      { common := c, readonly := p.modifier.any (·.val.kind = .readonlyWord)
        const := p.modifier.any (·.val.kind = .constWord) }) :=
    fun c g => Module.modifyProperty_put x _ _
  rw [walk,hchildren]
  simp only [enter,exit,pure_bind,bind_pure_unit]
  refine Ensures.get fun d hd => ?_
  simp only [hd.focus,need,pure_bind]
  refine fresh_bind fun tags => ?_
  simp only [hname,modifier_property]
  refine Ensures.after (Leads.editInterface _ (fun x => x.putProperty p.name.val.text
    { common := { name := p.name.val.text }
      readonly := p.modifier.any (·.val.kind = .readonlyWord)
      const := p.modifier.any (·.val.kind = .constWord) }) fun _ _ hx => ?_) ?_
  · exact { hx with properties := hx.properties.set _ ⟨⟨rfl,rfl,rfl,rfl,rfl⟩,rfl,rfl,rfl⟩ }
  refine Ensures.after (annotate_seat hs p.annotations hcomment _) ?_
  refine Ensures.after (giveType_seat hs (typeOf_node hnodes) _) ?_
  refine Ensures.bind (defaultValue_ensures _) ?_
  rintro _ _ _ ⟨rfl,rfl,rfl⟩
  rw [readable_node hstring]
  exact Leads.editProperty _ (fun y => { y with value := Phrase.defaultText p.value })
    fun _ _ hy => { hy with value := rfl }

def declareMember (x : Interface) : Phrase.Member → Interface
  | .operation o => x.putOperation o.describes.1 o.describes.2
  | .property p => x.putProperty p.describes.1 p.describes.2
  | .signal s => x.putSignal s.describes.1 s.describes.2

theorem member_leads [Yaml.Readers] (k : Phrase.Member) :
    ∃ q', Leads (walk (.node .interfaceMember [k.inside])) (m.putInterface i x)
      { interface := some i, parameter := q } (m.putInterface i (declareMember x k))
      { interface := some i, parameter := q' } := by
  have hwalk : walk (.node .interfaceMember [k.inside]) = walk k.inside := by
    simp [walk,enter,exit]
  rw [hwalk]
  cases k with
  | operation o => exact operation_leads o
  | property p => exact ⟨q,property_leads p⟩
  | signal s => exact signal_leads s

theorem members_leads [Yaml.Readers] (ks : List Phrase.Member) :
    ∃ q', Leads (walkAll (ks.map fun k => .node .interfaceMember [k.inside])) (m.putInterface i x)
      { interface := some i, parameter := q } (m.putInterface i (ks.foldl declareMember x))
      { interface := some i, parameter := q' } := by
  induction ks generalizing x q with
  | nil => exact ⟨q,Leads.pure⟩
  | cons k ks ih =>
    obtain ⟨q₁,hk⟩ := member_leads (m := m) (i := i) (x := x) (q := q) k
    obtain ⟨q₂,hks⟩ := ih (x := declareMember x k) (q := q₁)
    exact ⟨q₂,Ensures.after hk hks⟩

theorem foldl_declareMember (ks : List Phrase.Member) :
    ks.foldl declareMember x =
      { x with
        properties := x.properties.setAll ((ks.filterMap Phrase.Member.property?).map (·.describes))
        operations := x.operations.setAll ((ks.filterMap Phrase.Member.operation?).map (·.describes))
        signals := x.signals.setAll ((ks.filterMap Phrase.Member.signal?).map (·.describes)) } := by
  induction ks generalizing x with
  | nil => rfl
  | cons k ks ih =>
    rw [List.foldl_cons,ih]
    cases k <;> rfl

theorem words_interface (y : Phrase.Interface) :
    wordsIn .docComment y.parts = y.annotations.comment.toList.map (·.val) ∧
      wordsIn .identifier y.parts = y.name.val :: y.base.toList.map (·.2.val) := by
  cases y with
  | mk a w n b op ms cl sc => cases b <;> simp [Phrase.Interface.parts]

theorem nameOf_interface (y : Phrase.Interface) :
    nameOf (.node .interface y.parts) = y.name.val.text :=
  nameOf_node (by rw [(words_interface y).2]; rfl)

theorem enterInterface_leads [Yaml.Readers] (y : Phrase.Interface) :
    Leads (enterInterface (.node .interface y.parts)) m { parameter := q }
      (m.putInterface y.name.val.text
        { common := { name := y.name.val.text, comment := y.annotations.text }
          base := y.base.map (·.2.val.text) })
      { interface := some y.name.val.text, parameter := q } := by
  obtain ⟨hcomment,hidentifiers⟩ := words_interface y
  have hbase : (((Grammar.Tree.node .interface y.parts).tokensOfKind .identifier)[1]?).map (·.text) =
      y.base.map (·.2.val.text) := by
    rw [Tree.tokensOfKind_node,hidentifiers]
    cases y.base <;> rfl
  have hs : Sits (.interface y.name.val.text) fun c =>
      m.putInterface y.name.val.text { common := c } :=
    fun c g => Module.modifyInterface_put _ _
  refine Ensures.get fun d hd => ?_
  obtain ⟨m₀,hm₀,-⟩ := hd.like
  simp only [hm₀,need,pure_bind]
  refine fresh_bind fun tags => ?_
  simp only [nameOf_interface,hbase]
  refine Ensures.after (Leads.edit _ (fun m => m.putInterface y.name.val.text
    { common := { name := y.name.val.text } }) fun _ _ hm => ?_) ?_
  · exact { hm with interfaces := hm.interfaces.set _ ⟨⟨rfl,rfl,rfl,rfl,rfl⟩,rfl,.nil,.nil,.nil⟩ }
  refine Ensures.after (Leads.turn _) ?_
  refine Ensures.after (annotate_seat hs y.annotations hcomment _) ?_
  exact Leads.editInterface _ (fun x => { x with base := y.base.map (·.2.val.text) })
    fun _ _ hx => { hx with base := rfl }

theorem interface_leads [Yaml.Readers] (y : Phrase.Interface) :
    ∃ q', Leads (walk (.node .interface y.parts)) m { parameter := q }
      (m.putInterface y.describes.1 y.describes.2) { parameter := q' } := by
  have hchildren : walkAll y.parts =
      walkAll (y.members.map fun k => .node .interfaceMember [k.inside]) := by
    cases y with
    | mk a w n b op ms cl sc => cases b <;> simp [Phrase.Interface.parts]
  obtain ⟨q',hm⟩ := members_leads (m := m) (i := y.name.val.text) (q := q)
    (x := { common := { name := y.name.val.text, comment := y.annotations.text }
            base := y.base.map (·.2.val.text) }) y.members
  rw [foldl_declareMember] at hm
  simp only [Table.setAll_nil] at hm
  refine ⟨q',?_⟩
  rw [walk,hchildren]
  refine Ensures.after (enterInterface_leads y) (Ensures.after hm ?_)
  exact Leads.turn fun f => { f with interface := none }

end Drafting

end InterfaceKit.Model
