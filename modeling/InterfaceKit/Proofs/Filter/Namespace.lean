import InterfaceKit.Proofs.Filter.Dependencies

/-!
# Namespaces

The filters that open, close and use the namespaces of a module all go by the parts of its name.
What they write is read here word by word: opening words lead into the namespaces in their order,
closing words lead out of all of them, and the path that is named or used is made of the same parts.
The name of a symbol with its namespaces has an empty part too many.
-/
namespace InterfaceKit
open Data Model Inquiry

namespace Cpp

def wordsOf (text : String) : List String := (Text.splitAt ' ' text.toList).map String.ofList

/-- The namespaces that are open behind a row of words, given those that are open before it. There
may be no other words in the row, and what is closed must be open. -/
def openBehind : List String → List String → Option (List String)
  | "namespace" :: name :: "\x7b" :: words, outer => openBehind words (outer ++ [name])
  | "\x7d" :: words, outer => if outer = [] then none else openBehind words outer.dropLast
  | [], outer => some outer
  | _, _ => none

def pathParts : List Char → List (List Char)
  | [] => [[]]
  | ':' :: ':' :: cs => [] :: pathParts cs
  | c :: cs =>
    match pathParts cs with
    | [] => [[c]]
    | part :: parts => (c :: part) :: parts

variable {parts : List (List Char)} {u : List Char}

theorem pathParts_cons {c : Char} {cs part : List Char} (hc : c ≠ ':')
    (h : pathParts cs = part :: parts) : pathParts (c :: cs) = (c :: part) :: parts := by
  rw [pathParts.eq_3 _ _ (by simp [hc]),h]

theorem pathParts_append (hu : ':' ∉ u) (cs : List Char) :
    pathParts (u ++ ':' :: ':' :: cs) = u :: pathParts cs := by
  induction u with
  | nil => rw [List.nil_append,pathParts]
  | cons c u ih =>
    obtain ⟨hc,hu⟩ := not_or.mp (List.mem_cons.not.mp hu)
    exact pathParts_cons (Ne.symm hc) (ih hu)

theorem pathParts_single (hu : ':' ∉ u) : pathParts u = [u] := by
  induction u with
  | nil => rfl
  | cons c u ih =>
    obtain ⟨hc,hu⟩ := not_or.mp (List.mem_cons.not.mp hu)
    exact pathParts_cons (Ne.symm hc) (ih hu)

theorem pathParts_path (h : ∀ p ∈ parts, ':' ∉ p) (hne : parts ≠ []) (cs : List Char) :
    pathParts ([':',':'].intercalate parts) = parts ∧
      pathParts ([':',':'].intercalate parts ++ ':' :: ':' :: cs) = parts ++ pathParts cs := by
  induction parts with
  | nil => exact absurd rfl hne
  | cons p parts ih =>
    obtain ⟨hp,hparts⟩ := List.forall_mem_cons.mp h
    cases parts with
    | nil => simpa using ⟨pathParts_single hp,pathParts_append hp cs⟩
    | cons q parts =>
      obtain ⟨hpath,hlonger⟩ := ih hparts (List.cons_ne_nil _ _)
      rw [List.intercalate_cons_cons]
      constructor
      · simpa [hpath] using pathParts_append hp ([':',':'].intercalate (q :: parts))
      · simpa [hlonger] using pathParts_append hp
          ([':',':'].intercalate (q :: parts) ++ ':' :: ':' :: cs)

theorem openBehind_opening (parts outer : List String) :
    openBehind (parts.flatMap fun p => ["namespace",p,"\x7b"]) outer = some (outer ++ parts) := by
  induction parts generalizing outer with
  | nil => simp [openBehind]
  | cons p parts ih => simp [openBehind,ih]

theorem openBehind_closing (parts outer : List String) :
    openBehind (parts.map fun _ => "\x7d") (outer ++ parts) = some outer := by
  induction parts using List.reverseRecOn with
  | nil => simp [openBehind]
  | append_singleton parts p ih =>
    have hopen : outer ++ (parts ++ [p]) ≠ [] := by simp
    have hinner : (outer ++ (parts ++ [p])).dropLast = outer ++ parts := by
      simp [← List.append_assoc]
    have hwords : (parts ++ [p]).map (fun _ => "\x7d") = "\x7d" :: parts.map fun _ => "\x7d" := by
      simp [List.map_const',← List.replicate_succ',List.replicate_succ]
    rw [hwords,openBehind,if_neg hopen,hinner,ih]

theorem wordsOf_intercalate {words : List String} (h : ∀ u ∈ words, ' ' ∉ u.toList)
    (hne : words ≠ []) :
    wordsOf (String.intercalate " " words) = words := by
  rw [wordsOf,String.toList_intercalate,show " ".toList = [' '] from rfl,
    Text.splitAt_intercalate (by simpa using h) (by simpa using hne)]
  simp [Function.comp_def]

theorem openNamespaces_eq (parts : List String) :
    openNamespaces parts = String.intercalate " "
      (parts.flatMap fun p => ["namespace",p,"\x7b"]) := by
  have hone : ∀ p : String, "namespace " ++ p ++ " \x7b" =
      String.intercalate " " ["namespace",p,"\x7b"] := by
    intro p
    rw [← String.toList_inj,String.toList_intercalate]
    simp [List.intercalate]
  induction parts with
  | nil => rfl
  | cons p parts ih =>
    unfold openNamespaces at ih ⊢
    rw [List.map_cons,List.flatMap_cons,hone]
    cases parts with
    | nil => simp
    | cons q parts =>
      rw [String.intercalate_cons_of_ne_nil (by simp),ih,
        String.intercalate_append_of_ne_nil (by simp) (by simp)]

end Cpp

/-! ## The parts of a name -/

namespace Text

theorem subset_of_mem_splitAt {sep : Char} {text part : List Char} (h : part ∈ splitAt sep text) :
    part ⊆ text := by
  induction text generalizing part with
  | nil =>
    obtain rfl := List.mem_singleton.mp h
    exact List.Subset.refl _
  | cons c cs ih =>
    obtain ⟨first,rest,hsplit⟩ := List.exists_cons_of_ne_nil (splitAt_ne_nil sep cs)
    rw [hsplit] at ih
    simp only [splitAt,hsplit] at h
    split at h
    · rcases List.mem_cons.mp h with rfl | h
      · exact List.nil_subset _
      · exact List.subset_cons_of_subset c (ih h)
    · rcases List.mem_cons.mp h with rfl | h
      · exact List.cons_subset_cons c (ih (List.mem_cons_self ..))
      · exact List.subset_cons_of_subset c (ih (List.mem_cons_of_mem _ h))

end Text

theorem Model.Module.Named.notMem_nameParts {m : Module} (hm : m.Named) {c : Char}
    (hc : ¬ Lexical.IsNamePart c) :
    ∀ p ∈ m.nameParts, c ∉ p.toList := by
  intro p hp hmem
  obtain ⟨u,hu,rfl⟩ := List.mem_map.mp hp
  rw [String.toList_ofList] at hmem
  exact hm.common.2.notMem hc (Text.subset_of_mem_splitAt hu hmem)

theorem Model.Module.nameParts_ne_nil (m : Module) : m.nameParts ≠ [] := by
  simpa [Module.nameParts] using Text.splitAt_ne_nil '.' m.name.toList

/-! ## Filters -/

namespace Workspace
variable {w : Workspace} {n : Nat} {ids : List Nat} {h : Handle} {m : Module} {c : Common}

theorem run_nameText (htype : (Entity.symbol h).isType = true)
    (hc : (w.systemAt n).common? h = some c) :
    (Cpp.nameText (.entity n (.symbol h))).act.run w = (.ok c.name, w) := by
  have hname : (Cpp.nameText (.entity n (.symbol h))).act.run w =
      (.ok ((((w.systemAt n).module? h.module).getD default).common? h.place |>.getD default).name,
        w) := by
    obtain ⟨id,p⟩ := h
    cases p with
    | interface | struct | enum => rfl
    | _ => cases htype
  obtain ⟨m,hm,hc⟩ := Option.bind_eq_some_iff.mp hc
  rw [hname,hm,Option.getD_some,hc,Option.getD_some]

theorem Retains.run_ns (hw : w.Retains n ids) (htype : (Entity.symbol h).isType = true)
    (hm : (w.systemAt n).module? h.module = some m) (hc : (w.systemAt n).common? h = some c) :
    (Cpp.ns (.entity n (.symbol h))).act.run w = (.ok (Cpp.scope m.nameParts ++ "::"), w) := by
  have hv : Presents n ⟨h,0⟩ (.entity n (.symbol h)) := .symbol rfl
  have hpart : h.place.isPart = false := by
    obtain ⟨id,p⟩ := h
    cases p with
    | interface | struct | enum => rfl
    | _ => cases htype
  have houter : (w.systemAt n).layer? ⟨h,0⟩ = some c.type.outer := by
    rw [System.layer?,hc]
    rfl
  have hprimitive : c.type.outer.isPrimitive = false :=
    congrArg Layer.isPrimitive (List.cons.inj (hw.untyped h c hpart hc)).1
  have hlayer :
    (Inquiry.layer n ⟨h,0⟩).act.run w = (.ok (((w.systemAt n).layer? ⟨h,0⟩).getD {}), w) := rfl
  rw [Cpp.ns,act_bind,run_bind,hv.run_typeOf]
  dsimp only
  rw [act_bind,run_bind,hlayer,houter]
  dsimp only [Option.getD_some]
  rw [hprimitive,if_neg Bool.false_ne_true,act_bind,run_bind,hv.run_moduleOf hw.sound.placed,hm]
  rfl

/-- What is written of the namespaces of an interface, a structure or an enumeration. The words that
open them lead into the parts of the module's name, in their order, and the words that close them
lead out again. The path that is named at the end, and the one that is used, is made of these parts.
The name with its path has a part more than it should: an empty one before the name of the
symbol. -/
theorem Parsed.namespaces_written (hw : w.Parsed n ids) (htype : (Entity.symbol h).isType = true)
    (hm : (w.systemAt n).module? h.module = some m) (hc : (w.systemAt n).common? h = some c) :
    let v := Value.entity n (.symbol h)
    ∃ opening closing path full, (Cpp.openNs v).act.run w = (.ok opening, w) ∧
      (Cpp.closeNs v).act.run w = (.ok (closing ++ " // namespace " ++ path), w) ∧
      (Cpp.usingNs v).act.run w = (.ok ("using namespace " ++ path ++ ";"), w) ∧
      (Cpp.fqn v).act.run w = (.ok full, w) ∧
      (∀ outer, Cpp.openBehind (Cpp.wordsOf opening) outer = some (outer ++ m.nameParts) ∧
        Cpp.openBehind (Cpp.wordsOf closing) (outer ++ m.nameParts) = some outer) ∧
      Cpp.pathParts path.toList = m.nameParts.map String.toList ∧
      Cpp.pathParts full.toList = m.nameParts.map String.toList ++ [[],c.name.toList] ∧
      full ≠ path ++ "::" ++ c.name := by
  intro v
  have hretains := hw.retains
  have hnamed := hretains.sound.named.module hm
  have hv : Presents n ⟨h,0⟩ v := .symbol rfl
  have hmodule : (Cpp.moduleOf v).act.run w = (.ok m, w) := by
    rw [hv.run_moduleOf hretains.sound.placed,hm]
    rfl
  have hblank := hnamed.notMem_nameParts (c := ' ') (by decide)
  have hcolon : ∀ p ∈ m.nameParts.map String.toList, ':' ∉ p := by
    simpa using hnamed.notMem_nameParts (c := ':') (by decide)
  have hname : ':' ∉ c.name.toList := by
    have hcommon := hc
    rw [System.common?,hm,Option.bind_some] at hcommon
    exact (hnamed.isName hcommon).notMem (by decide)
  obtain ⟨first,rest,hparts⟩ := List.exists_cons_of_ne_nil m.nameParts_ne_nil
  have hne : m.nameParts.map String.toList ≠ [] := by simp [hparts]
  refine ⟨Cpp.openNamespaces m.nameParts,String.intercalate " " (m.nameParts.map fun _ => "\x7d"),
    Cpp.scope m.nameParts,Cpp.scope m.nameParts ++ "::" ++ "::" ++ c.name,?_,?_,?_,?_,?_,?_,?_,?_⟩
  · rw [Cpp.openNs,act_bind,run_bind,hmodule]
    rfl
  · rw [Cpp.closeNs,act_bind,run_bind,hmodule]
    rfl
  · rw [Cpp.usingNs,act_bind,run_bind,hmodule]
    rfl
  · rw [Cpp.fqn,act_bind,run_bind,hretains.run_ns htype hm hc]
    dsimp only
    rw [act_bind,run_bind,run_nameText htype hc]
    rfl
  · intro outer
    have hopening : ∀ u ∈ m.nameParts.flatMap (fun p => ["namespace", p,"\x7b"]),
        ' ' ∉ u.toList := by
      intro u hu
      obtain ⟨p,hp,hu⟩ := List.mem_flatMap.mp hu
      simp only [List.mem_cons,List.not_mem_nil,or_false] at hu
      rcases hu with rfl | rfl | rfl
      · decide
      · exact hblank u hp
      · decide
    have hclosing : ∀ u ∈ m.nameParts.map (fun _ => "\x7d"), ' ' ∉ u.toList := by
      simp only [List.mem_map,forall_exists_index,and_imp]
      rintro _ _ _ rfl
      decide
    rw [Cpp.openNamespaces_eq,Cpp.wordsOf_intercalate hopening (by simp [hparts]),
      Cpp.wordsOf_intercalate hclosing (by simp [hparts])]
    exact ⟨Cpp.openBehind_opening _ _,Cpp.openBehind_closing _ _⟩
  · rw [Cpp.scope,String.toList_intercalate]
    exact (Cpp.pathParts_path hcolon hne []).1
  · have hpath := (Cpp.pathParts_path hcolon hne (':' :: ':' :: c.name.toList)).2
    rw [Cpp.pathParts,Cpp.pathParts_single hname] at hpath
    simpa [Cpp.scope,String.toList_intercalate] using hpath
  · intro he
    have hlength := congrArg (·.toList.length) he
    simp at hlength
    omega

/-- An interface in a module of two parts. -/
theorem nested_namespaces_written :
    let text := "module a.b 1.0 interface I \x7b \x7d"
    let w₀ := (Act.newSystem.run {}).2
    let w := ((Act.readSystemText 0 .full text).run w₀).2
    let v := Value.entity 0 (.symbol ⟨0,.interface "I"⟩)
    w.Parsed 0 [0] ∧ ∃ opening full, (Cpp.openNs v).act.run w = (.ok opening, w) ∧
      (Cpp.fqn v).act.run w = (.ok full, w) ∧
        Cpp.openBehind (Cpp.wordsOf opening) [] = some ["a","b"] ∧
      Cpp.pathParts full.toList = [['a'],['b'],[],['I']] := by
  intro text w₀ w v
  have hread : ((Act.readSystemText 0 .full text).run w₀).1 = .ok () ∧
      ((w.systemAt 0).module? 0).map (·.nameParts) = some ["a","b"] ∧
      ((w.systemAt 0).common? ⟨0,.interface "I"⟩).map (·.name) = some "I" := by decide +kernel
  obtain ⟨hok,hmodule,hcommon⟩ := hread
  have hparsed : w.Parsed 0 [0] :=
    .complete (.new (w := {}) rfl) (.readText 0 .full text) (.readText hok)
  obtain ⟨m,hm,hparts⟩ := Option.map_eq_some_iff.mp hmodule
  obtain ⟨c,hc,hname⟩ := Option.map_eq_some_iff.mp hcommon
  obtain ⟨opening,_,_,full,hopen,-,-,hfull,hwords,-,hpath,-⟩ := hparsed.namespaces_written rfl hm hc
  refine ⟨hparsed,opening,full,hopen,hfull,?_,?_⟩
  · rw [(hwords []).1,hparts]
    rfl
  · rw [hpath,hparts,hname]
    rfl

end Workspace

end InterfaceKit
