import InterfaceKit.Lexical.Chunk
import InterfaceKit.Proofs.Lexical.Spelling

/-!
# The longest token at the front of a text

The patterns that are alive behind a text tell which tokens the text is and which tokens it can
still become. With them the reading of a text from its front keeps the longest token that it has
met, and it stops where no token can come any more.
-/
namespace InterfaceKit.Lexical
open Pattern

/-- Some token begins with the text. -/
def Viable (u : List Char) : Prop := ∃ k : Kind, ∃ v, k.Spells (u ++ v)

variable {u v : List Char}

theorem Viable.of_append (h : Viable (u ++ v)) : Viable u := by
  obtain ⟨k,w,hw⟩ := h
  exact ⟨k,v ++ w,by rwa [← List.append_assoc]⟩

theorem Viable.of_prefix (h : Viable v) (huv : u <+: v) : Viable u := by
  obtain ⟨w,rfl⟩ := huv
  exact h.of_append

theorem Kind.Spells.viable {k : Kind} (h : k.Spells u) : Viable u :=
  ⟨k,[],by rwa [List.append_nil]⟩

/-- The text is a token of kind `k`, and no earlier kind has it too. -/
def Kind.Wins (k : Kind) (u : List Char) : Prop :=
  k.Spells u ∧ ∀ k' : Kind, k'.Spells u → Kind.all.idxOf k ≤ Kind.all.idxOf k'

theorem Kind.mem_all (k : Kind) : k ∈ Kind.all := by cases k <;> decide

theorem Kind.Wins.unique {k k' : Kind} (h : k.Wins u) (h' : k'.Wins u) : k = k' :=
  (List.idxOf_inj (Kind.mem_all k)).mp (Nat.le_antisymm (h.2 k' h'.1) (h'.2 k h.1))

section Alive

/-- The patterns of the lexicon that can still match behind the text. -/
def alive (u : List Char) : List (Kind × Pattern) :=
  Kind.all.filterMap fun k =>
    if k.pattern.behind u = .never then none else some (k, k.pattern.behind u)

theorem alive_nil : alive [] = lexicon := by
  have hlive : ∀ k : Kind, k.pattern.behind [] ≠ .never := by
    intro k hk
    obtain ⟨u,hu⟩ := k.pattern_live.exists_mem
    exact (k.pattern_live.behind_eq_never_iff []).mp hk u hu
  simp only [alive,if_neg (hlive _),List.filterMap_eq_map',lexicon]
  rfl

theorem survivors_alive (u : List Char) (c : Char) : survivors c (alive u) = alive (u ++ [c]) := by
  simp only [survivors,alive,List.filterMap_filterMap,behind_concat]
  congr 1
  funext k
  by_cases hk : k.pattern.behind u = .never
  · simp [hk,after]
  · simp [hk]

theorem behind_pattern_eq_never_iff (k : Kind) (u : List Char) :
    k.pattern.behind u = .never ↔ ∀ v, ¬ k.Spells (u ++ v) := by
  simp only [k.pattern_live.behind_eq_never_iff,Kind.mem_pattern]

theorem alive_isEmpty_iff (u : List Char) : (alive u).isEmpty = true ↔ ¬ Viable u := by
  simp only [List.isEmpty_iff,alive,List.filterMap_eq_nil_iff,Viable,not_exists]
  constructor
  · intro h k
    have hk := h k (Kind.mem_all k)
    rw [← behind_pattern_eq_never_iff]
    simpa using hk
  · intro h k _
    rw [if_pos ((behind_pattern_eq_never_iff k u).mpr (h k))]

theorem firstAccepting_alive (u : List Char) :
    firstAccepting (alive u) = Kind.all.find? fun k => k.pattern.accepts u := by
  have hnever : ∀ k : Kind, k.pattern.behind u = .never → k.pattern.accepts u = false := by
    intro k hk
    change (k.pattern.behind u).acceptsEmpty = false
    rw [hk,acceptsEmpty]
  have haccepts : (fun k : Kind => Option.any (fun r => r.2.acceptsEmpty)
      (if k.pattern.behind u = .never then none else some (k, k.pattern.behind u))) =
        fun k => k.pattern.accepts u := by
    funext k
    by_cases hk : k.pattern.behind u = .never
    · rw [if_pos hk,hnever k hk,Option.any_none]
    · rw [if_neg hk]
      rfl
  rw [firstAccepting,alive,List.find?_filterMap,haccepts]
  cases hfind : Kind.all.find? fun k => k.pattern.accepts u with
  | none => rfl
  | some k =>
    have hk := List.find?_some hfind
    have hne : k.pattern.behind u ≠ .never := by
      intro he
      rw [hnever k he] at hk
      contradiction
    rw [Option.bind_some,if_neg hne,Option.map_some]

theorem firstAccepting_some {u : List Char} {k : Kind} (h : firstAccepting (alive u) = some k) :
    k.Wins u := by
  rw [firstAccepting_alive,List.find?_eq_some_iff_append] at h
  obtain ⟨hk,before,rest,hall,hbefore⟩ := h
  have hnot : ∀ k' : Kind, k'.pattern.accepts u = true → k' ∉ before := by
    intro k' hk' hmem
    have hrefused := hbefore k' hmem
    rw [hk'] at hrefused
    contradiction
  refine ⟨(Kind.mem_pattern k u).mp ((accepts_iff _ u).mp hk),?_⟩
  intro k' hk'
  have haccepts := (accepts_iff _ u).mpr ((Kind.mem_pattern k' u).mpr hk')
  rw [hall,List.idxOf_append_of_notMem (hnot k hk),List.idxOf_append_of_notMem (hnot k' haccepts),
    List.idxOf_cons_self]
  omega

theorem firstAccepting_none {u : List Char} (h : firstAccepting (alive u) = none) (k : Kind) :
    ¬ k.Spells u := by
  rw [firstAccepting_alive,List.find?_eq_none] at h
  have hk := h k (Kind.mem_all k)
  rwa [accepts_iff,Kind.mem_pattern] at hk

end Alive

section Reading

def NoToken (text : List Char) : Prop := ∀ v, v <+: text → ∀ k : Kind, ¬ k.Spells v

/-- `u` is the longest token at the front of the text, and `k` is its kind. -/
def Leading (k : Kind) (u text : List Char) : Prop :=
  u <+: text ∧ k.Wins u ∧ ∀ v, v <+: text → ∀ k' : Kind, k'.Spells v → v.length ≤ u.length

/-- `u` is the longest front of the text that can become a token, with the one character that stands
behind it, if there is one. -/
def Stuck (u text : List Char) : Prop :=
  ∃ v rest, text = v ++ rest ∧ u = v ++ rest.take 1 ∧ Viable v ∧
    ∀ w, w <+: text → Viable w → w.length ≤ v.length

/-- What the reading knows of the text that it has read. -/
def Best (text : List Char) : Option (Kind × Nat) → Prop
  | none => NoToken text
  | some (k, n) => n ≤ text.length ∧ Leading k (text.take n) text

variable {best : Option (Kind × Nat)} {u : List Char}

theorem Best.extend {text text' : List Char} (h : Best text best)
    (hp : text <+: text') (hold : ∀ v, v <+: text' → ∀ k : Kind, k.Spells v → v <+: text) :
    Best text' best := by
  cases best with
  | none =>
    intro v hv k hk
    exact h v (hold v hv k hk) k hk
  | some r =>
    obtain ⟨k,n⟩ := r
    obtain ⟨hn,hu,hwins,hlongest⟩ := h
    obtain ⟨rest,rfl⟩ := hp
    refine ⟨by rw [List.length_append]; omega,?_⟩
    rw [List.take_append_of_le_length hn]
    exact ⟨hu.trans (List.prefix_append text rest),hwins,
      fun v hv k' hk' => hlongest v (hold v hv k' hk') k' hk'⟩

theorem prefix_of_viable {v rest : List Char} {c : Char} (hdead : ¬ Viable (u ++ [c]))
    (hv : v <+: u ++ c :: rest) (h : Viable v) : v <+: u := by
  have hu : u <+: u ++ c :: rest := List.prefix_append _ _
  have huc : u ++ [c] <+: u ++ c :: rest := ⟨rest,by simp⟩
  by_cases hlen : v.length ≤ u.length
  · exact List.prefix_of_prefix_length_le hv hu hlen
  · have hlong : (u ++ [c]).length ≤ v.length := by
      rw [List.length_append,List.length_singleton]
      omega
    exact absurd (h.of_prefix (List.prefix_of_prefix_length_le huc hv hlong)) hdead

theorem Best.step (h : Best u best) (c : Char) :
    Best (u ++ [c]) (match firstAccepting (alive (u ++ [c])) with
      | some k => some (k, u.length + 1)
      | none => best) := by
  cases hfirst : firstAccepting (alive (u ++ [c])) with
  | some k =>
    have hlength : u.length + 1 = (u ++ [c]).length := by simp
    rw [hlength]
    refine ⟨Nat.le_refl _,?_⟩
    rw [List.take_length]
    exact ⟨List.prefix_refl _,firstAccepting_some hfirst,fun v hv _ _ => hv.length_le⟩
  | none =>
    refine h.extend (List.prefix_append u [c]) ?_
    intro v hv k hk
    rcases List.prefix_concat_iff.mp hv with rfl | hv
    · exact absurd hk (firstAccepting_none hfirst k)
    · exact hv

/-- The reading finds the longest token at the front of the whole text, and it ends with the
character behind which no token can come. -/
theorem munch_spec (rest : List Char) (hbest : Best u best) (hu : Viable u) :
    Best (u ++ rest) (munch (alive u) u.length best rest).1 ∧
      Stuck ((u ++ rest).take (munch (alive u) u.length best rest).2) (u ++ rest) := by
  induction rest generalizing u best with
  | nil =>
    rw [munch,List.append_nil,List.take_length]
    exact ⟨hbest,u,[],by simp,by simp,hu,fun w hw _ => hw.length_le⟩
  | cons c rest ih =>
    rw [munch,survivors_alive]
    by_cases hdead : (alive (u ++ [c])).isEmpty = true
    · rw [if_pos hdead]
      rw [alive_isEmpty_iff] at hdead
      refine ⟨hbest.extend (List.prefix_append _ _) ?_,u,c :: rest,rfl,?_,hu,?_⟩
      · intro v hv k hk
        exact prefix_of_viable hdead hv hk.viable
      · simp [List.take_append]
      · intro w hw hv
        exact (prefix_of_viable hdead hw hv).length_le
    · rw [if_neg hdead]
      rw [alive_isEmpty_iff,not_not] at hdead
      have hnext := ih (hbest.step c) hdead
      simp only [List.append_assoc,List.singleton_append,List.length_append,
        List.length_singleton] at hnext
      exact hnext

/-- The chunk is what the text begins with. -/
def Chunk.Heads (chunk : Chunk) (text : List Char) : Prop :=
  match chunk.kind with
  | some k => Leading k chunk.text text
  | none => NoToken text ∧ Stuck chunk.text text

theorem nextChunk_heads (text : List Char) : (nextChunk text).Heads text := by
  have hbest : Best [] none := by
    intro v hv k hk
    exact hk.ne_nil (List.prefix_nil.mp hv)
  have hviable : Viable [] := ⟨.comma,[','],(Kind.spells_word rfl _).mpr rfl⟩
  have hspec := munch_spec text hbest hviable
  rw [alive_nil] at hspec
  simp only [List.nil_append,List.length_nil] at hspec
  unfold nextChunk
  rcases hm : munch lexicon 0 none text with ⟨best,n⟩
  rw [hm] at hspec
  cases best with
  | none => exact hspec
  | some r => exact hspec.1.2

end Reading

end InterfaceKit.Lexical
