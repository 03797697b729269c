import InterfaceKit.Lexical.Pattern
import Mathlib.Computability.Language

/-!
# The language of a pattern

A pattern stands for a set of texts. What is left of a pattern behind a character stands for what is
left of those texts, and it is `never` only when nothing is left of them.
-/
namespace InterfaceKit.Lexical

namespace CharSet

theorem range_iff (c d : Char) : d ≤ c ∧ c ≤ d ↔ c = d :=
  ⟨fun h => Char.le_antisymm h.2 h.1,fun h => h ▸ ⟨Char.le_refl c,Char.le_refl c⟩⟩

@[simp] theorem contains_single (c d : Char) : (single d).contains c = decide (c = d) := by
  rw [Bool.eq_iff_iff]
  simp [single,contains,range_iff]

@[simp] theorem contains_ofList (c : Char) (ds : List Char) :
    (ofList ds).contains c = decide (c ∈ ds) := by
  rw [Bool.eq_iff_iff]
  simp [ofList,contains,range_iff]

@[simp] theorem contains_noneOf (c : Char) (ds : List Char) :
    (noneOf ds).contains c = decide (c ∉ ds) := by
  rw [Bool.eq_iff_iff]
  simp only [noneOf,contains,List.any_map,bne_iff_ne,ne_eq,decide_eq_true_eq]
  simp [range_iff]

end CharSet

namespace Pattern
open Computability

def language : Pattern → Language Char
  | never => 0
  | done => 1
  | char s => {u | ∃ c, s.contains c = true ∧ u = [c]}
  | seq p q => p.language * q.language
  | alt p q => p.language + q.language
  | star p => p.language∗

section
variable {p q : Pattern} {u : List Char}

@[simp] theorem mem_never : u ∈ never.language ↔ False := Iff.rfl

@[simp] theorem mem_done : u ∈ done.language ↔ u = [] := Iff.rfl

variable {s : CharSet}

@[simp] theorem mem_char : u ∈ (char s).language ↔ ∃ c, s.contains c = true ∧ u = [c] := Iff.rfl

@[simp] theorem mem_alt : u ∈ (alt p q).language ↔ u ∈ p.language ∨ u ∈ q.language := Iff.rfl

theorem mem_seq : u ∈ (seq p q).language ↔ ∃ a ∈ p.language, ∃ b ∈ q.language, a ++ b = u :=
  Language.mem_mul

theorem mem_star :
    u ∈ (star p).language ↔ ∃ us : List (List Char), u = us.flatten ∧ ∀ v ∈ us, v ∈ p.language :=
  Language.mem_kstar

@[simp] theorem mem_seq_char :
    u ∈ (seq (char s) p).language ↔ ∃ c v, s.contains c = true ∧ v ∈ p.language ∧ u = c :: v := by
  rw [mem_seq]
  constructor
  · rintro ⟨a,⟨c,hc,rfl⟩,v,hv,rfl⟩
    exact ⟨c,v,hc,hv,rfl⟩
  · rintro ⟨c,v,hc,hv,rfl⟩
    exact ⟨[c],⟨c,hc,rfl⟩,v,hv,rfl⟩

@[simp] theorem mem_star_char : u ∈ (star (char s)).language ↔ ∀ c ∈ u, s.contains c = true := by
  rw [mem_star]
  constructor
  · rintro ⟨us,rfl,h⟩ c hc
    obtain ⟨v,hv,hcv⟩ := List.mem_flatten.mp hc
    obtain ⟨d,hd,rfl⟩ := h v hv
    rwa [List.mem_singleton.mp hcv]
  · intro h
    refine ⟨u.map fun c => [c],by simp [← List.flatMap_def],?_⟩
    rintro v hv
    obtain ⟨c,hc,rfl⟩ := List.mem_map.mp hv
    exact ⟨c,h c hc,rfl⟩

@[simp] theorem mem_plus_char :
    u ∈ (plus (char s)).language ↔ u ≠ [] ∧ ∀ c ∈ u, s.contains c = true := by
  simp only [plus,mem_seq_char,mem_star_char]
  cases u with
  | nil => simp
  | cons c v => simp

@[simp] theorem mem_literal (cs : List Char) : u ∈ (literal cs).language ↔ u = cs := by
  fun_induction literal cs generalizing u with
  | case1 => exact mem_done
  | case2 c => simp
  | case3 c cs hne ih => simp [ih]

theorem mem_seq_literal (cs : List Char) :
    u ∈ (seq (literal cs) p).language ↔ ∃ v ∈ p.language, u = cs ++ v := by
  simp [mem_seq,eq_comm]

end

theorem acceptsEmpty_iff (p : Pattern) : p.acceptsEmpty = true ↔ [] ∈ p.language := by
  induction p with
  | never | done | char => simp [acceptsEmpty]
  | seq p q ihp ihq => simp [acceptsEmpty,ihp,ihq,mem_seq]
  | alt p q ihp ihq => simp [acceptsEmpty,ihp,ihq]
  | star p ih => simp [acceptsEmpty,language,Language.nil_mem_kstar]

theorem language_join (p q : Pattern) : (join p q).language = (seq p q).language := by
  unfold join
  split <;> simp [language]

theorem language_either (p q : Pattern) : (either p q).language = (alt p q).language := by
  unfold either
  split
  · simp [language]
  · simp [language]
  · split
    · subst_vars
      simp [language]
    · rfl

variable {p q : Pattern} {c : Char} {u : List Char}

theorem append_mem_star {a b : List Char} (ha : a ∈ p.language) (hb : b ∈ (star p).language) :
    a ++ b ∈ (star p).language := by
  obtain ⟨us,rfl,hus⟩ := mem_star.mp hb
  exact mem_star.mpr ⟨a :: us,rfl,List.forall_mem_cons.mpr ⟨ha,hus⟩⟩

/-- A text from the middle of a repetition begins in the middle of one of its parts. -/
theorem cons_mem_star :
    c :: u ∈ (star p).language ↔ ∃ a b, c :: a ∈ p.language ∧ b ∈ (star p).language ∧
    a ++ b = u := by
  constructor
  · intro h
    obtain ⟨us,hu,hus⟩ := Language.mem_kstar_iff_exists_nonempty.mp h
    cases us with
    | nil => contradiction
    | cons v us =>
      obtain ⟨hv,hne⟩ := hus v List.mem_cons_self
      obtain ⟨d,a,rfl⟩ := List.exists_cons_of_ne_nil hne
      obtain ⟨rfl,rfl⟩ := List.cons.inj hu
      have hb : us.flatten ∈ (star p).language :=
        Language.join_mem_kstar fun y hy => (hus y (List.mem_cons_of_mem _ hy)).1
      exact ⟨a,us.flatten,hv,hb,rfl⟩
  · rintro ⟨a,b,ha,hb,rfl⟩
    exact append_mem_star ha hb

theorem cons_mem_seq : c :: u ∈ (seq p q).language ↔
      (∃ a b, c :: a ∈ p.language ∧ b ∈ q.language ∧ a ++ b = u) ∨
      ([] ∈ p.language ∧ c :: u ∈ q.language) := by
  rw [mem_seq]
  constructor
  · rintro ⟨a,ha,b,hb,hab⟩
    cases a with
    | nil => exact .inr ⟨ha,hab ▸ hb⟩
    | cons d a =>
      obtain ⟨rfl,rfl⟩ := List.cons.inj hab
      exact .inl ⟨a,b,ha,hb,rfl⟩
  · rintro (⟨a,b,ha,hb,rfl⟩ | ⟨hp,hq⟩)
    · exact ⟨c :: a,ha,b,hb,rfl⟩
    · exact ⟨[],hp,c :: u,hq,rfl⟩

/-- What is left of a pattern behind `c` is matched by what is left behind `c` of the texts that
match. -/
theorem mem_after (p : Pattern) (c : Char) (u : List Char) :
    u ∈ (p.after c).language ↔ c :: u ∈ p.language := by
  induction p generalizing u with
  | never => simp [after]
  | done => simp [after]
  | char s =>
    by_cases hs : s.contains c = true
    · simp [after,hs]
    · simp only [after,if_neg hs,mem_never,mem_char,false_iff]
      rintro ⟨d,hd,hcd⟩
      exact hs ((List.cons.inj hcd).1 ▸ hd)
  | seq p q ihp ihq =>
    rw [cons_mem_seq,← acceptsEmpty_iff]
    unfold after
    split
    next hp => simp [language_either,language_join,mem_seq,ihp,ihq,hp]
    next hp => simp [language_join,mem_seq,ihp,hp]
  | alt p q ihp ihq => simp [after,language_either,ihp,ihq]
  | star p ih => simp [after,language_join,mem_seq,ih,cons_mem_star]

/-- What is left of a pattern behind a text. -/
def behind (p : Pattern) (u : List Char) : Pattern := u.foldl (fun q c => q.after c) p

theorem behind_concat (p : Pattern) (u : List Char) (c : Char) :
    p.behind (u ++ [c]) = (p.behind u).after c := by
  simp [behind]

theorem mem_behind (p : Pattern) (u v : List Char) :
    v ∈ (p.behind u).language ↔ u ++ v ∈ p.language := by
  induction u generalizing p with
  | nil => rfl
  | cons c u ih => exact (ih (p.after c)).trans (mem_after p c (u ++ v))

theorem accepts_iff (p : Pattern) (u : List Char) : p.accepts u = true ↔ u ∈ p.language := by
  have h := mem_behind p u []
  rw [List.append_nil] at h
  exact (acceptsEmpty_iff _).trans h

/-- No part of the pattern is without a match. -/
inductive Live : Pattern → Prop
  | done : Live done
  | char {s : CharSet} (c : Char) (h : s.contains c = true) : Live (char s)
  | seq {p q : Pattern} (hp : Live p) (hq : Live q) : Live (seq p q)
  | alt {p q : Pattern} (hp : Live p) (hq : Live q) : Live (alt p q)
  | star {p : Pattern} (hp : Live p) : Live (star p)

theorem Live.exists_mem (h : p.Live) : ∃ u, u ∈ p.language := by
  induction h with
  | done => exact ⟨[],mem_done.mpr rfl⟩
  | char c hc => exact ⟨[c],c,hc,rfl⟩
  | seq hp hq ihp ihq =>
    obtain ⟨a,ha⟩ := ihp
    obtain ⟨b,hb⟩ := ihq
    exact ⟨a ++ b,Language.append_mem_mul ha hb⟩
  | alt hp hq ihp ihq =>
    obtain ⟨a,ha⟩ := ihp
    exact ⟨a,.inl ha⟩
  | star hp ih => exact ⟨[],Language.nil_mem_kstar _⟩

theorem Live.literal (cs : List Char) : (literal cs).Live := by
  fun_induction Pattern.literal cs with
  | case1 => exact .done
  | case2 c => exact .char c (by simp)
  | case3 c cs hne ih => exact .seq (.char c (by simp)) ih

/-- What comes from folding live patterns together is live, or it is `never` as a whole. -/
def Trim (p : Pattern) : Prop := p ≠ never → p.Live

theorem Trim.join (hp : p.Trim) (hq : q.Trim) : (join p q).Trim := by
  unfold Pattern.join
  split
  next => exact fun h => absurd rfl h
  next => exact fun h => absurd rfl h
  next => exact hq
  next hp' _ hq' => exact fun _ => .seq (hp hp') (hq hq')

theorem Trim.either (hp : p.Trim) (hq : q.Trim) : (either p q).Trim := by
  unfold Pattern.either
  split
  next => exact hq
  next => exact hp
  next hp' hq' =>
    split
    · exact hp
    · exact fun _ => .alt (hp hp') (hq hq')

theorem Live.after (h : p.Live) (c : Char) : (p.after c).Trim := by
  induction h with
  | done => exact fun h => absurd rfl h
  | @char s d hd =>
    unfold Pattern.after
    split
    · exact fun _ => .done
    · exact fun h => absurd rfl h
  | seq hp hq ihp ihq =>
    unfold Pattern.after
    split
    · exact (ihp.join fun _ => hq).either ihq
    · exact ihp.join fun _ => hq
  | alt hp hq ihp ihq => exact ihp.either ihq
  | star hp ih => exact ih.join fun _ => .star hp

theorem Live.behind (h : p.Live) (u : List Char) : (p.behind u).Trim := by
  induction u using List.reverseRecOn with
  | nil => exact fun _ => h
  | append_singleton u c ih =>
    rw [behind_concat]
    by_cases hn : p.behind u = never
    · rw [hn]
      exact fun h => absurd rfl h
    · exact (ih hn).after c

/-- Nothing is left of a pattern behind a text exactly when no match begins with the text. -/
theorem Live.behind_eq_never_iff (h : p.Live) (u : List Char) :
    p.behind u = never ↔ ∀ v, u ++ v ∉ p.language := by
  constructor
  · intro hn v hv
    rw [← mem_behind,hn] at hv
    exact hv
  · intro hv
    by_contra hn
    obtain ⟨v,hm⟩ := (h.behind u hn).exists_mem
    exact hv v ((mem_behind p u v).mp hm)

end Pattern

end InterfaceKit.Lexical
