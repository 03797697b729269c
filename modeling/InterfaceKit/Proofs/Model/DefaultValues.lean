import InterfaceKit.Proofs.Grammar.Naming

/-!
# Default values

A default value is written as a string token, and its text is read a second time for the escapes in
it. The two readings know different escapes. The second one fails on some texts, but on no text of
characters that stands between the quotes of a token: there a backslash is always followed by a
letter that the second reading takes by itself, so both agree on where each escape begins. A
surrogate may stand there too, and then the text cannot be read.
-/
namespace InterfaceKit

namespace Text

/-! ## Bytes -/

section
variable {c : Char} {b : UInt8}

theorem utf8Char_of_lt (h : c.toNat < 128) : utf8Char c = [c.toNat.toUInt8] := by simp [utf8Char,h]

/-- No part of another character is taken for a backslash. -/
theorem ne_of_mem_utf8Char (hc : c ≠ '\\') (hb : b ∈ utf8Char c) : b ≠ 92 := by
  have hcode : c.toNat ≠ 92 := fun h => hc (Char.toNat_inj.mp h)
  have hvalid : c.toNat < 0x110000 := by
    rcases c.valid with h | h
    · exact Nat.lt_trans h (by decide)
    · exact h.2
  suffices hnat : b.toNat ≠ 92 by
    rintro rfl
    exact hnat rfl
  by_cases hascii : c.toNat < 128
  · rw [utf8Char_of_lt hascii] at hb
    obtain rfl := List.mem_singleton.mp hb
    simp
    omega
  · suffices hlarge : 128 ≤ b.toNat by omega
    have htail : ∀ k, 128 ≤ (128 + c.toNat / Nat.pow 64 k % 64).toUInt8.toNat := by
      intro k
      simp
      omega
    simp only [utf8Char,if_neg hascii] at hb
    split at hb
    · simp only [List.mem_cons,List.not_mem_nil,or_false] at hb
      rcases hb with rfl | rfl
      · simp
        omega
      · exact htail 0
    · split at hb
      · simp only [List.mem_cons,List.not_mem_nil,or_false] at hb
        rcases hb with rfl | rfl | rfl
        · simp
          omega
        · exact htail 1
        · exact htail 0
      · simp only [List.mem_cons,List.not_mem_nil,or_false] at hb
        rcases hb with rfl | rfl | rfl | rfl
        · simp
          omega
        · exact htail 2
        · exact htail 1
        · exact htail 0

/-- A text of ASCII is its own row of bytes. -/
theorem utf8Encode_ascii {text : List Char} (h : ∀ c ∈ text, c.toNat < 128) :
    (utf8Encode text).map UInt8.toNat = text.map Char.toNat := by
  induction text with
  | nil => rfl
  | cons c text ih =>
    obtain ⟨hc,htext⟩ := List.forall_mem_cons.mp h
    have hcode : c.toNat.toUInt8.toNat = c.toNat := by
      simp
      omega
    rw [List.map_cons,← ih htext]
    simp [utf8Encode,utf8Char_of_lt hc,hcode]

end

/-! ## Decoding -/

namespace Escape

theorem decodeUpTo_plain {limit : Nat} {b : UInt8} {bs : List UInt8} (h : b ≠ 92) :
    decodeUpTo (limit + 1) (b :: bs) = (decodeUpTo limit bs).map (b.toNat :: ·) := by
  cases bs <;> simp [decodeUpTo,h]

/-- Bytes without a backslash stand for themselves. -/
theorem decodeUpTo_append {bs : List UInt8} (h : ∀ b ∈ bs, b ≠ 92) (limit : Nat)
    (rest : List UInt8) :
    decodeUpTo (bs.length + limit) (bs ++ rest) =
      (decodeUpTo limit rest).map (bs.map UInt8.toNat ++ ·) := by
  induction bs with
  | nil => cases hrest : decodeUpTo limit rest <;> simp [hrest,Except.map]
  | cons b bs ih =>
    obtain ⟨hb,hbs⟩ := List.forall_mem_cons.mp h
    rw [List.length_cons,Nat.add_right_comm,List.cons_append,decodeUpTo_plain hb,ih hbs]
    cases decodeUpTo limit rest <;> rfl

/-- What a byte behind a backslash leaves, if it takes no digits and is not a line feed. -/
def single? (e : UInt8) : Option (List Nat) :=
  if e = 10 || isOctal e then none
  else
    match simple? e, width? e with
    | some n, _ => some [n]
    | none, some _ => none
    | none, none => if e = 78 then none else some [92,e.toNat]

theorem decodeUpTo_single {e : UInt8} {out : List Nat} (h : single? e = some out) (limit : Nat)
    (rest : List UInt8) :
    decodeUpTo (limit + 1) (92 :: e :: rest) = (decodeUpTo limit rest).map (out ++ ·) := by
  simp only [single?,Bool.or_eq_true,decide_eq_true_eq] at h
  split at h
  · cases h
  · rename_i hdigit
    obtain ⟨hline,hoctal⟩ := not_or.mp hdigit
    rw [decodeUpTo.eq_4,if_neg (by simp),if_neg hline,if_neg hoctal]
    cases hsimple : simple? e with
    | some n =>
      rw [hsimple] at h
      obtain rfl := Option.some.inj h
      rfl
    | none =>
      rw [hsimple] at h
      cases hwidth : width? e with
      | some w =>
        rw [hwidth] at h
        cases h
      | none =>
        rw [hwidth] at h
        dsimp only at h ⊢
        split at h
        · cases h
        · rename_i hname
          obtain rfl := Option.some.inj h
          exact if_neg hname

end Escape

end Text

/-! ## String tokens -/

namespace Lexical
open Text

def escaped? (c : Char) : Option Char :=
  [('"', '"'),('\\', '\\'),('b', '\x08'),('f', '\x0c'),('n', '\n'),('r', '\r'),('t', '\t')].lookup c

/-- A text with its escapes replaced. A letter that means nothing, as a slash does, keeps its
backslash. -/
def unescaped : List Char → List Char
  | [] => []
  | '\\' :: c :: u => ((escaped? c).map fun d => [d]).getD ['\\',c] ++ unescaped u
  | c :: u => c :: unescaped u

variable {c : Char} {u : List Char}

theorem unescaped_plain (h : c ≠ '\\') (u : List Char) : unescaped (c :: u) = c :: unescaped u := by
  simp [unescaped,h]

def byteCodes (u : List Char) : List Nat := (utf8Encode u).map UInt8.toNat

theorem single?_escape (hc : c ∈ ['"','\\','/','b','f','n','r','t']) (u : List Char) :
    ∃ e out, utf8Encode ('\\' :: c :: u) = 92 :: e :: utf8Encode u ∧ Escape.single? e = some out ∧
      byteCodes (unescaped ('\\' :: c :: u)) = out ++ byteCodes (unescaped u) := by
  simp only [List.mem_cons,List.not_mem_nil,or_false] at hc
  rcases hc with rfl | rfl | rfl | rfl | rfl | rfl | rfl | rfl
  · exact ⟨34,[34],rfl,by decide,rfl⟩
  · exact ⟨92,[92],rfl,by decide,rfl⟩
  · exact ⟨47,[92,47],rfl,by decide,rfl⟩
  · exact ⟨98,[8],rfl,by decide,rfl⟩
  · exact ⟨102,[12],rfl,by decide,rfl⟩
  · exact ⟨110,[10],rfl,by decide,rfl⟩
  · exact ⟨114,[13],rfl,by decide,rfl⟩
  · exact ⟨116,[9],rfl,by decide,rfl⟩

/-- What stands between quotes can be decoded. -/
theorem Quotable.decodeText {q : Char} (h : Quotable q u) :
    Escape.decodeText u = .ok (byteCodes (unescaped u)) := by
  suffices hlimit : ∀ spare, Escape.decodeUpTo ((utf8Encode u).length + spare) (utf8Encode u) =
      .ok (byteCodes (unescaped u)) from hlimit 0
  induction h with
  | nil =>
    intro spare
    exact Escape.decodeUpTo.eq_1 _
  | @escape c u hc hu ih =>
    intro spare
    obtain ⟨e,out,hbytes,hsingle,hcodes⟩ := single?_escape hc u
    have hlength :
        (92 :: e :: utf8Encode u).length + spare = (utf8Encode u).length + (spare + 1) + 1 := by
      simp only [List.length_cons]
      omega
    rw [hbytes,hcodes,hlength,Escape.decodeUpTo_single hsingle,ih]
    rfl
  | @plain c u hq hc hu ih =>
    intro spare
    have hbytes : utf8Encode (c :: u) = utf8Char c ++ utf8Encode u := rfl
    rw [hbytes,List.length_append,Nat.add_assoc,
      Escape.decodeUpTo_append fun b => ne_of_mem_utf8Char hc,ih,unescaped_plain hc]
    simp [byteCodes,utf8Encode,Except.map]

theorem escaped?_ascii {d : Char} (h : escaped? c = some d) : d.toNat < 128 := by
  obtain ⟨before,after,htable,-⟩ := List.lookup_eq_some_iff.mp h
  have hmem : (c, d) ∈ before ++ (c, d) :: after := by simp
  rw [← htable] at hmem
  simp only [List.mem_cons,Prod.mk.injEq,List.not_mem_nil,or_false] at hmem
  rcases hmem with ⟨-,rfl⟩ | ⟨-,rfl⟩ | ⟨-,rfl⟩ | ⟨-,rfl⟩ | ⟨-,rfl⟩ | ⟨-,rfl⟩ | ⟨-,rfl⟩ <;> decide

theorem unescaped_ascii (h : ∀ c ∈ u, c.toNat < 128) : ∀ c ∈ unescaped u, c.toNat < 128 := by
  fun_induction unescaped u with
  | case1 => exact h
  | case2 c u ih =>
    obtain ⟨hslash,hrest⟩ := List.forall_mem_cons.mp h
    obtain ⟨hc,hu⟩ := List.forall_mem_cons.mp hrest
    refine List.forall_mem_append.mpr ⟨?_,ih hu⟩
    cases hd : escaped? c with
    | none => exact List.forall_mem_cons.mpr ⟨hslash,List.forall_mem_singleton.mpr hc⟩
    | some d => exact List.forall_mem_singleton.mpr (escaped?_ascii hd)
  | case3 c u hc ih =>
    obtain ⟨hc,hu⟩ := List.forall_mem_cons.mp h
    exact List.forall_mem_cons.mpr ⟨hc,ih hu⟩

def Token.content (t : Token) : List Char := (t.text.toList.drop 1).dropLast

variable {t : Token}

theorem Token.exists_quotable (hkind : t.kind = .string) (h : t.kind.Spells t.text.toList) :
    ∃ q, Quotable q t.content := by
  rw [hkind] at h
  rcases h with ⟨v,hv,htext⟩ | ⟨v,hv,htext⟩
  · exact ⟨'"',by simpa [content,htext] using hv⟩
  · exact ⟨'\'',by simpa [content,htext] using hv⟩

theorem Token.decodeText_content (hkind : t.kind = .string) (h : t.kind.Spells t.text.toList) :
    Escape.decodeText t.content = .ok (byteCodes (unescaped t.content)) := by
  obtain ⟨q,hq⟩ := t.exists_quotable hkind h
  exact hq.decodeText

/-! ## Surrogates -/

def inside {α : Type} (u : List α) : List α := (u.drop 1).dropLast

/-- The quotes are no surrogates. -/
theorem any_isSurrogate_inside {own : List Code} (hkind : t.kind = .string)
    (h : t.kind.Spells t.text.toList) (hown : own.map Code.shown = t.text.toList) :
    (inside own).any Code.isSurrogate = own.any Code.isSurrogate := by
  have hquote : ∀ c : Code, c.shown = '"' ∨ c.shown = '\'' → c.isSurrogate = false := by
    intro c hc
    cases c with
    | char c => rfl
    | surrogate n => exact absurd hc (by simp [Code.shown])
  have hends : ∃ q v, (q = '"' ∨ q = '\'') ∧ own.map Code.shown = q :: (v ++ [q]) := by
    rw [hkind] at h
    rcases h with ⟨v,-,htext⟩ | ⟨v,-,htext⟩
    · exact ⟨'"',v,.inl rfl,hown.trans htext⟩
    · exact ⟨'\'',v,.inr rfl,hown.trans htext⟩
  obtain ⟨q,v,hq,hmap⟩ := hends
  obtain ⟨a,rest,rfl,rfl,hrest⟩ := List.map_eq_cons_iff.mp hmap
  obtain ⟨w,ends,rfl,-,hlast⟩ := List.map_eq_append_iff.mp hrest
  obtain ⟨b,rfl,hb⟩ := List.map_eq_singleton_iff.mp hlast
  simp [inside,hquote a hq,hquote b (hb ▸ hq)]

theorem decodeCodes_of_any {codes : List Code} (h : codes.any Code.isSurrogate = true) :
    Escape.decodeCodes codes = .error .unencodable := by
  simp only [Escape.decodeCodes,utf8Encode?,h,if_true]

theorem decodeCodes_of_not_any {codes : List Code} (h : codes.any Code.isSurrogate = false) :
    Escape.decodeCodes codes = Escape.decodeText (codes.map Code.shown) := by
  simp only [Escape.decodeCodes,utf8Encode?,h,Bool.false_eq_true,if_false,Escape.decodeText]

theorem Source.slice {codes : List Code} (h : t ∈ (Source.ofCodes codes).tokens) :
    t.kind.Spells t.text.toList ∧ ∃ before own behind, codes = before ++ own ++ behind ∧
      own.map Code.shown = t.text.toList ∧ t.position = .behind (before.map Code.shown) ∧
      t.hasSurrogate = own.any Code.isSurrogate := by
  have hcuts := chunks_cuts (codes.map Code.shown)
  rw [tokens_ofCodes] at h
  obtain ⟨before,own,behind,hcodes,hmem,htext,hposition,hflag⟩ :=
    slice_of_mem_flagged hcuts.flatMap_text.symm h
  have hown : own.map Code.shown = t.text.toList := by rw [htext,String.toList_ofList]
  exact ⟨hown ▸ (hcuts.wins hmem).1,before,own,behind,hcodes,hown,by simpa using hposition,hflag⟩

theorem unescaped_codes (h : ∀ c ∈ u, c.toNat < 128) :
    byteCodes (unescaped u) = (unescaped u).map Char.toNat :=
  utf8Encode_ascii (unescaped_ascii h)

end Lexical

namespace Model.Drafting
open Lexical Grammar

theorem defaultValue_run {t : Grammar.Tree} {v : Token} (hv : t.token? .string = some v)
    (hkind : v.kind = .string) (h : v.kind.Spells v.text.toList) (d : Draft) :
    (defaultValue t).run d = (if v.hasSurrogate then .error (.failed .unencodable)
      else .ok (some (String.ofList ((byteCodes (unescaped v.content)).map Char.ofNat))), d) := by
  have hdecode := Token.decodeText_content hkind h
  dsimp only [Token.content] at hdecode
  simp only [defaultValue,hv,hdecode]
  cases v.hasSurrogate <;> rfl

end Model.Drafting

namespace Lexical
open Text

/-- Every string token of a text can be decoded, to its content with the escapes replaced if the
content is ASCII, unless there is a surrogate in it; so no other default value of a parsed text is
refused. -/
theorem Source.default_values_decode (codes : List Code) :
    (∀ t ∈ (Source.ofCodes codes).tokens, t.kind = .string → ∃ before quoted behind,
      codes = before ++ quoted ++ behind ∧ quoted.map Code.shown = t.text.toList ∧
      t.position = .behind (before.map Code.shown) ∧
      t.hasSurrogate = (inside quoted).any Code.isSurrogate ∧
      (t.hasSurrogate = true → Escape.decodeCodes (inside quoted) = .error .unencodable) ∧
      (t.hasSurrogate = false → (∃ result, Escape.decodeCodes (inside quoted) = .ok result) ∧
        ((∀ c ∈ t.content, c.toNat < 128) →
          Escape.decodeCodes (inside quoted) = .ok ((unescaped t.content).map Char.toNat)))) ∧
    ∀ rule tree cursor, Grammar.parse rule (Source.ofCodes codes) = .parsed tree cursor →
      ∀ r ts, .node r ts ∈ tree.nodes → ∀ d,
        match (Grammar.Tree.node r ts).token? .string with
        | none => (Model.Drafting.defaultValue (.node r ts)).run d = (.ok none, d)
        | some t => t ∈ (Source.ofCodes codes).tokens ∧ t.kind = .string ∧
          (t.hasSurrogate = true →
            (Model.Drafting.defaultValue (.node r ts)).run d = (.error (.failed .unencodable), d)) ∧
          (t.hasSurrogate = false → ∃ value,
            (Model.Drafting.defaultValue (.node r ts)).run d = (.ok (some value), d) ∧
            ((∀ c ∈ t.content, c.toNat < 128) → value = String.ofList (unescaped t.content))) := by
  constructor
  · intro t ht hkind
    obtain ⟨hspells,before,quoted,behind,hcodes,hquoted,hposition,hflag⟩ := Source.slice ht
    rw [← any_isSurrogate_inside hkind hspells hquoted] at hflag
    refine ⟨before,quoted,behind,hcodes,hquoted,hposition,hflag,?_,?_⟩
    · intro hsurrogate
      exact decodeCodes_of_any (hflag.symm.trans hsurrogate)
    · intro hsurrogate
      have hcontent : (inside quoted).map Code.shown = t.content := by
        rw [inside,List.map_dropLast,List.map_drop,hquoted,Token.content]
      have hdecode := Token.decodeText_content hkind hspells
      rw [← hcontent,← decodeCodes_of_not_any (hflag.symm.trans hsurrogate),hcontent] at hdecode
      exact ⟨⟨_,hdecode⟩,fun hascii => by rw [hdecode,unescaped_codes hascii]⟩
  · intro rule tree cursor hparse r ts hnode d
    have hsubset := ((Grammar.parse_reads hparse).derives.node_below
      (by simpa [Grammar.Tree.nodesOf] using hnode)).2
    cases hv : (Grammar.Tree.node r ts).token? .string with
    | none =>
      simp only [Model.Drafting.defaultValue,hv]
      rfl
    | some v =>
      rw [Grammar.Tree.token?_node] at hv
      obtain ⟨hmem,hkind⟩ := Grammar.mem_tokensOf_of_mem_wordsIn (List.mem_of_head? hv)
      have htoken : v ∈ (Source.ofCodes codes).tokens :=
        Source.mem_of_parsed hparse (by simpa using hsubset hmem)
      have hrun :=
        Model.Drafting.defaultValue_run (t := .node r ts) (by rwa [Grammar.Tree.token?_node]) hkind
        (Source.slice htoken).1 d
      refine ⟨htoken,hkind,fun hsurrogate => by rw [hrun,hsurrogate]; rfl,fun hsurrogate => ?_⟩
      rw [hsurrogate] at hrun
      refine ⟨_,hrun,fun hascii => ?_⟩
      rw [unescaped_codes hascii,List.map_map]
      simp [Function.comp_def,Char.ofNat_toNat]

/-- A default value in which backslashes stand before an `x`, a slash and an `n`. -/
def escapedText : List Char := "string s = \"C:\\\\x\\/\\n\"".toList

def escapedToken : Token := ⟨.string,"\"C:\\\\x\\/\\n\"",⟨1,11⟩,false⟩

/-- The first two backslashes belong together, so that no number is expected behind the `x`. -/
theorem Source.escaped_path_decodes :
    escapedToken ∈ (Source.ofText escapedText).tokens ∧
      (∃ before quoted behind, escapedText.map .char = before ++ quoted ++ behind ∧
        quoted.map Code.shown = escapedToken.text.toList ∧
        Escape.decodeCodes (inside quoted) = .ok ("C:\\x\\/\n".toList.map Char.toNat)) ∧
      ∃ ts cursor, Grammar.parse .property (Source.ofText escapedText) =
        .parsed (.node .property ts) cursor ∧
        ∀ d, (Model.Drafting.defaultValue (.node .property ts)).run d =
          (.ok (some "C:\\x\\/\n"), d) := by
  have htoken : escapedToken ∈ (Source.ofText escapedText).tokens := by decide +kernel
  have hcontent : ∀ c ∈ escapedToken.content, c.toNat < 128 := by simp [Token.content,escapedToken]
  have hread : (match Grammar.parse .property (Source.ofText escapedText) with
      | .parsed (.node .property ts) _ =>
        decide ((Grammar.wordsIn .string ts).head? = some escapedToken)
      | _ => false) = true := by
    decide +kernel
  obtain ⟨hdecode,hvalue⟩ := Source.default_values_decode (escapedText.map .char)
  rw [Source.ofCodes_char] at hdecode hvalue
  obtain ⟨before,quoted,behind,hcodes,hquoted,-,-,-,hresult⟩ := hdecode _ htoken rfl
  refine ⟨htoken,⟨before,quoted,behind,hcodes,hquoted,(hresult rfl).2 hcontent⟩,?_⟩
  split at hread
  · rename_i ts cursor hparse
    refine ⟨ts,cursor,hparse,fun d => ?_⟩
    have hrun := hvalue _ _ _ hparse .property ts (by simp [Grammar.Tree.nodes]) d
    rw [Grammar.Tree.token?_node,of_decide_eq_true hread] at hrun
    obtain ⟨value,hrun,hval⟩ := hrun.2.2.2 rfl
    rw [hrun,hval hcontent]
    rfl
  · cases hread

def surrogateText : List Code := "string s = \"".toList.map .char ++ [.surrogate 0,.char '"']

/-- It is a string token, but it cannot be decoded, and the value is refused. -/
theorem Source.surrogate_refused :
    (∃ t ∈ (Source.ofCodes surrogateText).tokens, t.kind = .string ∧ t.hasSurrogate = true) ∧
      Escape.decodeCodes [.surrogate 0] = .error .unencodable ∧
      ∃ ts cursor, Grammar.parse .property (Source.ofCodes surrogateText) =
        .parsed (.node .property ts) cursor ∧
        ∀ d, (Model.Drafting.defaultValue (.node .property ts)).run d =
          (.error (.failed .unencodable), d) := by
  have hread : (match Grammar.parse .property (Source.ofCodes surrogateText) with
      | .parsed (.node .property ts) _ => decide ((Grammar.wordsIn .string ts).head? =
        some ⟨.string,"\"\uFFFD\"",⟨1,11⟩,true⟩)
      | _ => false) = true := by
    decide +kernel
  refine ⟨by decide +kernel,rfl,?_⟩
  split at hread
  · rename_i ts cursor hparse
    refine ⟨ts,cursor,hparse,fun d => ?_⟩
    have hv := of_decide_eq_true hread
    rw [← Grammar.Tree.token?_node (r := .property)] at hv
    simp only [Model.Drafting.defaultValue,hv]
    rfl
  · cases hread

end Lexical

end InterfaceKit
