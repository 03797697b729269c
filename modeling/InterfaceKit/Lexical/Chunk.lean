import InterfaceKit.Lexical.Lexicon
import InterfaceKit.Text.Utf8

/-!
# Cutting a text into chunks

A text is cut from the left. Each chunk is the longest text that some pattern of the lexicon matches
there, the earliest kind winning a tie. Where nothing matches, the characters that were read while a
match was still possible are dropped, together with the one that made it impossible. The chunks
in order are the text again.
-/
namespace InterfaceKit.Lexical

/-- A piece of the text; it has no kind when it was dropped. -/
structure Chunk where
  kind : Option Kind
  text : List Char
  deriving DecidableEq, Repr

/-- The patterns that can still match behind `c`. -/
def survivors (c : Char) (live : List (Kind × Pattern)) : List (Kind × Pattern) :=
  live.filterMap fun r =>
    let p := r.2.after c
    if p = .never then none else some (r.1, p)

def firstAccepting (live : List (Kind × Pattern)) : Option Kind :=
  (live.find? fun r => r.2.acceptsEmpty).map (·.1)

/-- Reads on while some pattern is alive. Gives the last match with its length, and the number of
characters read, the failing one included. -/
def munch (live : List (Kind × Pattern)) (read : Nat) (best : Option (Kind × Nat)) :
    List Char → Option (Kind × Nat) × Nat
  | [] => (best, read)
  | c :: cs =>
    let live' := survivors c live
    if live'.isEmpty then (best, read + 1)
    else
      let best' := match firstAccepting live' with
        | some k => some (k, read + 1)
        | none => best
      munch live' (read + 1) best' cs

def nextChunk (text : List Char) : Chunk :=
  match munch lexicon 0 none text with
  | (some (k, n), _) => { kind := some k, text := text.take n }
  | (none, n) => { kind := none, text := text.take n }

/-- At most `limit` chunks of the text. -/
def chunksUpTo : Nat → List Char → List Chunk
  | 0, _ => []
  | _ + 1, [] => []
  | limit + 1, text =>
    let chunk := nextChunk text
    chunk :: chunksUpTo limit (text.drop chunk.text.length)

/-- All chunks: each takes a character at least, so there are no more than characters. -/
def chunks (text : List Char) : List Chunk := chunksUpTo text.length text

/-- Characters that belong to no token, with the position where they begin. -/
structure Fault where
  position : Position
  text : String
  deriving DecidableEq, Repr

def Fault.message (f : Fault) : String :=
  "line " ++ toString f.position.line ++ ":" ++ toString f.position.column
    ++ " token recognition error at: " ++ quote f.text

/-- A text as the parser sees it. A fault is listed with the number of tokens before it. -/
structure Source where
  tokens : List Token
  faults : List (Nat × Fault)
  finish : Position
  deriving DecidableEq, Repr

/-- Adds one chunk that begins where the source so far ends. The lists grow at the front. -/
def Source.extend (s : Source) (chunk : Chunk) : Source :=
  let finish := s.finish.past chunk.text
  match chunk.kind with
  | none =>
    { s with
      faults := (s.tokens.length, ⟨s.finish, String.ofList chunk.text⟩) :: s.faults
      finish := finish }
  | some k =>
    if k.isSkipped then { s with finish := finish }
    else
      { s with
        tokens := ⟨k, String.ofList chunk.text, s.finish, false⟩ :: s.tokens
        finish := finish }

def Source.ofText (text : List Char) : Source :=
  let s := (chunks text).foldl Source.extend { tokens := [], faults := [], finish := .start }
  { s with tokens := s.tokens.reverse, faults := s.faults.reverse }

/-- For each chunk that is a token, whether there are surrogates in it; `codes` are the code points
that the chunks were cut from. -/
def surrogateFlags : List Chunk → List Text.Code → List Bool
  | [], _ => []
  | chunk :: cs, codes =>
    let flags := surrogateFlags cs (codes.drop chunk.text.length)
    if chunk.kind.any fun k => !k.isSkipped then
      (codes.take chunk.text.length).any Text.Code.isSurrogate :: flags
    else flags

/-- To the patterns a surrogate is a character like any other that they do not name. -/
def Source.ofCodes (codes : List Text.Code) : Source :=
  let text := codes.map Text.Code.shown
  let s := Source.ofText text
  let flags := surrogateFlags (chunks text) codes
  { s with tokens := s.tokens.zipWith (fun t b => { t with hasSurrogate := b }) flags }

end InterfaceKit.Lexical
