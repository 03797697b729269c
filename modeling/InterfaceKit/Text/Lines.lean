/-!
# Lines and words

Blanks are the separators of Unicode and the control characters that act as such. A line ends at any
of the marks of `isLineBreak`, a carriage return with the line feed behind it counting as one. Words
are put on a line as long as they fit.
-/
namespace InterfaceKit.Text

def inRanges (ranges : List (Nat × Nat)) (n : Nat) : Bool :=
  ranges.any fun r => r.1 ≤ n && n ≤ r.2

/-- Whether a number is in a set that is given by runs from zero on: how many are not in it, how
many are, and so on turn by turn. -/
def inRuns : List Nat → Nat → Bool
  | out :: inside :: runs, n => out ≤ n && (n < out + inside || inRuns runs (n - (out + inside)))
  | _, _ => false

def isBlank (c : Char) : Bool :=
  inRanges [(9, 13), (28, 32), (133, 133), (160, 160), (5760, 5760), (8192, 8202), (8232, 8233),
    (8239, 8239), (8287, 8287), (12288, 12288)] c.toNat

def isLineBreak (c : Char) : Bool :=
  inRanges [(10, 13), (28, 30), (133, 133), (8232, 8233)] c.toNat

/-- The lines of a text without their marks; `line` is the part of the current one read so far,
reversed. -/
def linesFrom (line : List Char) : List Char → List (List Char)
  | [] => if line.isEmpty then [] else [line.reverse]
  | '\r' :: '\n' :: cs => line.reverse :: linesFrom [] cs
  | c :: cs => if isLineBreak c then line.reverse :: linesFrom [] cs else linesFrom (c :: line) cs

def lines (text : List Char) : List (List Char) := linesFrom [] text

def wordsFrom (word : List Char) : List Char → List (List Char)
  | [] => if word.isEmpty then [] else [word.reverse]
  | c :: cs =>
    if isBlank c then
      if word.isEmpty then wordsFrom [] cs else word.reverse :: wordsFrom [] cs
    else wordsFrom (c :: word) cs

def words (text : List Char) : List (List Char) := wordsFrom [] text

/-- The first word, and the rest from its first character that is not blank. -/
def splitWord (text : List Char) : List Char × List Char :=
  let trimmed := text.dropWhile isBlank
  (trimmed.takeWhile (!isBlank ·), (trimmed.dropWhile (!isBlank ·)).dropWhile isBlank)

def splitAt (sep : Char) : List Char → List (List Char)
  | [] => [[]]
  | c :: cs =>
    match splitAt sep cs with
    | [] => [[c]]
    | first :: rest => if c = sep then [] :: first :: rest else (c :: first) :: rest

/-- The part before the last occurrence of a character and the part behind it. -/
def splitLast? (sep : Char) : List Char → Option (List Char × List Char)
  | [] => none
  | c :: cs =>
    match splitLast? sep cs with
    | some (before, behind) => some (c :: before, behind)
    | none => if c = sep then some ([], cs) else none

def startsWith : List Char → List Char → Bool
  | [], _ => true
  | _ :: _, [] => false
  | p :: ps, c :: cs => p = c && startsWith ps cs

def occursIn (part : List Char) : List Char → Bool
  | [] => part.isEmpty
  | c :: cs => startsWith part (c :: cs) || occursIn part cs

def replaceChar (old new : Char) (text : List Char) : List Char :=
  text.map fun c => if c = old then new else c

/-- Lines of at most `width` characters; a longer word has a line of its own. -/
def wrap (width : Nat) (text : String) : List String :=
  let (lines, last) := ((words text.toList).map String.ofList).foldl (fun (lines, line) w =>
    if line = "" then (lines, w)
    else if line.length + 1 + w.length ≤ width then (lines, line ++ " " ++ w)
    else (lines ++ [line], w)) (([] : List String), "")
  if last = "" then lines else lines ++ [last]

end InterfaceKit.Text
