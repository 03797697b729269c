import InterfaceKit.Text.Case

/-!
# Commands and their help

A command has options, which are named, and arguments, which are told by their position. Every
command has the option that shows its help.
-/
namespace InterfaceKit.CommandLine

/-- What an option or an argument stands for. -/
inductive Kind where
  | flag
  | text
  /-- A path of the files; it may have to exist, and it may have to be no plain file. -/
  | path (mustExist fileAllowed : Bool)
  deriving DecidableEq, Repr

structure Choice where
  /-- The name under which the value is found. -/
  key : String
  names : List String
  /-- The names that switch a flag off. -/
  opposites : List String := []
  kind : Kind := .text
  several : Bool := false
  required : Bool := false
  help : String := ""
  deriving DecidableEq, Repr

structure Argument where
  key : String
  kind : Kind := .text
  several : Bool := false
  deriving DecidableEq, Repr

def helpChoice : Choice :=
  { key := "help", names := ["--help"], kind := .flag, help := "Show this message and exit." }

structure Command where
  name : String
  about : String := ""
  options : List Choice := []
  arguments : List Argument := []
  deriving Repr

def Command.choices (c : Command) : List Choice := c.options ++ [helpChoice]

structure Group where
  name : String
  commands : List Command
  deriving Repr

/-! ## Help -/

def upperCase (s : String) : String := String.ofList (Text.upper s.toList)

def Kind.word : Kind → String
  | flag => ""
  | text => "TEXT"
  | path _ fileAllowed => if fileAllowed then "PATH" else "DIRECTORY"

def Argument.word (a : Argument) : String :=
  if a.several then "[" ++ upperCase a.key ++ "]..." else upperCase a.key

def isShort (name : String) : Bool := name.length = 2

/-- The names of an option as help shows them, short ones first. -/
def namesText (names : List String) : String :=
  String.intercalate ", " (names.filter isShort ++ names.filter fun n => !isShort n)

/-- What help says of an option: its names, and what it does. -/
def Choice.row (o : Choice) : String × String :=
  let names :=
    namesText o.names ++ (if o.opposites.isEmpty then "" else " / " ++ namesText o.opposites)
  let word := if o.kind = .flag then "" else " " ++ o.kind.word
  let required := if o.required then (if o.help = "" then "[required]" else "  [required]") else ""
  (names ++ word, o.help ++ required)

def lineWidth : Nat := 78

def blanks (n : Nat) : String := String.ofList (List.replicate n ' ')

/-- Two columns; a first column that is too wide has a line of its own. -/
def table (rows : List (String × String)) : List String :=
  let widest := rows.foldl (fun n r => max n r.1.length) 0
  let column := min widest 30 + 2
  rows.flatMap fun (first, second) =>
    match Text.wrap (max (lineWidth - column - 2) 10) second with
    | [] => [blanks 2 ++ first]
    | line :: more =>
      let rest := more.map (blanks (column + 2) ++ ·)
      if first.length + 2 ≤ column then
        (blanks 2 ++ first ++ blanks (column - first.length) ++ line) :: rest
      else [blanks 2 ++ first, blanks (column + 2) ++ line] ++ rest

/-- A line that says how a command is used; `path` is the row of names that leads to it. -/
def Command.usage (c : Command) (path : String) : String :=
  String.intercalate " " (["Usage:", path, "[OPTIONS]"] ++ c.arguments.map Argument.word)

def aboutLines (about : String) : List String :=
  if about = "" then [] else "" :: (Text.wrap (lineWidth - 2) about).map (blanks 2 ++ ·)

def Command.helpLines (c : Command) (path : String) : List String :=
  [c.usage path] ++ aboutLines c.about ++ ["", "Options:"] ++ table (c.choices.map Choice.row)

def Group.usage (g : Group) : String := "Usage: " ++ g.name ++ " [OPTIONS] COMMAND [ARGS]..."

def Group.helpLines (g : Group) : List String :=
  let rows := g.commands.map fun c => (c.name, c.about)
  [g.usage, "", "Options:"] ++ table [helpChoice.row]
    ++ ["", "Commands:"] ++ table (rows.mergeSort fun a b => decide (a.1 ≤ b.1))

end InterfaceKit.CommandLine
