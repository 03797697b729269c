import InterfaceKit.CommandLine.Command
import InterfaceKit.Text.Printable
import InterfaceKit.Text.Similar
import InterfaceKit.Text.Word

/-!
# Reading command lines

Options may stand between arguments; two dashes end the options. What a command line asks for is
looked at in the order in which it was given, and the first thing that is wrong is reported.
-/
namespace InterfaceKit.CommandLine

inductive Fault where
  | unknownOption (name : String) (similar : List String)
  | lacksValue (name : String)
  | takesNoValue (name : String)
  | missingOption (names : List String)
  | missingArgument (word : String)
  | invalid (subject reason : String)
  | unexpected (args : List String)
  | unknownCommand (name : String)
  | missingCommand
  deriving DecidableEq, Repr

def singleQuoted (s : String) : String := "'" ++ s ++ "'"

def namesHint (names : List String) : String :=
  String.intercalate " / " (names.map singleQuoted)

def Fault.message : Fault → String
  | unknownOption name [] => "No such option: " ++ name
  | unknownOption name [similar] => "No such option: " ++ name ++ " Did you mean " ++ similar ++ "?"
  | unknownOption name similar =>
    "No such option: " ++ name ++ " (Possible options: " ++ String.intercalate ", " similar ++ ")"
  | lacksValue name => "Option " ++ Text.quoted name ++ " requires an argument."
  | takesNoValue name => "Option " ++ Text.quoted name ++ " does not take a value."
  | missingOption names => "Missing option " ++ namesHint names ++ "."
  | missingArgument word => "Missing argument " ++ singleQuoted word ++ "."
  | invalid subject reason => "Invalid value for " ++ subject ++ ": " ++ reason
  | unexpected args =>
    (if args.length = 1 then "Got unexpected extra argument ("
      else "Got unexpected extra arguments (")
      ++ String.intercalate " " args ++ ")"
  | unknownCommand name => "No such command " ++ Text.quoted name ++ "."
  | missingCommand => "Missing command."

/-- Faults of how an option is written are reported without the usage. -/
def Fault.withUsage : Fault → Bool
  | lacksValue _ | takesNoValue _ => false
  | _ => true

/-- What a path leads to. -/
inductive Found where
  | nothing
  | file
  | folder
  deriving DecidableEq, Repr

inductive Setting where
  | switched (on : Bool)
  | text (s : String)
  deriving DecidableEq, Repr

/-- Options in the order in which they were given, and what is left for the arguments. -/
structure Scan where
  given : List (Choice × Setting) := []
  loose : List String := []
  deriving Repr

/-- The option of a name, and whether the name switches it on. -/
def choice? (choices : List Choice) (name : String) : Option (Choice × Bool) :=
  choices.findSome? fun o =>
    if o.names.contains name then some (o, true)
    else if o.opposites.contains name then some (o, false)
    else none

/-- Single letters behind a dash: flags, of which the last may be an option with a value, which is
the rest or the next word. Tells whether the next word was used. -/
def scanLetters (choices : List Choice) (next : Option String) :
    List Char → Except Fault (List (Choice × Setting) × Bool)
  | [] => .ok ([], false)
  | c :: cs =>
    let name := String.ofList ['-', c]
    match choice? choices name with
    | none => .error (.unknownOption name [])
    | some (o, on) =>
      if o.kind = .flag then do
        let (more, used) ← scanLetters choices next cs
        .ok ((o, .switched on) :: more, used)
      else if cs ≠ [] then .ok ([(o, .text (String.ofList cs))], false)
      else
        match next with
        | some value => .ok ([(o, .text value)], true)
        | none => .error (.lacksValue name)

def splitValue (word : String) : String × Option String :=
  let cs := word.toList
  let name := cs.takeWhile (· ≠ '=')
  match cs.dropWhile (· ≠ '=') with
  | _ :: value => (String.ofList name, some (String.ofList value))
  | [] => (word, none)

def longNames (choices : List Choice) : List String :=
  (choices.flatMap fun o => o.names ++ o.opposites).filter fun n => !isShort n

def scanOption (choices : List Choice) (word : String) (next : Option String) :
    Except Fault (List (Choice × Setting) × Bool) :=
  let (name, value) := splitValue word
  match if isShort name then none else choice? choices name with
  | some (o, on) =>
    if o.kind = .flag then
      match value with
      | some _ => .error (.takesNoValue name)
      | none => .ok ([(o, .switched on)], false)
    else
      match value, next with
      | some v, _ => .ok ([(o, .text v)], false)
      | none, some v => .ok ([(o, .text v)], true)
      | none, none => .error (.lacksValue name)
  | none =>
    if word.startsWith "--" then
      .error (.unknownOption name (Text.similarWords name (longNames choices)))
    else scanLetters choices next (word.toList.drop 1)

def isOption (word : String) : Bool := word.startsWith "-" && word.length > 1

/-- Reads words; without `mixed` the first argument ends the options. -/
def scan (choices : List Choice) (mixed : Bool) : List String → Except Fault Scan
  | [] => .ok {}
  | word :: rest =>
    if word = "--" then .ok { loose := rest }
    else if isOption word then
      match scanOption choices word rest.head? with
      | .error f => .error f
      | .ok (given, used) => do
        let s ← scan choices mixed (if used then rest.drop 1 else rest)
        .ok { s with given := given ++ s.given }
    else if mixed then do
      let s ← scan choices mixed rest
      .ok { s with loose := word :: s.loose }
    else .ok { loose := word :: rest }
termination_by words => words.length
decreasing_by
  · split <;> simp only [List.length_drop, List.length_cons] <;> omega
  · simp only [List.length_cons]; omega

/-! ## Values -/

/-- The values of options and arguments that were accepted. -/
structure Values where
  options : List (String × List Setting) := []
  arguments : List (String × List String) := []
  deriving Repr, Inhabited

namespace Values

def settings (v : Values) (key : String) : List Setting := (v.options.lookup key).getD []

def texts (v : Values) (key : String) : List String := (v.settings key).filterMap fun
  | .text s => some s
  | .switched _ => none

/-- The last value counts. -/
def text? (v : Values) (key : String) : Option String := (v.texts key).getLast?

def flag (v : Values) (key : String) (default : Bool) : Bool :=
  match (v.settings key).getLast? with
  | some (.switched on) => on
  | _ => default

def argument (v : Values) (key : String) : List String := (v.arguments.lookup key).getD []

end Values

def checkValue (look : String → Found) (subject : String) (kind : Kind) (value : String) :
    Except Fault Unit :=
  match kind with
  | .path mustExist fileAllowed =>
    let word := if fileAllowed then "Path" else "Directory"
    match look value with
    | .nothing =>
      if mustExist then
        .error (.invalid subject (word ++ " " ++ Text.quoted value ++ " does not exist."))
      else .ok ()
    | .file =>
      if fileAllowed then .ok ()
      else .error (.invalid subject (word ++ " " ++ Text.quoted value ++ " is a file."))
    | .folder => .ok ()
  | _ => .ok ()

def settingText : Setting → Option String
  | .text s => some s
  | .switched _ => none

/-- Checks what an option was given; of an option that is no list only the last value counts. -/
def checkChoice (look : String → Found) (o : Choice) (settings : List Setting) : Except Fault Unit :=
  let counting := if o.several then settings else settings.getLast?.toList
  if o.required && counting.isEmpty then .error (.missingOption o.names)
  else (counting.filterMap settingText).forM (checkValue look (namesHint o.names) o.kind)

/-- Assigns words to arguments; one that takes several takes what the others leave. Gives what is
left over. -/
def assignWords (arguments : List Argument) (words : List String) :
    List (Argument × List String) × List String :=
  match arguments with
  | [] => ([], words)
  | a :: rest =>
    if a.several then
      let own := words.take (words.length - rest.length)
      let (more, left) := assignWords rest (words.drop (words.length - rest.length))
      ((a, own) :: more, left)
    else
      let (more, left) := assignWords rest (words.drop 1)
      ((a, words.take 1) :: more, left)

def checkArgument (look : String → Found) (a : Argument) (words : List String) : Except Fault Unit :=
  if !a.several && words.isEmpty then .error (.missingArgument a.word)
  else words.forM (checkValue look (singleQuoted a.word) a.kind)

inductive Request where
  | help
  | fault (f : Fault)
  | values (v : Values)
  deriving Repr

def Command.read (look : String → Found) (c : Command) (words : List String) : Request :=
  match scan c.choices true words with
  | .error f => .fault f
  | .ok s =>
    if s.given.any fun g => g.1.key = helpChoice.key then .help
    else
      let settings (o : Choice) := (s.given.filter fun g => g.1.key = o.key).map (·.2)
      let given := (s.given.map (·.1)).eraseDups
      let others := c.options.filter fun o => !given.contains o
      let (assigned, left) := assignWords c.arguments s.loose
      let checked : Except Fault Unit := do
        given.forM fun o => checkChoice look o (settings o)
        assigned.forM fun (a, ws) => checkArgument look a ws
        others.forM fun o => checkChoice look o []
        if left.isEmpty then .ok () else .error (.unexpected left)
      match checked with
      | .error f => .fault f
      | .ok () => .values
          { options := c.options.map fun o => (o.key, settings o)
            arguments := assigned.map fun (a, ws) => (a.key, ws) }

inductive GroupRequest where
  | help
  | fault (f : Fault)
  | command (c : Command) (words : List String)
  deriving Repr

def looksLikeOption (name : String) : Bool :=
  match name.toList with
  | [] => false
  | c :: _ => !Text.isWord c || c = '_'

/-- Reads the words behind a group: its own options, then a command. -/
def Group.read (g : Group) (words : List String) : GroupRequest :=
  if words.isEmpty then .help
  else
    match scan [helpChoice] false words with
    | .error f => .fault f
    | .ok s =>
      if !s.given.isEmpty then .help
      else
        match s.loose with
        | [] => .fault .missingCommand
        | name :: rest =>
          match g.commands.find? (·.name = name) with
          | some c => .command c rest
          | none =>
            if looksLikeOption name then
              if rest.isEmpty then .help
              else
                match scan [helpChoice] false rest with
                | .error f => .fault f
                | .ok s => if s.given.isEmpty then .fault (.unknownCommand name) else .help
            else .fault (.unknownCommand name)

def Fault.lines (f : Fault) (usage path : String) : List String :=
  (if f.withUsage then [usage, "Try '" ++ path ++ " --help' for help.", ""] else [])
    ++ ["Error: " ++ f.message]

end InterfaceKit.CommandLine
