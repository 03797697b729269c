import InterfaceKit.Workspace

/-!
# Programs, watchers and the log

The programs that can be started in a workspace: one that succeeds, one that fails, and a shell that
can add lines to files. Starting any other program fails, since there is none.

A watcher starts its command when a file was modified. While the command is running, or when it
could not be started, it is marked as running, and a marked watcher starts nothing.

When the log is set up, a configuration that is there cannot be read, and one that is not there
cannot be loaded; in both cases the basic log is used.
-/
namespace InterfaceKit
open Data Files

namespace Act

def appendText (p : Path) (text : String) : Act Unit := do
  let w ← get
  match w.files.locate w.folder p with
  | some l =>
    let old := (w.files.bytes? l).getD []
    set { w with files := w.files.put l (old ++ text.toUTF8.toList) }
  | none => pure ()

/-- What a shell does with a line; a program that it does not know has the code 127. -/
def shellLine (line : String) : Act Int := do
  let words := (Text.words line.toList).map String.ofList
  match words with
  | [] => return 0
  | "true" :: _ => return 0
  | "false" :: _ => return 1
  | "echo" :: rest =>
    let said := rest.takeWhile fun w => w ≠ ">>" && w ≠ ">"
    let text := String.intercalate " " said ++ "\n"
    match rest.dropWhile fun w => w ≠ ">>" && w ≠ ">" with
    | [">>", file] => appendText (.ofString file) text
    | [">", file] =>
      modify fun w =>
        match w.files.locate w.folder (.ofString file) with
        | some l => { w with files := w.files.put l text.toUTF8.toList }
        | none => w
    | _ => pure ()
    return 0
  | _ => return 127

def startProgram (args : List String) : Act Int := do
  match args with
  | [] => throw (.outOfRange "list index out of range")
  | ["sh", "-c", line] => shellLine line
  | "true" :: _ => return 0
  | "false" :: _ => return 1
  | name :: _ => throw (.fileNotFound name)

def wordsText (args : List String) : String :=
  "[" ++ String.intercalate ", " (args.map Text.quoted) ++ "]"

/-- Announces a program, starts it and reports when it fails. Gives its code if it succeeds. -/
def runProgram (args : List String) : Act (Option Int) := do
  if args.isEmpty then return none
  print .out ("$ " ++ String.intercalate " " args)
  match ← attempt (startProgram args) with
  | .ok 0 => return some 0
  | .ok code =>
    print .out ("run error Command '" ++ wordsText args ++ "' returned non-zero exit status "
      ++ toString code ++ ".")
    return none
  | .error e =>
    print .out ("not found error " ++ e.message)
    return none

def runLine (line : String) : Act (Option Int) :=
  runProgram ((Text.words line.toList).map String.ofList)

def basicLog : Act Unit := print .out "Fall back to basic logging"

/-- Sets up the log from the file that the environment names, else from the one at the path. -/
def setUpLog (path : String) (environment : Option String) : Act Unit := do
  let p := Path.ofString (environment.getD path)
  if ← fileExists p then
    print .out (Failure.missingAttribute "PosixPath" "text").message
    print .out "Error in logging configuration. Fall back to defaults."
    basicLog
  else
    basicLog
    print .out "Failed to load logging config file."

def defaultLogPath : String := "logging.yaml"

end Act

structure Watcher where
  command : List String
  running : Bool := false
  deriving DecidableEq, Repr

inductive Modification where
  | folder
  | file
  deriving DecidableEq, Repr

namespace Watcher

/-- Starts the command; `start` gives the code with which it ends. -/
def run (start : List String → Act Int) (h : Watcher) : Act (Except Failure Unit × Watcher) := do
  if h.running then return (.ok (), h)
  match ← Act.attempt (start h.command) with
  | .ok _ => return (.ok (), { h with running := false })
  | .error e => return (.error e, { h with running := true })

def notice (start : List String → Act Int) (h : Watcher) (m : Modification) :
    Act (Except Failure Unit × Watcher) :=
  match m with
  | .folder => return (.ok (), h)
  | .file => h.run start

end Watcher

/-- Watches paths. The first thing to do is to find their full names, and there is no way to do
that. -/
def Act.monitor (watched : List Value) : Act Unit := do
  match watched with
  | [] => pure ()
  | .text _ :: _ | .path _ :: _ => throw (.missingAttribute "PosixPath" "expand")
  | v :: _ =>
    throw (.wrongType ("expected str, bytes or os.PathLike object, not " ++ (← store).className v))

end InterfaceKit
