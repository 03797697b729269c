import InterfaceKit.CommandLine.Reading
import InterfaceKit.Generator.Project
import InterfaceKit.Shell

/-!
# Commands

A command line is either answered with help, refused with a report, or carried out. The exit code
tells which: nothing went wrong, or 2 for a command line that was refused.

There are three programs: the generator, which follows a rule document; the generator that takes the
rules as a configuration, whose folder it cannot find, so that nothing is generated; and a group of
commands for developers around the program itself, which announce what they start.
-/
namespace InterfaceKit
open CommandLine Data Files

namespace Act

def lookAround : Act (String → Found) := do
  let w ← get
  return fun s =>
    if s = "" then .nothing
    else
      match w.files.locate w.folder (.ofString s) with
      | some l =>
        if w.files.isFile l then .file else if w.files.isFolder l then .folder else .nothing
      | none => .nothing

def answerHelp (lines : List String) : Act Int := do
  lines.forM (print .out)
  return 0

def refuse (f : Fault) (usage path : String) : Act Int := do
  (f.lines usage path).forM (print .err)
  return 2

def runCommand (c : Command) (path : String) (words : List String) (carryOut : Values → Act Unit) :
    Act Int := do
  match c.read (← lookAround) words with
  | .help => answerHelp (c.helpLines path)
  | .fault f => refuse f (c.usage path) path
  | .values v =>
    carryOut v
    return 0

/-- The exit code of a program: a request to end it gives its code. Other failures are passed on. -/
def exitCode (x : Act Int) : Act Int := do
  match ← attempt x with
  | .ok code => return code
  | .error (.exit code) => return code
  | .error e => throw e

end Act

/-! ## The generator -/

def generateCommand : Command :=
  { name := "qface"
    options := [
      { key := "rules", names := ["--rules"], kind := .path true true, required := true },
      { key := "target", names := ["--target"], kind := .path false false },
      { key := "reload", names := ["--reload"], opposites := ["--no-reload"], kind := .flag,
        help := "Auto reload script on changes" },
      { key := "scaffold", names := ["--scaffold"], opposites := ["--no-scaffold"], kind := .flag,
        help := "Add extrac scaffolding code" },
      { key := "watch", names := ["--watch"], kind := .path false false },
      { key := "feature", names := ["--feature"], several := true },
      { key := "run", names := ["--run"], help := "run script after generation" },
      { key := "force", names := ["--force"], opposites := ["--no-force"], kind := .flag,
        help := "forces overwriting of files" }]
    arguments := [{ key := "source", kind := .path true true, several := true }] }

namespace Act

def carryOutGenerate (v : Values) : Act Unit := do
  let rules := Path.ofString ((v.text? "rules").getD "")
  let sources := v.argument "source"
  if v.flag "reload" false then
    monitor
      (sources.map Value.text ++ [.path rules.parent] ++ (v.text? "watch").toList.map Value.text)
  else
    let features := v.texts "feature" ++ (if v.flag "scaffold" false then ["scaffold"] else [])
    let destination := match v.text? "target" with
      | some s => Value.text s
      | none => .null
    generate rules sources destination (features.map Value.text) (v.flag "force" false)
    match v.text? "run" with
    | some line =>
      let _ ← runLine line
      pure ()
    | none => pure ()

def generateProgram (words : List String) : Act Int :=
  exitCode (runCommand generateCommand generateCommand.name words carryOutGenerate)

end Act

/-! ## The generator with a configuration -/

def configuredCommand : Command :=
  { name := "cli"
    about :=
      "Takes several files or directories as src and generates the code in the given dst directory."
    options := [
      { key := "config", names := ["--config", "-c"], kind := .path true true },
      { key := "reload", names := ["--reload"], opposites := ["--no-reload"], kind := .flag },
      { key := "features", names := ["--features", "-f"], several := true },
      { key := "force", names := ["--force"], opposites := ["--no-force"], kind := .flag,
        help := "Force writing of target files, ignores preserve" }]
    arguments := [
      { key := "src", kind := .path true true, several := true },
      { key := "dst", kind := .path false false }] }

namespace Act

/-- Reads the sources and fails at the folder of the configuration. -/
def carryOutConfigured (v : Values) : Act Unit := do
  match v.text? "config" with
  | none => throw (.wrongType "expected str, bytes or os.PathLike object, not NoneType")
  | some _ =>
    if !v.flag "reload" false then
      let _ ← readAll (v.argument "src") "*.qface" {}
    throw (.missingAttribute "PosixPath" "dirname")

def configuredProgram (words : List String) : Act Int :=
  exitCode (runCommand configuredCommand configuredCommand.name words carryOutConfigured)

end Act

/-! ## Commands for developers -/

def developGroup : Group :=
  { name := "dev"
    commands := [
      { name := "antlr", about := "generate a new parser based on the grammar using antlr" },
      { name := "test", about := "run the tests"
        options := [
          { key := "debug", names := ["--debug"], opposites := ["--nodebug"], kind := .flag }] },
      { name := "test-ci", about := "run the tests for CI integration" },
      { name := "install", about := "install the script onto the system using pip3"
        options := [
          { key := "editable", names := ["--editable"], opposites := ["--no-editable"], kind := .flag
            help := "install editable package" }] },
      { name := "uninstall", about := "uninstall the script from the system using pip3" },
      { name := "upload" },
      { name := "pack" },
      { name := "clean" }] }

namespace Act

def announce (line : String) : Act Unit := do
  print .out ("$ " ++ line)
  let _ ← shellLine line
  pure ()

def requireFolder (p : Path) : Act Unit := do
  if ← isFolder p then return
  if ← fileExists p then throw (.notDirectory p.toString)
  throw (.fileNotFound p.toString)

/-- Removing a folder with all that it holds is not possible. -/
def removeFolder : Act Unit := throw (.missingAttribute "PosixPath" "rmtree_p")

def carryOutDevelop (name : String) (v : Values) : Act Unit := do
  match name with
  | "antlr" =>
    let line :=
      "antlr4 -Dlanguage=Python3 -Werror -package qface.idl.parser -o . -listener -visitor T.g4"
    print .out ("$ " ++ line)
    requireFolder ((← get).folder.child "qface/idl/parser")
  | "test" =>
    announce ("python3 -m pytest -v -s -l " ++ (if v.flag "debug" false then "-pdb" else ""))
  | "test-ci" => announce "python3 -m pytest --cov=qface -v -l tests/"
  | "install" =>
    let folder := (← get).folder.toString
    print .out folder
    announce (if v.flag "editable" false then "pip3 install --editable " ++ folder ++ " --upgrade"
      else "pip3 install " ++ folder ++ " --upgrade")
  | "uninstall" => announce "pip3 uninstall qface"
  | "upload" =>
    announce "twine upload dist/*"
    removeFolder
  | _ => removeFolder

def developProgram (words : List String) : Act Int := exitCode do
  let path := developGroup.name
  match developGroup.read words with
  | .help => answerHelp developGroup.helpLines
  | .fault f => refuse f developGroup.usage path
  | .command c rest => runCommand c (path ++ " " ++ c.name) rest (carryOutDevelop c.name)

end Act

end InterfaceKit
