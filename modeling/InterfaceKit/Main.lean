import InterfaceKit.Commands

/-!
# The command line

The files around the paths of the command line are read into a workspace, the program runs there,
and what it changed is written back.
-/
namespace InterfaceKit
open Files

/-- Reads a file or all that is below a folder. -/
partial def readEntry (e : IO.FS.DirEntry) (t : Tree) : IO Tree := do
  let l := e.path.components.filter (· ≠ "")
  if ← e.path.isDir then
    let mut t := { t with folders := t.folders ++ [l] }
    for e in ← e.path.readDir do t ← readEntry e t
    return t
  return t.put l (← IO.FS.readBinFile e.path).toList

def knowFolder (t : Tree) (l : Location) : Tree := ((t.makeFolder l).toOption).getD t

/-- The folder that a word of the command line names, or in which the file is that it names. -/
def folderAround (word : String) : IO (Option String) := do
  let named := ((CommandLine.splitValue word).2).getD word
  try
    let p ← IO.FS.realPath named
    let folder := if ← p.isDir then p else p.parent.getD p
    return some folder.toString
  catch _ => return none

def readFolder (t : Tree) (folder : String) : IO Tree := do
  let p ← IO.FS.realPath folder
  let mut t := knowFolder t (p.components.filter (· ≠ ""))
  for e in ← p.readDir do t ← readEntry e t
  return t

def writeBack (before after : Tree) : IO Unit := do
  for (l, bytes) in after.files do
    if before.bytes? l ≠ some bytes then
      IO.FS.createDirAll ("/" ++ String.intercalate "/" l.dropLast)
      IO.FS.writeBinFile ("/" ++ String.intercalate "/" l) (ByteArray.mk bytes.toArray)

def printLog (log : Log) : IO Unit := do
  for (stream, line) in log do
    match stream with
    | .out => IO.println line
    | .err | .warning => IO.eprintln line

end InterfaceKit

open InterfaceKit in
def main (words : List String) : IO UInt32 := do
  let folder := Files.Path.ofString (← IO.currentDir).toString
  let folders := (← words.filterMapM fun word => folderAround word).eraseDups
  let files ← folders.foldlM readFolder {}
  let files := knowFolder files folder.names
  let program : Act Int := do
    Act.shareBindings
    Act.generateProgram words
  let (result, w) := program.run { files, folder }
  printLog w.log
  writeBack files w.files
  match result with
  | .ok code => return (code % 256).toNat.toUInt32
  | .error e =>
    IO.eprintln e.message
    return 1
