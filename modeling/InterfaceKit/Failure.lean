import InterfaceKit.Text.Printable

/-!
# Failures and the log

Why an operation could not be carried out, and how that is said; and everything that is printed,
line by line, with the stream it goes to.
-/
namespace InterfaceKit

/-- Where a template met an undefined value: at a line of a template, or while the engine followed a
name. -/
inductive Origin where
  | line (file : String) (number : Nat)
  | engine
  deriving DecidableEq, Repr

inductive Failure where
  | unknownName (name : String)
  | unknownKind (detail : String)
  | rejectedText (message : String)
  | invalidValue (message : String)
  /-- `text` is there when the key is a text, `shown` is the key as it is displayed. -/
  | missingKey (text : Option String) (shown : String)
  | missingAttribute (className name : String)
  | wrongType (message : String)
  | outOfRange (message : String)
  | exhausted
  /-- The elements of an empty row were asked for while a template was written out. -/
  | interrupted
  | badEscape
  | undecodable
  | unencodable
  | undefined (message : String) (origin : Origin)
  | templateNotFound (name : String)
  | templateFault (message file : String) (line : Nat)
  | exit (code : Int)
  | assertion
  | fileNotFound (path : String)
  | isDirectory (path : String)
  | notDirectory (path : String)
  | fileExists (path : String)
  | tooDeep
  /-- A mapping got new keys while its keys were gone through. -/
  | resized
  deriving DecidableEq, Repr

namespace Failure

def message : Failure → String
  | unknownName name => "not able to lookup symbol: " ++ name
  | unknownKind detail => "Unknown symbol type" ++ detail
  | rejectedText m => m
  | invalidValue m => m
  | missingKey _ shown => shown
  | missingAttribute className name =>
    "'" ++ className ++ "' object has no attribute '" ++ name ++ "'"
  | wrongType m => m
  | outOfRange m => m
  | exhausted => ""
  | interrupted => "generator raised StopIteration"
  | badEscape => "truncated escape"
  | undecodable => "invalid start byte"
  | unencodable => "surrogates not allowed"
  | undefined m _ => m
  | templateNotFound name => name
  | templateFault m _ _ => m
  | exit code => toString code
  | assertion => ""
  | fileNotFound path => "[Errno 2] No such file or directory: " ++ Text.quoted path
  | isDirectory path => "[Errno 21] Is a directory: " ++ Text.quoted path
  | notDirectory path => "[Errno 20] Not a directory: " ++ Text.quoted path
  | fileExists path => "[Errno 17] File exists: " ++ Text.quoted path
  | tooDeep => "maximum recursion depth exceeded"
  | resized => "dictionary changed size during iteration"

end Failure

inductive Stream where
  | out
  | err
  | warning
  deriving DecidableEq, Repr

abbrev Log := List (Stream × String)

/-- A printed text: one entry for each of its lines. -/
def Log.line (s : Stream) (text : String) : Log := (text.splitOn "\n").map fun l => (s, l)

end InterfaceKit
