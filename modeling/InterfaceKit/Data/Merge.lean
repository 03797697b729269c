import InterfaceKit.Data.Access

/-!
# Merging

Lays one mapping over another in place: where both have a mapping under a key these are merged in
turn, otherwise the second one's value replaces what the first one had.
-/
namespace InterfaceKit.Data

/-- The outcome of an operation on the store: what was changed before a failure stays changed. -/
abbrev Changed (α : Type) := Except Failure α × Store

namespace Store

/-- Sets a key of `a` to what `b` has under it. -/
def copyItem (s : Store) (a b key : Value) : Changed Unit :=
  match s.getItem b key with
  | .error e => (.error e, s)
  | .ok x =>
    match s.setItem a key x with
    | .error e => (.error e, s)
    | .ok s => (.ok (), s)

/-- Merges what `b` has under a key into `a`. Two mappings are merged by `mergeInto`. -/
def mergeKey (mergeInto : Store → Value → Value → Changed Unit) (s : Store) (a b key : Value) :
    Changed Unit :=
  match s.lookUp a key with
  | .error e => (.error e, s)
  | .ok mine =>
    if s.isMapping mine then
      match s.lookUp b key with
      | .error e => (.error e, s)
      | .ok theirs => if s.isMapping theirs then mergeInto s mine theirs else s.copyItem a b key
    else s.copyItem a b key

/-- Merges what `b` has under the keys, one after the other. A mapping `b` must not get new keys
meanwhile. -/
def mergeKeys (mergeInto : Store → Value → Value → Changed Unit) (a b : Value) (size : Nat) :
    Store → List Value → Changed Unit
  | s, [] => (.ok (), s)
  | s, key :: keys =>
    match mergeKey mergeInto s a b key with
    | (.error e, s) => (.error e, s)
    | (.ok (), s) =>
      match s.requireSize b size with
      | .error e => (.error e, s)
      | .ok () => mergeKeys mergeInto a b size s keys

/-- Merges `b` into `a`, through at most `limit` levels of mappings. -/
def mergeUpTo : Nat → Store → Value → Value → Changed Unit
  | 0, s, _, _ => (.error .tooDeep, s)
  | limit + 1, s, a, b =>
    match s.elements b with
    | .error e => (.error e, s)
    | .ok keys => mergeKeys (mergeUpTo limit) a b keys.length s keys

/-- How many levels of mappings are merged at most. An interpreter that limits the depth of its
calls leaves fewer to a merge the deeper the merge itself is called. -/
def mergeLimit : Nat := 1000

def merge (s : Store) (a b : Value) : Changed Unit := mergeUpTo mergeLimit s a b

end Store

end InterfaceKit.Data
