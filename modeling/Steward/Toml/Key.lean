import Steward.Toml.Quoted

/-!
# Keys of settings files

A key is one or more segments with dots between them, each a bare word or quoted text.
-/

namespace Steward.Toml

/-- Read one segment of a key: a bare word or text in single quotes of either kind. -/
def readSegment (cs : List Char) : Option (String × List Char) :=
  match cs with
  | '"' :: rest => (readBasic rest).map fun (text, left) => (String.ofList text, left)
  | '\'' :: rest => (readLiteral rest).map fun (text, left) => (String.ofList text, left)
  | _ =>
    match cs.takeWhile isBare with
    | [] => none
    | word => some (String.ofList word, cs.dropWhile isBare)

/-- Read the segments of a key, with blanks around them and dots between them. -/
def readSegments : Nat → List Char → Option (List String × List Char)
  | 0, _ => none
  | fuel + 1, cs => do
    let (segment, after) ← readSegment (skipBlanks cs)
    match skipBlanks after with
    | '.' :: rest =>
      let (segments, left) ← readSegments fuel rest
      some (segment :: segments, left)
    | rest => some ([segment], rest)

/-- How deep values may nest, and from how many segments on a key is refused. -/
def depthLimit : Nat := 80

/-- Read a key. -/
def readKey (cs : List Char) : Option (List String × List Char) := do
  let (segments, rest) ← readSegments cs.length cs
  if segments.length < depthLimit then some (segments, rest) else none

end Steward.Toml
