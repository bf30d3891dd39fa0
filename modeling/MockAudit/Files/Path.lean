/-!
# Paths

A path is a text whose parts are divided by slashes. Empty parts and dots in the middle do not
count as parts, but a text keeps them until they are cut off.
-/

namespace MockAudit.Path

/-- Divides a text at its slashes. -/
def segments (cs : List Char) : List (List Char) :=
  match cs with
  | [] => [[]]
  | c :: cs =>
    match segments cs with
    | part :: parts => if c = '/' then [] :: part :: parts else (c :: part) :: parts
    | [] => [[c]]

/-- The characters in front of the parts: the slash of an absolute path or a leading dot. -/
def lead : List Char → List Char
  | '/' :: _ => ['/']
  | ['.'] => ['.']
  | '.' :: '/' :: _ => ['.']
  | _ => []

/-- The parts without those at the end that do not count. -/
def trimParts (parts : List (List Char)) : List (List Char) :=
  (parts.reverse.dropWhile fun part => part = [] || part = ['.']).reverse

/-- The path without its last part, if there is one to cut off. -/
def parent? (path : String) : Option String :=
  let cs := path.toList
  let front := lead cs
  match (trimParts (segments (cs.drop front.length))).reverse with
  | _ :: others =>
    some (String.ofList (front ++ List.intercalate ['/'] (trimParts others.reverse)))
  | [] => if front = ['.'] then some "" else none

/-- A directory followed by those around it, innermost first, at most so many of them. -/
def ancestors (path : String) : Nat → List String
  | 0 => []
  | count + 1 =>
    path :: match parent? path with
      | some parent => ancestors parent count
      | none => []

/-- The path of a name in a directory. -/
def join (directory name : String) : String :=
  if name.startsWith "/" then name
  else if directory.isEmpty || directory.endsWith "/" then directory ++ name
  else directory ++ "/" ++ name

/-- Whether a name has the extension of TOML documents. -/
def isTomlName (name : String) : Bool :=
  name.endsWith ".toml" && name != ".toml"

end MockAudit.Path
