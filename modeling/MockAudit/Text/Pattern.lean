/-!
# Patterns of texts

Regular patterns with anchors. A pattern is found in a text if it matches some part of it.
-/

namespace MockAudit.Text

/-- A pattern. -/
inductive Pattern
  | empty
  /-- One character that passes a test. -/
  | one (test : Char → Bool)
  /-- The start of the text, or with `multiline` of one of its lines. -/
  | start (multiline : Bool)
  /-- The end of the text, or with `multiline` of one of its lines. -/
  | finish (multiline : Bool)
  /-- A place between a word character and something else, or with `negated` any other place. -/
  | boundary (negated : Bool)
  | seq (first second : Pattern)
  | either (left right : Pattern)
  /-- At least so many repetitions, and at most so many if there is a bound. -/
  | repeated (body : Pattern) (least : Nat) (most : Option Nat)

namespace Pattern

/-- A place in a text: the characters before it in reverse, and those after it. -/
structure Place where
  before : List Char
  after : List Char
deriving DecidableEq

/-- Letters, digits and the underscore of ASCII. -/
def isWordChar (c : Char) : Bool :=
  c.isAlphanum || c == '_'

/-- Whether a place lies at the edge of a word. -/
def Place.atBoundary (p : Place) : Bool :=
  (p.before.head?.any isWordChar) != (p.after.head?.any isWordChar)

/-- Repeats a step exactly so many times from each of several places. -/
def exactly (step : Place → List Place) : Nat → List Place → List Place
  | 0, places => places
  | count + 1, places => exactly step count (places.flatMap step).eraseDups

/-- Repeats a step at most so many times from each of several places. -/
def upTo (step : Place → List Place) : Nat → List Place → List Place
  | 0, places => places
  | count + 1, places => (places ++ upTo step count (places.flatMap step).eraseDups).eraseDups

/-- The places where a match that begins at the given place may end. -/
def ends : Pattern → Place → List Place
  | empty, p => [p]
  | one test, p =>
    match p.after with
    | c :: rest => if test c then [⟨c :: p.before, rest⟩] else []
    | [] => []
  | start multiline, p =>
    if p.before.isEmpty || (multiline && p.before.head? == some '\n') then [p] else []
  | finish multiline, p =>
    if p.after.isEmpty || (multiline && p.after.head? == some '\n') then [p] else []
  | boundary negated, p => if p.atBoundary != negated then [p] else []
  | seq first second, p => (first.ends p).flatMap second.ends
  | either left right, p => left.ends p ++ right.ends p
  | repeated body least most, p =>
    let begun := exactly body.ends least [p]
    match most with
    | some most => upTo body.ends (most - least) begun
    | none => upTo body.ends p.after.length begun

/-- Whether a match begins at a place or after it. -/
def foundFrom (pattern : Pattern) (before : List Char) : List Char → Bool
  | [] => !(pattern.ends ⟨before, []⟩).isEmpty
  | c :: rest =>
    !(pattern.ends ⟨before, c :: rest⟩).isEmpty || pattern.foundFrom (c :: before) rest

/-- Whether a pattern is found in a text. -/
def isFoundIn (pattern : Pattern) (text : String) : Bool :=
  pattern.foundFrom [] text.toList

end Pattern

end MockAudit.Text
