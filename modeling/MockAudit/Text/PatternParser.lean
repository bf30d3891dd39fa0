import MockAudit.Json.Reader
import MockAudit.Text.Blank
import MockAudit.Text.Pattern

/-!
# Reading patterns

The usual notation: alternatives, repetitions, groups, sets of characters, anchors and flags. Case
is ignored for the letters of ASCII only. There is no notation for looking around.
-/

namespace MockAudit.Text.Pattern

/-- The first of each run of ten decimal digits in the Unicode class of decimal numbers. -/
def digitRuns : List Nat := [
  0x30, 0x660, 0x6f0, 0x7c0, 0x966, 0x9e6, 0xa66, 0xae6, 0xb66, 0xbe6, 0xc66, 0xce6, 0xd66, 0xde6,
  0xe50, 0xed0, 0xf20, 0x1040, 0x1090, 0x17e0, 0x1810, 0x1946, 0x19d0, 0x1a80, 0x1a90, 0x1b50,
  0x1bb0, 0x1c40, 0x1c50, 0xa620, 0xa8d0, 0xa900, 0xa9d0, 0xa9f0, 0xaa50, 0xabf0, 0xff10, 0x104a0,
  0x10d30, 0x10d40, 0x11066, 0x110f0, 0x11136, 0x111d0, 0x112f0, 0x11450, 0x114d0, 0x11650,
  0x116c0, 0x116d0, 0x116da, 0x11730, 0x118e0, 0x11950, 0x11bf0, 0x11c50, 0x11d50, 0x11da0,
  0x11f50, 0x16130, 0x16a60, 0x16ac0, 0x16b50, 0x16d70, 0x1ccf0, 0x1d7ce, 0x1d7d8, 0x1d7e2,
  0x1d7ec, 0x1d7f6, 0x1e140, 0x1e2f0, 0x1e4f0, 0x1e5f1, 0x1e950, 0x1fbf0]

/-- Whether a character is a decimal digit of some script. -/
def isDecimal (c : Char) : Bool :=
  digitRuns.any fun first => first ≤ c.toNat && c.toNat < first + 10

/-- The flags in force at a place of the notation. -/
structure Flags where
  ignoreCase : Bool := false
  multiline : Bool := false
  dotAll : Bool := false

/-- The test for a character, or for either case of it. -/
def testFor (flags : Flags) (test : Char → Bool) : Char → Bool :=
  if flags.ignoreCase then fun c => test c || test c.toLower || test c.toUpper else test

/-- The characters a letter after a backslash stands for. -/
def classOf? : Char → Option (Char → Bool)
  | 'd' => some isDecimal
  | 'D' => some (!isDecimal ·)
  | 's' => some isBlank
  | 'S' => some (!isBlank ·)
  | 'w' => some fun c => isWordChar c || isDecimal c
  | 'W' => some fun c => !(isWordChar c || isDecimal c)
  | _ => none

/-- A character given by its code point: two digits, or any number of them in braces. -/
def takeCode (count : Nat) : List Char → Option (Char × List Char)
  | '\x7b' :: rest =>
    let digits := rest.takeWhile (· != '\x7d')
    match rest.drop digits.length, digits.mapM Json.hexValue? with
    | _ :: rest, some (d :: ds) =>
      let n := (d :: ds).foldl (fun n d => 16 * n + d) 0
      if Nat.isValidChar n then some (Char.ofNat n, rest) else none
    | _, _ => none
  | rest =>
    match (rest.take count).mapM Json.hexValue? with
    | some ds =>
      let n := ds.foldl (fun n d => 16 * n + d) 0
      if ds.length = count ∧ Nat.isValidChar n then some (Char.ofNat n, rest.drop count) else none
    | none => none

/-- The single character a backslash introduces. -/
def takeEscaped : List Char → Option (Char × List Char)
  | 'n' :: rest => some ('\n', rest)
  | 't' :: rest => some ('\t', rest)
  | 'r' :: rest => some ('\r', rest)
  | 'f' :: rest => some ('\x0c', rest)
  | 'v' :: rest => some ('\x0b', rest)
  | 'a' :: rest => some ('\x07', rest)
  | 'x' :: rest => takeCode 2 rest
  | 'u' :: rest => takeCode 4 rest
  | 'U' :: rest => takeCode 8 rest
  | c :: rest =>
    if c.toNat < 0x80 ∧ !c.isAlphanum ∧ c ≠ '<' ∧ c ≠ '>' then some (c, rest) else none
  | [] => none

/-- A member of a set of characters that may begin a range. -/
def takeMember : List Char → Option (Char × List Char)
  | '\\' :: rest => takeEscaped rest
  | c :: rest => some (c, rest)
  | [] => none

/-- The named sets of ASCII characters. -/
def namedSet? (name : String) : Option (Char → Bool) :=
  match name with
  | "alpha" => some Char.isAlpha
  | "digit" => some Char.isDigit
  | "alnum" => some Char.isAlphanum
  | "upper" => some Char.isUpper
  | "lower" => some Char.isLower
  | "space" => some fun c => c == ' ' || (9 ≤ c.toNat && c.toNat ≤ 13)
  | "blank" => some fun c => c == ' ' || c == '\t'
  | "punct" => some fun c => 0x21 ≤ c.toNat && c.toNat ≤ 0x7e && !c.isAlphanum
  | "xdigit" => some fun c => (Json.hexValue? c).isSome
  | "word" => some isWordChar
  | "ascii" => some fun c => c.toNat < 0x80
  | _ => none

/-- Reads the members of a set of characters up to its closing bracket. -/
def takeSet : Nat → (Char → Bool) → List Char → Option ((Char → Bool) × List Char)
  | 0, _, _ => none
  | fuel + 1, found, cs =>
    let add (test : Char → Bool) : Char → Bool := fun c => found c || test c
    match cs with
    | ']' :: rest => some (found, rest)
    | '[' :: ':' :: rest =>
      let name := rest.takeWhile (· != ':')
      match rest.drop name.length, name with
      | ':' :: ']' :: rest, '^' :: name => do
        let test ← namedSet? (String.ofList name)
        takeSet fuel (add (!test ·)) rest
      | ':' :: ']' :: rest, name => do
        takeSet fuel (add (← namedSet? (String.ofList name))) rest
      | _, _ => none
    | '[' :: '^' :: rest => do
      let (inner, rest) ← takeSet fuel (fun _ => false) rest
      takeSet fuel (add (!inner ·)) rest
    | '[' :: rest => do
      let (inner, rest) ← takeSet fuel (fun _ => false) rest
      takeSet fuel (add inner) rest
    | cs =>
      match cs with
      | '\\' :: letter :: rest =>
        match classOf? letter with
        | some test => takeSet fuel (add test) rest
        | none => takeRange fuel found cs
      | cs => takeRange fuel found cs
where
  /-- Reads a single member or a range, and then the others. -/
  takeRange (fuel : Nat) (found : Char → Bool) (cs : List Char) :
      Option ((Char → Bool) × List Char) := do
    let (low, rest) ← takeMember cs
    match rest with
    | '-' :: ']' :: _ => takeSet fuel (fun c => found c || c == low) rest
    | '-' :: rest =>
      let (high, rest) ← takeMember rest
      if high < low then none
      else takeSet fuel (fun c => found c || (low ≤ c && c ≤ high)) rest
    | rest => takeSet fuel (fun c => found c || c == low) rest

/-- Reads a set of characters after its opening bracket. A closing bracket that comes first is a
member. -/
def takeBracket (cs : List Char) : Option ((Char → Bool) × List Char) :=
  let fuel := cs.length + 1
  let others (found : (Char → Bool) × List Char) : (Char → Bool) × List Char :=
    (fun c => !found.1 c, found.2)
  match cs with
  | '^' :: ']' :: rest => (takeSet fuel (· == ']') rest).map others
  | '^' :: rest => (takeSet fuel (fun _ => false) rest).map others
  | ']' :: rest => takeSet fuel (· == ']') rest
  | rest => takeSet fuel (fun _ => false) rest

/-- Reads a decimal number. -/
def takeCount (cs : List Char) : Option (Nat × List Char) :=
  let digits := cs.takeWhile Char.isDigit
  if digits.isEmpty then none
  else some (digits.foldl (fun n c => 10 * n + (c.toNat - '0'.toNat)) 0, cs.drop digits.length)

/-- Reads the bounds of a repetition after its opening brace. -/
def takeBounds (cs : List Char) : Option ((Nat × Option Nat) × List Char) := do
  let (least, rest) ← takeCount cs
  match rest with
  | '\x7d' :: rest => some ((least, some least), rest)
  | ',' :: '\x7d' :: rest => some ((least, none), rest)
  | ',' :: rest => do
    let (most, rest) ← takeCount rest
    match rest with
    | '\x7d' :: rest => if most < least then none else some ((least, some most), rest)
    | _ => none
  | _ => none

/-- The text after the mark of a repetition that prefers less. -/
def skipLazy : List Char → List Char
  | '?' :: rest => rest
  | rest => rest

/-- Applies the repetitions that follow a part of a pattern. -/
def takeRepetitions : Nat → Pattern → List Char → Option (Pattern × List Char)
  | 0, _, _ => none
  | fuel + 1, p, cs =>
    match cs with
    | '*' :: rest => takeRepetitions fuel (.repeated p 0 none) (skipLazy rest)
    | '+' :: rest => takeRepetitions fuel (.repeated p 1 none) (skipLazy rest)
    | '?' :: rest => takeRepetitions fuel (.repeated p 0 (some 1)) (skipLazy rest)
    | '\x7b' :: rest => do
      let ((least, most), rest) ← takeBounds rest
      takeRepetitions fuel (.repeated p least most) (skipLazy rest)
    | rest => some (p, rest)

/-- Reads flags up to the mark that ends them. -/
def takeFlags : Bool → Flags → List Char → Option (Flags × List Char)
  | on, flags, c :: rest =>
    if c = ')' ∨ c = ':' then some (flags, c :: rest)
    else if c = '-' ∧ on then takeFlags false flags rest
    else if c = 'i' then takeFlags on { flags with ignoreCase := on } rest
    else if c = 'm' then takeFlags on { flags with multiline := on } rest
    else if c = 's' then takeFlags on { flags with dotAll := on } rest
    else if c = 'u' ∨ c = 'U' ∨ c = 'x' ∨ c = 'R' then takeFlags on flags rest
    else none
  | _, _, [] => none

/-- The text after the name of a group and the mark that closes it. -/
def skipGroupName (cs : List Char) : Option (List Char) :=
  let name := cs.takeWhile fun c => isWordChar c || c == '.'
  match cs.drop name.length with
  | '>' :: rest => if name.head?.any fun c => isWordChar c && !c.isDigit then some rest else none
  | _ => none

mutual

/-- Reads alternatives up to a closing parenthesis or the end. -/
def takeAlternatives : Nat → Flags → List Char → Option (Pattern × List Char)
  | 0, _, _ => none
  | fuel + 1, flags, cs => do
    let (p, flags, rest) ← takeSequence fuel flags cs
    match rest with
    | '|' :: rest =>
      let (q, rest) ← takeAlternatives fuel flags rest
      return (.either p q, rest)
    | rest => return (p, rest)

/-- Reads a sequence of parts. Flags may change on the way. -/
def takeSequence : Nat → Flags → List Char → Option (Pattern × Flags × List Char)
  | 0, _, _ => none
  | fuel + 1, flags, cs =>
    match cs with
    | [] => some (.empty, flags, [])
    | ')' :: _ | '|' :: _ => some (.empty, flags, cs)
    | cs => do
      let (part, flags, rest) ← takePart fuel flags cs
      let (part, rest) ← takeRepetitions (rest.length + 1) part rest
      let (others, flags, rest) ← takeSequence fuel flags rest
      return (.seq part others, flags, rest)

/-- Reads one part of a sequence without its repetitions. -/
def takePart : Nat → Flags → List Char → Option (Pattern × Flags × List Char)
  | 0, _, _ => none
  | fuel + 1, flags, cs =>
    let single (test : Char → Bool) (rest : List Char) : Option (Pattern × Flags × List Char) :=
      some (.one (testFor flags test), flags, rest)
    match cs with
    | '(' :: '?' :: 'P' :: '<' :: rest => do takeGroup fuel flags flags (← skipGroupName rest)
    | '(' :: '?' :: '<' :: rest => do takeGroup fuel flags flags (← skipGroupName rest)
    | '(' :: '?' :: ')' :: _ => none
    | '(' :: '?' :: rest => do
      let (inner, rest) ← takeFlags true flags rest
      match rest with
      | ':' :: rest => takeGroup fuel flags inner rest
      | _ :: rest => return (.empty, inner, rest)
      | [] => none
    | '(' :: rest => takeGroup fuel flags flags rest
    | '[' :: rest => do
      let (test, rest) ← takeBracket rest
      single test rest
    | '.' :: rest => single (fun c => flags.dotAll || c != '\n') rest
    | '^' :: rest => some (.start flags.multiline, flags, rest)
    | '$' :: rest => some (.finish flags.multiline, flags, rest)
    | '\\' :: 'b' :: rest => some (.boundary false, flags, rest)
    | '\\' :: 'B' :: rest => some (.boundary true, flags, rest)
    | '\\' :: 'A' :: rest => some (.start false, flags, rest)
    | '\\' :: 'z' :: rest => some (.finish false, flags, rest)
    | '\\' :: letter :: rest =>
      match classOf? letter with
      | some test => single test rest
      | none => do
        let (c, rest) ← takeEscaped (letter :: rest)
        single (· == c) rest
    | c :: rest =>
      if c = '*' ∨ c = '+' ∨ c = '?' ∨ c = '\x7b' ∨ c = '\\' then none
      else single (· == c) rest
    | [] => none

/-- Reads the inside of a group with its own flags, and its closing parenthesis. -/
def takeGroup : Nat → Flags → Flags → List Char → Option (Pattern × Flags × List Char)
  | 0, _, _, _ => none
  | fuel + 1, outer, inner, cs => do
    let (p, rest) ← takeAlternatives fuel inner cs
    match rest with
    | ')' :: rest => return (p, outer, rest)
    | _ => none

end

/-- Reads a pattern. -/
def parse? (text : String) : Option Pattern := do
  let cs := text.toList
  let (p, rest) ← takeAlternatives (4 * cs.length + 4) {} cs
  if rest.isEmpty then some p else none

end MockAudit.Text.Pattern
