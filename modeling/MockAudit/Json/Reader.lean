import MockAudit.Json.Basic

/-!
# Reading JSON documents

The strict grammar: nothing but blanks around the document, no control characters in strings, and
no leading zeros. An escape may not denote half a surrogate pair.
-/

namespace MockAudit.Json

/-- The characters allowed between the parts of a document. -/
def isSpace (c : Char) : Bool :=
  c == ' ' || c == '\n' || c == '\t' || c == '\r'

/-- The text after its leading blanks. -/
def skip (cs : List Char) : List Char :=
  cs.dropWhile isSpace

/-- The value of a hexadecimal digit. -/
def hexValue? (c : Char) : Option Nat :=
  if '0' ≤ c ∧ c ≤ '9' then some (c.toNat - '0'.toNat)
  else if 'a' ≤ c ∧ c ≤ 'f' then some (c.toNat - 'a'.toNat + 10)
  else if 'A' ≤ c ∧ c ≤ 'F' then some (c.toNat - 'A'.toNat + 10)
  else none

/-- The unit denoted by four hexadecimal digits. -/
def hexUnit? (a b c d : Char) : Option Nat := do
  return (((← hexValue? a) * 16 + (← hexValue? b)) * 16 + (← hexValue? c)) * 16 + (← hexValue? d)

/-- The character of a letter after a backslash. -/
def unescape? : Char → Option Char
  | '"' => some '"'
  | '\\' => some '\\'
  | '/' => some '/'
  | 'b' => some '\x08'
  | 'f' => some '\x0c'
  | 'n' => some '\n'
  | 'r' => some '\r'
  | 't' => some '\t'
  | _ => none

/-- Joins the halves of a surrogate pair. -/
def joinPair (high low : Nat) : Char :=
  Char.ofNat (0x10000 + (high - 0xd800) * 0x400 + (low - 0xdc00))

/-- Reads the next character of a string, or its end, which is no character. -/
def readChar : List Char → Option (Option Char × List Char)
  | '"' :: rest => some (none, rest)
  | '\\' :: 'u' :: a :: b :: c :: d :: rest => do
    let high ← hexUnit? a b c d
    if 0xdc00 ≤ high ∧ high ≤ 0xdfff then none
    else if 0xd800 ≤ high ∧ high ≤ 0xdbff then
      match rest with
      | '\\' :: 'u' :: a' :: b' :: c' :: d' :: rest' =>
        let low ← hexUnit? a' b' c' d'
        if 0xdc00 ≤ low ∧ low ≤ 0xdfff then some (some (joinPair high low), rest') else none
      | _ => none
    else some (some (Char.ofNat high), rest)
  | '\\' :: c :: rest => (unescape? c).map fun c => (some c, rest)
  | c :: rest => if c.toNat < 0x20 || c == '\\' then none else some (some c, rest)
  | [] => none

/-- Reads a string after its opening quote. -/
def readString : Nat → List Char → Option (List Char × List Char)
  | 0, _ => none
  | fuel + 1, cs => do
    match ← readChar cs with
    | (none, rest) => some ([], rest)
    | (some c, rest) =>
      let (content, rest) ← readString fuel rest
      some (c :: content, rest)

/-- Takes one or more digits. -/
def takeDigits (cs : List Char) : Option (List Char × List Char) :=
  let digits := cs.takeWhile Char.isDigit
  if digits.isEmpty then none else some (digits, cs.dropWhile Char.isDigit)

/-- Takes the whole part of a number, which has no leading zero. -/
def takeWhole (cs : List Char) : Option (List Char × List Char) :=
  match cs with
  | '0' :: rest => some (['0'], rest)
  | cs => takeDigits cs

/-- Takes the fraction of a number, if there is one. -/
def takeFraction (cs : List Char) : Option (List Char × List Char) :=
  match cs with
  | '.' :: rest => (takeDigits rest).map fun (digits, rest) => ('.' :: digits, rest)
  | cs => some ([], cs)

/-- Takes the exponent of a number, if there is one. -/
def takeExponent (cs : List Char) : Option (List Char × List Char) :=
  match cs with
  | mark :: rest =>
    if mark = 'e' ∨ mark = 'E' then
      let (sign, rest) := match rest with
        | '+' :: tail => (['+'], tail)
        | '-' :: tail => (['-'], tail)
        | other => ([], other)
      (takeDigits rest).map fun (digits, rest) => (mark :: sign ++ digits, rest)
    else some ([], cs)
  | [] => some ([], [])

/-- Takes the text of a number. -/
def takeNumber (cs : List Char) : Option (List Char × List Char) := do
  let (sign, rest) := match cs with
    | '-' :: tail => (['-'], tail)
    | other => ([], other)
  let (whole, rest) ← takeWhole rest
  let (fraction, rest) ← takeFraction rest
  let (exponent, rest) ← takeExponent rest
  return (sign ++ whole ++ fraction ++ exponent, rest)

/-- Takes a word off the front of a text. -/
def takeWord (word cs : List Char) : Option (List Char) :=
  match word, cs with
  | [], rest => some rest
  | w :: ws, c :: cs => if w = c then takeWord ws cs else none
  | _ :: _, [] => none

mutual

/-- Reads a document at the front of a text. -/
def readValue : Nat → List Char → Option (Json × List Char)
  | 0, _ => none
  | fuel + 1, cs =>
    match skip cs with
    | 'n' :: rest => (takeWord "ull".toList rest).map (.null, ·)
    | 't' :: rest => (takeWord "rue".toList rest).map (.bool true, ·)
    | 'f' :: rest => (takeWord "alse".toList rest).map (.bool false, ·)
    | '"' :: rest =>
      (readString fuel rest).map fun (s, rest) => (.string (String.ofList s), rest)
    | '[' :: rest =>
      match skip rest with
      | ']' :: rest => some (.array [], rest)
      | rest => (readItems fuel rest).map fun (items, rest) => (.array items, rest)
    | '\x7b' :: rest =>
      match skip rest with
      | '\x7d' :: rest => some (.object [], rest)
      | rest => (readMembers fuel rest).map fun (members, rest) => (.object members, rest)
    | cs => (takeNumber cs).map fun (text, rest) => (.number text, rest)

/-- Reads the items of an array that is not empty, with its closing bracket. -/
def readItems : Nat → List Char → Option (List Json × List Char)
  | 0, _ => none
  | fuel + 1, cs => do
    let (item, rest) ← readValue fuel cs
    match skip rest with
    | ',' :: rest =>
      let (items, rest) ← readItems fuel rest
      some (item :: items, rest)
    | ']' :: rest => some ([item], rest)
    | _ => none

/-- Reads the members of an object that is not empty, with its closing brace. -/
def readMembers : Nat → List Char → Option (List (String × Json) × List Char)
  | 0, _ => none
  | fuel + 1, cs =>
    match skip cs with
    | '"' :: rest => do
      let (name, rest) ← readString fuel rest
      match skip rest with
      | ':' :: rest =>
        let (value, rest) ← readValue fuel rest
        let member := (String.ofList name, value)
        match skip rest with
        | ',' :: rest =>
          let (members, rest) ← readMembers fuel rest
          some (member :: members, rest)
        | '\x7d' :: rest => some ([member], rest)
        | _ => none
      | _ => none
    | _ => none

end

/-- Reads a text that holds one document and nothing else. -/
def parse? (text : String) : Option Json := do
  let cs := text.toList
  let (document, rest) ← readValue (2 * cs.length + 2) cs
  if (skip rest).isEmpty then some document else none

end MockAudit.Json
