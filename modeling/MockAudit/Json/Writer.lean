import MockAudit.Json.Basic

/-!
# Writing JSON documents

A document is written on one line, or with one member or item on each line and two spaces of
indentation for each level. Empty arrays and objects take no line of their own.
-/

namespace MockAudit.Json

/-- A digit of a hexadecimal number. -/
def hexDigit (n : Nat) : Char :=
  if n < 10 then Char.ofNat ('0'.toNat + n) else Char.ofNat ('a'.toNat + n - 10)

/-- A character as it stands in a string. -/
def escapeChar (c : Char) : List Char :=
  if c = '"' then ['\\', '"']
  else if c = '\\' then ['\\', '\\']
  else if c = '\x08' then ['\\', 'b']
  else if c = '\x0c' then ['\\', 'f']
  else if c = '\n' then ['\\', 'n']
  else if c = '\r' then ['\\', 'r']
  else if c = '\t' then ['\\', 't']
  else if c.toNat < 0x20 then
    ['\\', 'u', '0', '0', hexDigit (c.toNat / 16), hexDigit (c.toNat % 16)]
  else [c]

/-- A string in double quotes. -/
def quoted (s : String) : List Char :=
  '"' :: s.toList.flatMap escapeChar ++ ['"']

/-- The line break before something at a depth. -/
def newline (depth : Nat) : List Char :=
  '\n' :: List.replicate (2 * depth) ' '

mutual

/-- The document on one line. -/
def compact : Json → List Char
  | .null => "null".toList
  | .bool true => "true".toList
  | .bool false => "false".toList
  | .number text => text
  | .string content => quoted content
  | .array items => '[' :: compactItems items ++ [']']
  | .object members => '\x7b' :: compactMembers members ++ ['\x7d']

/-- The items of an array on one line. -/
def compactItems : List Json → List Char
  | [] => []
  | [item] => compact item
  | item :: items => compact item ++ ',' :: compactItems items

/-- The members of an object on one line. -/
def compactMembers : List (String × Json) → List Char
  | [] => []
  | [(name, value)] => quoted name ++ ':' :: compact value
  | (name, value) :: members => quoted name ++ ':' :: compact value ++ ',' :: compactMembers members

end

mutual

/-- The document on several lines, for a place at the given depth. -/
def pretty (depth : Nat) : Json → List Char
  | .array [] => ['[', ']']
  | .array items => '[' :: prettyItems (depth + 1) items ++ newline depth ++ [']']
  | .object [] => ['\x7b', '\x7d']
  | .object members => '\x7b' :: prettyMembers (depth + 1) members ++ newline depth ++ ['\x7d']
  | document => compact document

/-- The items of an array, each on its lines. -/
def prettyItems (depth : Nat) : List Json → List Char
  | [] => []
  | [item] => newline depth ++ pretty depth item
  | item :: items => newline depth ++ pretty depth item ++ ',' :: prettyItems depth items

/-- The members of an object, each on its lines. -/
def prettyMembers (depth : Nat) : List (String × Json) → List Char
  | [] => []
  | [(name, value)] => newline depth ++ quoted name ++ ':' :: ' ' :: pretty depth value
  | (name, value) :: members =>
    newline depth ++ quoted name ++ ':' :: ' ' :: pretty depth value
      ++ ',' :: prettyMembers depth members

end

/-- The text of a document on one line. -/
def compactText (j : Json) : String :=
  String.ofList j.compact

/-- The text of a document on several lines. -/
def prettyText (j : Json) : String :=
  String.ofList (j.pretty 0)

end MockAudit.Json
