import MockAudit.Toml.Basic

/-!
# Writing TOML strings

A string is written in double quotes if nothing in it needs an escape, else in single quotes, else
over several lines, and with escapes if nothing else will do.
-/

namespace MockAudit.Toml

/-- The length of the longest run of a character. -/
def longestRun (c : Char) (cs : List Char) : Nat :=
  (cs.foldl (fun (run, best) d =>
    if d = c then (run + 1, max best (run + 1)) else (0, best)) (0, 0)).2

/-- Whether a character can only be written by its code point. -/
def needsCode (c : Char) : Bool :=
  (c.toNat < 0x20 && c != '\t' && c != '\n') || c.toNat == 0x7f

/-- An upper-case hexadecimal digit. -/
def upperHexDigit (n : Nat) : Char :=
  if n < 10 then Char.ofNat ('0'.toNat + n) else Char.ofNat ('A'.toNat + n - 10)

/-- A character with escapes, after a run of the given number of double quotes. Over several lines
a line end and up to two quotes in a row stand as they are. -/
def escape (multiline : Bool) (quotes : Nat) (c : Char) : List Char :=
  if c = '"' then (if multiline && quotes < 2 then ['"'] else ['\\', '"'])
  else if c = '\x08' then ['\\', 'b']
  else if c = '\t' then ['\\', 't']
  else if c = '\n' then (if multiline then ['\n'] else ['\\', 'n'])
  else if c = '\x0c' then ['\\', 'f']
  else if c = '\r' then ['\\', 'r']
  else if c = '\\' then ['\\', '\\']
  else if needsCode c then
    ['\\', 'u', '0', '0', upperHexDigit (c.toNat / 16), upperHexDigit (c.toNat % 16)]
  else [c]

/-- A text with escapes, after a run of the given number of double quotes. -/
def escapeAll (multiline : Bool) : Nat → List Char → List Char
  | _, [] => []
  | quotes, c :: cs =>
    let next := if c = '"' && quotes < 2 then quotes + 1 else 0
    escape multiline quotes c ++ escapeAll multiline next cs

/-- A string as it stands in a document. -/
def writeString (s : String) : List Char :=
  let cs := s.toList
  let coded := cs.any needsCode
  let lines := cs.contains '\n'
  let quotes := longestRun '"' cs
  let marks := longestRun '\'' cs
  let triple (c : Char) (body : List Char) : List Char :=
    [c, c, c] ++ (if lines then ['\n'] else []) ++ body ++ [c, c, c]
  if !coded && !cs.contains '\\' && quotes == 0 && !lines then
    '"' :: escapeAll false 0 cs ++ ['"']
  else if !coded && marks == 0 && !lines then '\'' :: cs ++ ['\'']
  else if !coded && !cs.contains '\\' && quotes ≤ 2 then triple '"' (escapeAll true 0 cs)
  else if !coded && marks ≤ 2 then triple '\'' cs
  else if lines then triple '"' (escapeAll true 0 cs)
  else '"' :: escapeAll false 0 cs ++ ['"']

end MockAudit.Toml
