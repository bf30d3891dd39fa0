import MockAudit.Text.Shown

/-!
# Quoted text

A text between double quotes. A quote and a backslash are escaped by a backslash, four control
characters have a letter of their own, and every other character that is not shown as itself is
written by its code point in hexadecimal.
-/

namespace MockAudit.Text

/-- The lower-case hexadecimal digits of a number, without padding. -/
def hex (n : Nat) : List Char :=
  Nat.toDigits 16 n

/-- A character as it stands inside a quoted text. -/
def quoteChar (c : Char) : List Char :=
  if c = '"' then ['\\', '"']
  else if c = '\\' then ['\\', '\\']
  else if c = '\n' then ['\\', 'n']
  else if c = '\r' then ['\\', 'r']
  else if c = '\t' then ['\\', 't']
  else if c = '\x00' then ['\\', '0']
  else if isShown c then [c]
  else ['\\', 'u', '\x7b'] ++ hex c.toNat ++ ['\x7d']

/-- A text in double quotes with its special characters escaped. -/
def quote (s : String) : String :=
  String.ofList ('"' :: s.toList.flatMap quoteChar ++ ['"'])

/-- A path in double quotes. Unlike in other texts, a single quote is escaped too. -/
def quotePath (s : String) : String :=
  String.ofList ('"' :: s.toList.flatMap
    (fun c => if c = '\'' then ['\\', '\''] else quoteChar c) ++ ['"'])

end MockAudit.Text
