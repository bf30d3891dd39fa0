/-!
# TOML documents

A document is a table of values. Numbers and dates are recognised but keep no content, since no
document of an audit needs them.
-/

namespace MockAudit

/-- A value in a TOML document. -/
inductive Toml
  | string (s : String)
  | bool (b : Bool)
  /-- A number or a date. -/
  | scalar
  | array (items : List Toml)
  | table (entries : List (String × Toml))

namespace Toml

/-- The value of a key in a list of entries. -/
def lookup? (key : String) : List (String × Toml) → Option Toml
  | [] => none
  | (k, v) :: rest => if k = key then some v else lookup? key rest

/-- Reads a text. -/
def string? : Toml → Option String
  | .string s => some s
  | _ => none

/-- Reads a truth value. -/
def bool? : Toml → Option Bool
  | .bool b => some b
  | _ => none

/-- Reads a list. -/
def array? : Toml → Option (List Toml)
  | .array items => some items
  | _ => none

/-- Reads a table. -/
def entries? : Toml → Option (List (String × Toml))
  | .table entries => some entries
  | _ => none

end Toml

end MockAudit
