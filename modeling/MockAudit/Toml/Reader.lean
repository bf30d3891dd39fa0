import MockAudit.Toml.Scalar

/-!
# Reading TOML documents

A document is a sequence of lines: headers of tables, and keys with values for the table opened
last. No key is defined twice, and a table is opened once only. Tables that arise on the way to
others may be opened later, unless they arose from the dots of a key.
-/

namespace MockAudit.Toml

/-- How a table arose. -/
inductive Origin
  /-- On the way to another table. -/
  | implied
  /-- From the dots of a key. -/
  | dotted
  /-- From a header of its own. -/
  | opened
deriving DecidableEq

/-- A document under construction. -/
inductive Draft
  | value (v : Toml)
  | table (origin : Origin) (entries : List (String × Draft))
  /-- The finished tables of a list and the open last one. -/
  | tables (finished : List Toml) (entries : List (String × Draft))

/-- The entries of a table under construction. -/
abbrev Drafts := List (String × Draft)

namespace Draft

mutual

/-- The value of a draft. -/
def finish : Draft → Toml
  | .value v => v
  | .table _ entries => .table (finishAll entries)
  | .tables finished entries => .array (finished ++ [.table (finishAll entries)])

/-- The values of a table under construction. -/
def finishAll : List (String × Draft) → List (String × Toml)
  | [] => []
  | (key, d) :: rest => (key, finish d) :: finishAll rest

end

/-- The draft under a key. -/
def find? (key : String) : Drafts → Option Draft
  | [] => none
  | (k, d) :: rest => if k = key then some d else find? key rest

/-- Stores a draft under a key, in its place if there is one. -/
def store (key : String) (d : Draft) : Drafts → Drafts
  | [] => [(key, d)]
  | (k, e) :: rest => if k = key then (key, d) :: rest else (k, e) :: store key d rest

/-- Defines a key with dots in a table. -/
def define (value : Toml) : List String → Drafts → Option Drafts
  | [], _ => none
  | [key], entries =>
    match find? key entries with
    | none => some (store key (.value value) entries)
    | some _ => none
  | key :: path, entries =>
    match find? key entries with
    | none => do
      let inner ← define value path []
      return store key (.table .dotted inner) entries
    | some (.table origin inner) =>
      if origin = .opened then none
      else do
        let inner ← define value path inner
        return store key (.table origin inner) entries
    | some _ => none

/-- Opens the table of a header; `listed` headers open a new table of a list. -/
def openTable (listed : Bool) : List String → Drafts → Option Drafts
  | [], _ => none
  | [key], entries =>
    match find? key entries, listed with
    | none, false => some (store key (.table .opened []) entries)
    | none, true => some (store key (.tables [] []) entries)
    | some (.table .implied inner), false => some (store key (.table .opened inner) entries)
    | some (.tables finished last), true =>
      some (store key (.tables (finished ++ [.table (finishAll last)]) []) entries)
    | _, _ => none
  | key :: path, entries =>
    match find? key entries with
    | none => do
      let inner ← openTable listed path []
      return store key (.table .implied inner) entries
    | some (.table origin inner) => do
      let inner ← openTable listed path inner
      return store key (.table origin inner) entries
    | some (.tables finished last) => do
      let last ← openTable listed path last
      return store key (.tables finished last) entries
    | some (.value _) => none

/-- Defines a key in the table a header has opened. -/
def defineIn (path : List String) (value : Toml) : List String → Drafts → Option Drafts
  | [], entries => define value path entries
  | key :: header, entries =>
    match find? key entries with
    | some (.table origin inner) => do
      let inner ← defineIn path value header inner
      return store key (.table origin inner) entries
    | some (.tables finished last) => do
      let last ← defineIn path value header last
      return store key (.tables finished last) entries
    | _ => none

end Draft

mutual

/-- Reads a value. -/
def takeValue : Nat → List Char → Option (Toml × List Char)
  | 0, _ => none
  | fuel + 1, cs =>
    match cs with
    | '"' :: _ | '\'' :: _ => (takeString cs).map fun (s, rest) => (.string s, rest)
    | '[' :: rest => (takeItems fuel rest).map fun (items, rest) => (.array items, rest)
    | '\x7b' :: rest =>
      match skipBlanks rest with
      | '\x7d' :: rest => some (.table [], rest)
      | rest => do
        let (entries, rest) ← takeEntries fuel [] rest
        return (.table (Draft.finishAll entries), rest)
    | cs => takeScalar cs

/-- Reads the items of an array with its closing bracket. -/
def takeItems : Nat → List Char → Option (List Toml × List Char)
  | 0, _ => none
  | fuel + 1, cs =>
    match skipLines cs.length cs with
    | ']' :: rest => some ([], rest)
    | cs => do
      let (item, rest) ← takeValue fuel cs
      match skipLines rest.length rest with
      | ',' :: rest =>
        let (items, rest) ← takeItems fuel rest
        return (item :: items, rest)
      | ']' :: rest => some ([item], rest)
      | _ => none

/-- Reads the entries of a table on one line with its closing brace. -/
def takeEntries : Nat → Drafts → List Char → Option (Drafts × List Char)
  | 0, _, _ => none
  | fuel + 1, entries, cs => do
    let (path, rest) ← takeKey fuel cs
    match rest with
    | '=' :: rest =>
      let (value, rest) ← takeValue fuel (skipBlanks rest)
      let entries ← Draft.define value path entries
      match skipBlanks rest with
      | ',' :: rest => takeEntries fuel entries rest
      | '\x7d' :: rest => some (entries, rest)
      | _ => none
    | _ => none

end

/-- Reads the lines of a document, given the header of the open table. -/
def readLines : Nat → List String → Drafts → List Char → Option Drafts
  | 0, _, _, _ => none
  | fuel + 1, header, entries, cs =>
    match skipLines cs.length cs with
    | [] => some entries
    | '[' :: '[' :: rest => do
      let (path, rest) ← takeKey fuel rest
      match rest with
      | ']' :: ']' :: rest =>
        let entries ← Draft.openTable true path entries
        readLines fuel path entries (← finishLine rest)
      | _ => none
    | '[' :: rest => do
      let (path, rest) ← takeKey fuel rest
      match rest with
      | ']' :: rest =>
        let entries ← Draft.openTable false path entries
        readLines fuel path entries (← finishLine rest)
      | _ => none
    | rest => do
      let (path, rest) ← takeKey fuel rest
      match rest with
      | '=' :: rest =>
        let (value, rest) ← takeValue fuel (skipBlanks rest)
        let entries ← Draft.defineIn path value header entries
        readLines fuel header entries (← finishLine rest)
      | _ => none

/-- Reads a document; the answer holds its entries. -/
def parse? (text : String) : Option (List (String × Toml)) :=
  let cs := match text.toList with
    | c :: rest => if c.toNat = 0xfeff then rest else c :: rest
    | [] => []
  (readLines (2 * cs.length + 2) [] [] cs).map Draft.finishAll

end MockAudit.Toml
