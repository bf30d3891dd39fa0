/-!
# Options on a command line

The words of a command line are read from left to right. An option is given by a long name after
two dashes or by a letter after one; its value follows after an equals sign or as the next word,
and letters may be joined. An option whose value is the next word is settled only when the next
option is met or the words end, so that what is wrong with the value is noticed late.
-/

namespace MockAudit.CommandLine

/-- Why a command line is not followed. -/
inductive UsageFault
  /-- Help is asked for. -/
  | help
  /-- The version is asked for. -/
  | version
  /-- There is nothing on the command line. -/
  | nothingGiven
  | missingCommand
  | unknownCommand
  | unknownArgument
  | invalidValue
  /-- A value is attached to an option that takes none. -/
  | unneededValue
  /-- An option is given twice. -/
  | repeatedOption
  | missingOption
deriving DecidableEq

/-- What is given for an option. -/
inductive OptionForm
  /-- Nothing but the option itself, once. -/
  | flag
  /-- A value, once. -/
  | value (accepts : String → Bool)
  /-- A value each time. -/
  | values (accepts : String → Bool)
  /-- Nothing; the option ends the reading. -/
  | request (fault : UsageFault)

/-- An option of a command. -/
structure OptionSpec where
  name : String
  letter : Option Char := none
  form : OptionForm

/-- An option that awaits its value or has it as the next word. -/
structure PendingOption where
  spec : OptionSpec
  value : Option String

/-- What has been read of a command line. -/
structure Reading where
  /-- The options that are settled, with their values. -/
  given : List (String × String) := []
  pending : Option PendingOption := none

namespace Reading

/-- The values of an option. -/
def valuesOf (r : Reading) (name : String) : List String :=
  (r.given.filter (·.1 == name)).map (·.2)

/-- The value of an option. -/
def value? (r : Reading) (name : String) : Option String :=
  (r.valuesOf name).head?

/-- Whether an option is given. -/
def has (r : Reading) (name : String) : Bool :=
  (r.value? name).isSome

/-- Adds an option with its value. -/
def add (r : Reading) (spec : OptionSpec) (value : String) : Reading :=
  { r with given := r.given ++ [(spec.name, value)] }

/-- Settles an option with a value, or without one if it needs none. -/
def settle (r : Reading) (spec : OptionSpec) (value : Option String) :
    Except UsageFault Reading :=
  match spec.form, value with
  | .request fault, _ => .error fault
  | .flag, _ => if r.has spec.name then .error .repeatedOption else .ok (r.add spec "")
  | .value _, none | .values _, none => .error .invalidValue
  | .value accepts, some v =>
    if r.has spec.name then .error .repeatedOption
    else if accepts v then .ok (r.add spec v) else .error .invalidValue
  | .values accepts, some v => if accepts v then .ok (r.add spec v) else .error .invalidValue

/-- Settles the option whose value is the next word. -/
def settlePending (r : Reading) : Except UsageFault Reading :=
  match r.pending with
  | none => .ok r
  | some p => { r with pending := none }.settle p.spec p.value

/-- Whether an option still awaits its value. -/
def awaitsValue (r : Reading) : Bool :=
  r.pending.any (·.value.isNone)

/-- Takes note of an option that has been met, with the value attached to it. -/
def meet (r : Reading) (spec : OptionSpec) (attached : Option String) :
    Except UsageFault Reading := do
  let r ← r.settlePending
  match spec.form, attached with
  | .value _, none | .values _, none => return { r with pending := some ⟨spec, none⟩ }
  | _, attached => r.settle spec attached

/-- Reads a word after two dashes. -/
def long (specs : List OptionSpec) (r : Reading) (word : List Char) :
    Except UsageFault Reading :=
  let name := String.ofList (word.takeWhile (· != '='))
  let attached := match word.dropWhile (· != '=') with
    | _ :: value => some (String.ofList value)
    | [] => none
  match specs.find? (·.name == name) with
  | none => .error .unknownArgument
  | some spec =>
    match spec.form, attached with
    | .flag, some _ | .request _, some _ => .error .unneededValue
    | _, attached => r.meet spec attached

/-- Reads the letters after one dash. -/
def letters (specs : List OptionSpec) (r : Reading) : List Char → Except UsageFault Reading
  | [] => .ok r
  | c :: cs =>
    match specs.find? (·.letter == some c) with
    | none => .error .unknownArgument
    | some spec =>
      match spec.form, cs with
      | .flag, cs | .request _, cs => do letters specs (← r.meet spec none) cs
      | _, [] => r.meet spec none
      | _, '=' :: value => r.meet spec (some (String.ofList value))
      | _, value => r.meet spec (some (String.ofList value))

/-- Gives a word to the option that awaits its value. -/
def supply (r : Reading) (word : String) : Reading :=
  { r with pending := r.pending.map fun p => { p with value := some word } }

end Reading

/-- The words of a level of the command line: its options, and the command with the words after
it. `isCommand` tells the commands, and `stray` judges a word that is neither, given whether it
follows two bare dashes. -/
def readWords (specs : List OptionSpec) (isCommand : String → Bool)
    (stray : Bool → String → UsageFault) (r : Reading) :
    List String → Except UsageFault (Reading × Option (String × List String))
  | [] => .ok (r, none)
  | word :: words =>
    if !r.awaitsValue && isCommand word then .ok (r, some (word, words))
    else
      match word.toList with
      | ['-', '-'] =>
        match words with
        | [] => .ok (r, none)
        | next :: _ => .error (stray true next)
      | '-' :: '-' :: rest => do
        readWords specs isCommand stray (← r.long specs rest) words
      | '-' :: c :: rest => do
        readWords specs isCommand stray (← r.letters specs (c :: rest)) words
      | _ =>
        if r.awaitsValue then readWords specs isCommand stray (r.supply word) words
        else .error (stray false word)

end MockAudit.CommandLine
