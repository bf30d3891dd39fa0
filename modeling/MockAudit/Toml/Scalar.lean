import MockAudit.Json.Reader
import MockAudit.Toml.Basic

/-!
# Keys and scalars of TOML documents

The parts of a document that stand on their own: blanks and comments, the four kinds of strings,
keys, numbers and dates.
-/

namespace MockAudit.Toml

/-- The text after blanks within a line. -/
def skipBlanks (cs : List Char) : List Char :=
  cs.dropWhile fun c => c == ' ' || c == '\t'

/-- Whether a character may stand in strings and comments as it is. -/
def isPlain (c : Char) : Bool :=
  c == '\t' || (0x20 ≤ c.toNat && c.toNat != 0x7f)

/-- Takes the end of a line; the end of the text is one too. -/
def takeLineEnd : List Char → Option (List Char)
  | [] => some []
  | '\n' :: rest => some rest
  | '\r' :: '\n' :: rest => some rest
  | _ => none

/-- Takes blanks and a comment up to the end of the line. -/
def finishLine (cs : List Char) : Option (List Char) :=
  match skipBlanks cs with
  | '#' :: rest => takeLineEnd (rest.dropWhile isPlain)
  | rest => takeLineEnd rest

/-- The text after blanks, comments and line ends. -/
def skipLines : Nat → List Char → List Char
  | 0, cs => cs
  | fuel + 1, cs =>
    match skipBlanks cs with
    | [] => []
    | rest =>
      match finishLine rest with
      | some next => skipLines fuel next
      | none => rest

/-- Reads the given number of hexadecimal digits on top of a value. -/
def takeHex : Nat → Nat → List Char → Option (Nat × List Char)
  | 0, value, cs => some (value, cs)
  | count + 1, value, c :: cs => do takeHex count (16 * value + (← Json.hexValue? c)) cs
  | _, _, [] => none

/-- The character at a code point that is one. -/
def scalarChar? (n : Nat) : Option Char :=
  if n < 0xd800 ∨ (0xdfff < n ∧ n < 0x110000) then some (Char.ofNat n) else none

/-- Reads an escape after its backslash. -/
def takeEscape : List Char → Option (Char × List Char)
  | 'b' :: rest => some ('\x08', rest)
  | 't' :: rest => some ('\t', rest)
  | 'n' :: rest => some ('\n', rest)
  | 'f' :: rest => some ('\x0c', rest)
  | 'r' :: rest => some ('\r', rest)
  | '"' :: rest => some ('"', rest)
  | '\\' :: rest => some ('\\', rest)
  | 'u' :: rest => do
    let (n, rest) ← takeHex 4 0 rest
    return (← scalarChar? n, rest)
  | 'U' :: rest => do
    let (n, rest) ← takeHex 8 0 rest
    return (← scalarChar? n, rest)
  | _ => none

/-- Reads a string in double quotes after the opening one. -/
def takeBasic : Nat → List Char → Option (List Char × List Char)
  | 0, _ => none
  | fuel + 1, cs =>
    match cs with
    | '"' :: rest => some ([], rest)
    | '\\' :: rest => do
      let (c, rest) ← takeEscape rest
      let (text, rest) ← takeBasic fuel rest
      return (c :: text, rest)
    | c :: rest =>
      if isPlain c then (takeBasic fuel rest).map fun (text, rest) => (c :: text, rest) else none
    | [] => none

/-- Reads a string in single quotes after the opening one. -/
def takeLiteral : List Char → Option (List Char × List Char)
  | '\'' :: rest => some ([], rest)
  | c :: rest =>
    if isPlain c then (takeLiteral rest).map fun (text, rest) => (c :: text, rest) else none
  | [] => none

/-- The text after the line end that may follow three opening quotes. -/
def skipFirstLineEnd : List Char → List Char
  | '\n' :: rest => rest
  | '\r' :: '\n' :: rest => rest
  | rest => rest

/-- The text after blanks and line ends. -/
def skipFold (cs : List Char) : List Char :=
  cs.dropWhile fun c => c == ' ' || c == '\t' || c == '\n' || c == '\r'

/-- Reads a string on several lines after its opening quotes. Up to two quotes may stand before the
closing ones, and with escapes a backslash at the end of a line joins it to the next text. -/
def takeMultiline (quote : Char) (escapes : Bool) : Nat → List Char →
    Option (List Char × List Char)
  | 0, _ => none
  | fuel + 1, cs =>
    match cs with
    | '\r' :: '\n' :: rest =>
      (takeMultiline quote escapes fuel rest).map fun (text, rest) => ('\n' :: text, rest)
    | c :: rest =>
      let run := cs.takeWhile (· == quote)
      if c = quote ∧ 3 ≤ run.length then
        if run.length ≤ 5 then some (List.replicate (run.length - 3) quote, cs.drop run.length)
        else none
      else if escapes ∧ c = '\\' then
        let folded := finishFold rest
        match folded with
        | some next => takeMultiline quote escapes fuel next
        | none => do
          let (e, rest) ← takeEscape rest
          let (text, rest) ← takeMultiline quote escapes fuel rest
          return (e :: text, rest)
      else if isPlain c ∨ c = '\n' then
        (takeMultiline quote escapes fuel rest).map fun (text, rest) => (c :: text, rest)
      else none
    | [] => none
where
  /-- The text after a line end and the blanks around it. -/
  finishFold (cs : List Char) : Option (List Char) :=
    match skipBlanks cs with
    | '\n' :: rest => some (skipFold rest)
    | '\r' :: '\n' :: rest => some (skipFold rest)
    | _ => none

/-- Reads a string of any kind. -/
def takeString (cs : List Char) : Option (String × List Char) :=
  let found := match cs with
    | '"' :: '"' :: '"' :: rest =>
      takeMultiline '"' true (rest.length + 1) (skipFirstLineEnd rest)
    | '\'' :: '\'' :: '\'' :: rest =>
      takeMultiline '\'' false (rest.length + 1) (skipFirstLineEnd rest)
    | '"' :: rest => takeBasic (rest.length + 1) rest
    | '\'' :: rest => takeLiteral rest
    | _ => none
  found.map fun (text, rest) => (String.ofList text, rest)

/-- Characters of keys without quotes. -/
def isBareKeyChar (c : Char) : Bool :=
  c.isAlphanum || c == '_' || c == '-'

/-- Reads one part of a key. -/
def takeKeyPart (cs : List Char) : Option (String × List Char) :=
  match cs with
  | '"' :: rest =>
    (takeBasic (rest.length + 1) rest).map fun (text, rest) => (String.ofList text, rest)
  | '\'' :: rest => (takeLiteral rest).map fun (text, rest) => (String.ofList text, rest)
  | cs =>
    let name := cs.takeWhile isBareKeyChar
    if name.isEmpty then none else some (String.ofList name, cs.dropWhile isBareKeyChar)

/-- Reads a key with its dots and the blanks around it. -/
def takeKey : Nat → List Char → Option (List String × List Char)
  | 0, _ => none
  | fuel + 1, cs => do
    let (part, rest) ← takeKeyPart (skipBlanks cs)
    match skipBlanks rest with
    | '.' :: rest =>
      let (parts, rest) ← takeKey fuel rest
      return (part :: parts, rest)
    | rest => return ([part], rest)

/-- Whether digits are separated by single underscores, if at all. -/
def areDigits (isDigit : Char → Bool) : List Char → Bool
  | [] => false
  | [c] => isDigit c
  | c :: '_' :: d :: rest => isDigit c && areDigits isDigit (d :: rest)
  | c :: d :: rest => isDigit c && areDigits isDigit (d :: rest)

/-- Whether a text is a decimal number without sign, fraction and leading zeros. -/
def isWholeNumber (cs : List Char) : Bool :=
  areDigits Char.isDigit cs && (cs.length == 1 || cs.head? != some '0')

/-- Whether a text is a number. -/
def isNumber (cs : List Char) : Bool :=
  let unsigned := match cs with
    | '+' :: rest | '-' :: rest => rest
    | rest => rest
  let isHex (c : Char) : Bool := (Json.hexValue? c).isSome
  let whole := unsigned.takeWhile fun c => c.isDigit || c == '_'
  let rest := unsigned.drop whole.length
  let fraction := match rest with
    | '.' :: tail => tail.takeWhile fun c => c.isDigit || c == '_'
    | _ => ['0']
  let rest := match rest with
    | '.' :: tail => tail.drop fraction.length
    | rest => rest
  let exponentFits := match rest with
    | [] => true
    | mark :: '+' :: tail | mark :: '-' :: tail =>
      (mark == 'e' || mark == 'E') && areDigits Char.isDigit tail
    | mark :: tail => (mark == 'e' || mark == 'E') && areDigits Char.isDigit tail
  match cs with
  | '0' :: 'x' :: digits => areDigits isHex digits
  | '0' :: 'o' :: digits => areDigits (fun c => '0' ≤ c && c ≤ '7') digits
  | '0' :: 'b' :: digits => areDigits (fun c => c == '0' || c == '1') digits
  | _ =>
    unsigned == "inf".toList || unsigned == "nan".toList
      || (isWholeNumber whole && areDigits Char.isDigit fraction && exponentFits)

/-- The value of two digits. -/
def twoDigits? : Char → Char → Option Nat
  | a, b =>
    if a.isDigit && b.isDigit then some (10 * (a.toNat - 48) + (b.toNat - 48)) else none

/-- Takes a date off the front of a text. -/
def takeDate : List Char → Option (List Char)
  | y :: y' :: y'' :: y''' :: '-' :: m :: m' :: '-' :: d :: d' :: rest => do
    let century ← twoDigits? y y'
    let year := 100 * century + (← twoDigits? y'' y''')
    let month ← twoDigits? m m'
    let day ← twoDigits? d d'
    let leap := year % 4 == 0 && (year % 100 != 0 || year % 400 == 0)
    let days := if month == 2 then (if leap then 29 else 28)
      else if month == 4 || month == 6 || month == 9 || month == 11 then 30 else 31
    if 1 ≤ month ∧ month ≤ 12 ∧ 1 ≤ day ∧ day ≤ days then some rest else none
  | _ => none

/-- Takes a time of day off the front of a text. -/
def takeTime : List Char → Option (List Char)
  | h :: h' :: ':' :: m :: m' :: ':' :: s :: s' :: rest => do
    if (← twoDigits? h h') < 24 ∧ (← twoDigits? m m') < 60 ∧ (← twoDigits? s s') ≤ 60 then
      match rest with
      | '.' :: tail =>
        if (tail.takeWhile Char.isDigit).isEmpty then none else some (tail.dropWhile Char.isDigit)
      | rest => some rest
    else none
  | _ => none

/-- Whether a text is the difference of a time zone. -/
def isZone : List Char → Bool
  | [] => true
  | ['Z'] | ['z'] => true
  | [sign, h, h', ':', m, m'] =>
    (sign == '+' || sign == '-') && (twoDigits? h h').any (· < 24)
      && (twoDigits? m m').any (· < 60)
  | _ => false

/-- Whether a text is a date, a time of day, or both. -/
def isMoment (cs : List Char) : Bool :=
  match takeDate cs with
  | some [] => true
  | some (mark :: rest) =>
    (mark == 'T' || mark == 't' || mark == ' ') && (takeTime rest).any isZone
  | none => (takeTime cs).any (·.isEmpty)

/-- Reads a number, a date or a truth value. -/
def takeScalar (cs : List Char) : Option (Toml × List Char) :=
  let isTokenChar (c : Char) : Bool :=
    c.isAlphanum || c == '_' || c == '+' || c == '-' || c == '.' || c == ':'
  let token := cs.takeWhile isTokenChar
  let rest := cs.dropWhile isTokenChar
  let longer := match rest with
    | ' ' :: tail => token ++ ' ' :: tail.takeWhile isTokenChar
    | _ => token
  if token = "true".toList then some (.bool true, rest)
  else if token = "false".toList then some (.bool false, rest)
  else if takeDate token = some [] ∧ longer.length ≠ token.length ∧ isMoment longer then
    some (.scalar, cs.drop longer.length)
  else if isNumber token ∨ isMoment token then some (.scalar, rest)
  else none

end MockAudit.Toml
