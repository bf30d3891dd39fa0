import MockAudit.Signature.Basic
import MockAudit.Signature.TypeParser

/-!
# Reading method signatures

A signature is a list of parameters in parentheses, an arrow and the type of the result. The marks
in front of a parameter are tried in a fixed order: two stars, one star, a keyword with a colon, a
question mark.
-/

namespace MockAudit

namespace Signature

/-- Divides a text at the parenthesis that closes one already open. -/
def splitAtClosing : Nat → List Char → Option (List Char × List Char)
  | _, [] => none
  | depth, c :: cs =>
    if c = '(' then (splitAtClosing (depth + 1) cs).map fun (l, r) => (c :: l, r)
    else if c = ')' then
      match depth with
      | 0 => some ([], cs)
      | depth + 1 => (splitAtClosing depth cs).map fun (l, r) => (c :: l, r)
    else (splitAtClosing depth cs).map fun (l, r) => (c :: l, r)

/-- A keyword parameter as written: whether it is required, its name, and the text of its type. -/
def keywordParts? (param : List Char) : Option (Bool × List Char × List Char) :=
  let (isRequired, body) := match param with
    | '?' :: rest => (false, rest)
    | other => (true, other)
  match body with
  | [] => none
  | c :: _ =>
    let name := body.takeWhile isNameChar
    if (c.isLower || c == '_') then
      match Text.trimStart (body.dropWhile isNameChar) with
      | ':' :: rest =>
        let type := Text.trimStart rest
        if type.isEmpty || type.contains '\n' then none else some (isRequired, name, type)
      | _ => none
    else none

/-- Adds a parameter as written to a signature. A second rest parameter takes the place of the
first. -/
def addParam (s : Signature) (param : List Char) : Except SignatureFault Signature :=
  match param with
  | '*' :: '*' :: type => do return { s with namedRest := some (← TypeExpr.ofChars type) }
  | '*' :: type => do return { s with rest := some (← TypeExpr.ofChars type) }
  | param =>
    match keywordParts? param with
    | some (isRequired, name, type) => do
      return s.addNamed (String.ofList name) (← TypeExpr.ofChars type) isRequired
    | none =>
      match param with
      | '?' :: type => do return s.addPositional (← TypeExpr.ofChars type) true
      | type => do return s.addPositional (← TypeExpr.ofChars type) false

/-- The parameters as written, without the blanks around them. -/
def writtenParams (params : List Char) : List (List Char) :=
  if (Text.trim params).isEmpty then []
  else
    let (part, parts) := splitOutside ',' 0 params
    (part :: parts).map Text.trim

/-- Reads a signature. The result type is read before the parameters. -/
def parse (s : String) : Except SignatureFault Signature :=
  let input := Text.trim s.toList
  match input with
  | '(' :: afterOpening =>
    match splitAtClosing 0 afterOpening with
    | none => .error (.unbalanced (String.ofList input))
    | some (params, afterClosing) =>
      match Text.trim afterClosing with
      | '-' :: '>' :: returns => do
        let returns ← TypeExpr.ofChars returns
        (writtenParams params).foldlM addParam (returning returns)
      | _ => .error (.noReturnType (String.ofList input))
  | _ => .error (.noOpeningParenthesis (String.ofList input))

end Signature

end MockAudit
