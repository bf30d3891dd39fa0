import MockAudit.Signature.TypeExpr

/-!
# Reading type expressions

A type expression is split at the bars outside parentheses. What remains of a single alternative
is an optional mark, a parenthesised expression, or a name; blanks around it do not count.
-/

namespace MockAudit

/-- Why a type expression, a signature or a reference to a method cannot be read. -/
inductive SignatureFault
  | emptyType
  | invalidType (text : String)
  | noOpeningParenthesis (text : String)
  | unbalanced (text : String)
  | noReturnType (text : String)
  | invalidReference (text : String)
  /-- A fault in the signature written for a method. -/
  | ofMethod (reference : String) (fault : SignatureFault)

namespace SignatureFault

/-- The wording of a fault. -/
def message : SignatureFault → String
  | emptyType => "empty type expression"
  | invalidType text => "invalid type expression `" ++ text ++ "`"
  | noOpeningParenthesis text => "signature must start with `(`: `" ++ text ++ "`"
  | unbalanced text => "unbalanced parentheses in `" ++ text ++ "`"
  | noReturnType text => "missing `->` return type in `" ++ text ++ "`"
  | invalidReference text => "invalid method reference `" ++ text ++ "`"
  | ofMethod reference fault => reference ++ ": " ++ fault.message

end SignatureFault

/-- Splits a text at a separator outside parentheses into its first part and the others. The depth
is an unbounded number; that a counter of 32 bits runs over after 2 ^ 31 parentheses of one kind is
left out. -/
def splitOutside (separator : Char) : Int → List Char → List Char × List (List Char)
  | _, [] => ([], [])
  | depth, c :: cs =>
    if c = '(' then
      let (part, parts) := splitOutside separator (depth + 1) cs
      (c :: part, parts)
    else if c = ')' then
      let (part, parts) := splitOutside separator (depth - 1) cs
      (c :: part, parts)
    else if c = separator ∧ depth = 0 then
      let (part, parts) := splitOutside separator depth cs
      ([], part :: parts)
    else
      let (part, parts) := splitOutside separator depth cs
      (c :: part, parts)

/-- The length of parts with a separator in front of each. -/
def separatedLength : List (List Char) → Nat
  | [] => 0
  | part :: parts => part.length + 1 + separatedLength parts

/-- The parts and the separators between them make up the whole text. -/
theorem length_splitOutside (separator : Char) (depth : Int) (cs : List Char) :
    (splitOutside separator depth cs).1.length
      + separatedLength (splitOutside separator depth cs).2 = cs.length := by
  fun_induction splitOutside separator depth cs <;> simp_all [separatedLength] <;> omega

theorem length_lt_of_mem_parts {part : List Char} {parts : List (List Char)}
    (h : part ∈ parts) : part.length < separatedLength parts := by
  induction parts with
  | nil => simp at h
  | cons p ps ih =>
    rw [separatedLength]
    rcases List.mem_cons.1 h with rfl | h
    · omega
    · have := ih h
      omega

/-- Letters of names. -/
def isNameStart (c : Char) : Bool :=
  c.isAlpha || c == '_'

/-- Letters and digits of names. -/
def isNameChar (c : Char) : Bool :=
  c.isAlphanum || c == '_'

/-- Whether a text continues an identifier, to which further ones may be joined by double
colons. -/
def continuesTypeName : List Char → Bool
  | [] => true
  | ':' :: ':' :: c :: cs => isNameStart c && continuesTypeName cs
  | c :: cs => isNameChar c && continuesTypeName cs

/-- Whether a text consists of identifiers joined by double colons. -/
def isTypeName : List Char → Bool
  | [] => false
  | c :: cs => isNameStart c && continuesTypeName cs

/-- The text without the parentheses at its two ends. -/
def stripParentheses (cs : List Char) : Option (List Char) :=
  match cs with
  | '(' :: rest => if rest.getLast? = some ')' then some rest.dropLast else none
  | _ => none

theorem length_stripParentheses {cs inner : List Char} (h : stripParentheses cs = some inner) :
    inner.length < cs.length := by
  unfold stripParentheses at h
  split at h
  · split at h
    · obtain rfl := Option.some.inj h
      simp only [List.length_dropLast, List.length_cons]; omega
    · simp at h
  · simp at h

namespace TypeExpr

/-- The type a single word stands for. -/
def ofWord (cs : List Char) : Except SignatureFault TypeExpr :=
  let word := String.ofList cs
  if word = "self" then .ok .self
  else if word = "untyped" then .ok .untyped
  else if word = "nil" then .ok (.named "Nil")
  else if isTypeName cs then .ok (.named word)
  else .error (.invalidType word)

/-- Reads a type expression from characters. -/
def ofChars (input : List Char) : Except SignatureFault TypeExpr :=
  match _hcs : Text.trim input with
  | [] => .error .emptyType
  | c :: cs =>
    match _hsplit : splitOutside '|' 0 (c :: cs) with
    | (part, next :: others) => do
      let first ← ofChars part
      let rest ← (next :: others).attach.mapM fun p => ofChars p.1
      return .union (first :: rest)
    | (_, []) =>
      if c = '?' then do
        let inner ← ofChars cs
        return .optional inner
      else match _hstrip : stripParentheses (c :: cs) with
        | some inner => ofChars inner
        | none => ofWord (c :: cs)
termination_by input.length
decreasing_by
  all_goals
    have hle := Text.length_trim_le input
    rw [_hcs] at hle
  · have := length_splitOutside '|' 0 (c :: cs)
    rw [_hsplit] at this
    simp only [separatedLength] at this
    omega
  · have := length_splitOutside '|' 0 (c :: cs)
    rw [_hsplit] at this
    have := length_lt_of_mem_parts p.2
    dsimp only at *
    omega
  · simp only [List.length_cons] at hle; omega
  · have := length_stripParentheses _hstrip
    omega

/-- Reads a type expression. -/
def parse (s : String) : Except SignatureFault TypeExpr :=
  ofChars s.toList

end TypeExpr

end MockAudit
