import MockAudit.Call.Basic
import MockAudit.Signature.Check

/-!
# Signatures inferred from real calls

Real calls are grouped by method in the order in which the methods first occur. Each positional
slot, each keyword and the result collect the types seen there; doubles tell nothing about types.
-/

namespace MockAudit

/-- The types seen at a positional slot. -/
structure Slot where
  types : List TypeName
  /-- Whether some call did not reach the slot. -/
  isOptional : Bool
deriving DecidableEq

/-- The result of an inferred signature. -/
inductive SeenResult
  | self
  | union (types : List TypeName)
deriving DecidableEq

/-- What real calls of one method reveal about it. All lists of types are in ascending order. -/
structure UsageProfile where
  target : Target
  method : String
  positional : List Slot
  named : List (String × List TypeName)
  returns : SeenResult
  samples : Nat
deriving DecidableEq

/-- Distinct names in ascending order. -/
def sortedNames (names : List String) : List String :=
  names.eraseDups.mergeSort

/-- The type a sampled value reveals. -/
def Value.sampledType? : Value → Option TypeName
  | .double _ => none
  | v => some v.typeName

namespace UsageProfile

/-- The method of a profile. -/
def key (s : UsageProfile) : MethodRef :=
  (s.target, s.method)

/-- The reference to the method of a profile. -/
def describe (s : UsageProfile) : String :=
  s.target.describe s.method

/-- The form in which inferred signatures are checked. No keyword is required, since not every
call gives every keyword. -/
def toSignature (s : UsageProfile) : Signature :=
  { positional := s.positional.map fun slot => ⟨.ofNames slot.types, slot.isOptional⟩
    rest := none
    named := s.named.map fun (name, types) => ⟨name, .ofNames types, false⟩
    namedRest := none
    returns := match s.returns with
      | .self => .self
      | .union types => .ofNames types }

/-- The text of an inferred signature with its method. -/
def text (s : UsageProfile) : String :=
  s.describe ++ ": " ++ s.toSignature.text

/-- All types that occur in an inferred signature. -/
def references (s : UsageProfile) : List TypeName :=
  s.positional.flatMap (·.types) ++ s.named.flatMap (·.2)
    ++ (match s.returns with
      | .self => []
      | .union types => types)

end UsageProfile

namespace Inference

/-- The slot at an index of several argument lists. -/
def slotAt (rows : List (List Value)) (index : Nat) : Slot :=
  { types := sortedNames (rows.filterMap fun row => row[index]?.bind Value.sampledType?)
    isOptional := rows.any fun row => row.length ≤ index }

/-- The length of the longest of several argument lists. -/
def width (rows : List (List Value)) : Nat :=
  rows.foldl (fun n row => max n row.length) 0

/-- The types seen under each keyword. -/
def keywordTypes (entries : List (Value × Value)) : List (String × List TypeName) :=
  (sortedNames (entries.map (Signature.keyName ·.1))).map fun name =>
    (name, sortedNames ((entries.filter (Signature.keyName ·.1 == name)).filterMap
      (·.2.sampledType?)))

/-- The types of the results of the calls that did not raise. -/
def resultTypes (calls : List Call) : List TypeName :=
  sortedNames ((calls.filter (·.raised.isNone)).filterMap (·.resultOrNil.sampledType?))

/-- The signature inferred from the calls of one method. -/
def ofGroup (key : MethodRef) (calls : List Call) : Except Fault UsageProfile := do
  let rows ← calls.mapM (·.positional)
  return {
    target := key.1
    method := key.2
    positional := (List.range (width rows)).map (slotAt rows)
    named := keywordTypes (calls.flatMap (·.named))
    returns := if key.2 == constructorName then .self else .union (resultTypes calls)
    samples := calls.length }

/-- The distinct methods of calls in the order of their first occurrence. -/
def methods (calls : List Call) : List MethodRef :=
  (calls.map (·.key)).eraseDups

/-- The signatures inferred from calls, one for each method. -/
def infer (calls : List Call) : Except Fault (List UsageProfile) :=
  (methods calls).mapM fun key => ofGroup key (calls.filter (·.key == key))

/-- The types in inferred signatures that are not known without a declaration, in ascending
order. -/
def customTypes (signatures : List UsageProfile) : List TypeName :=
  sortedNames ((signatures.flatMap (·.references)).filter (!TypeName.isBuiltin ·))

end Inference

end MockAudit
