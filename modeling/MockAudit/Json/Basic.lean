/-!
# JSON documents

A document as it is written: numbers keep their text, and members keep their order and may repeat.
-/

namespace MockAudit

/-- A JSON document. -/
inductive Json
  | null
  | bool (b : Bool)
  /-- A number by its text. -/
  | number (text : List Char)
  | string (content : String)
  | array (items : List Json)
  | object (members : List (String × Json))

namespace Json

/-- The document of an integer. -/
def ofInt (i : Int) : Json :=
  .number (if i < 0 then '-' :: Nat.toDigits 10 i.natAbs else Nat.toDigits 10 i.natAbs)

end Json

end MockAudit
