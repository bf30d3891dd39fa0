import MockAudit.Json.Writer
import MockAudit.Signature.File

/-!
# Listings of inferred signatures

Inferred signatures are listed as a signature file, or as data with the number of calls each of
them rests on.
-/

namespace MockAudit

/-- The form of a listing. -/
inductive ListingFormat
  /-- A signature file. -/
  | toml
  /-- A list with one object for each method. -/
  | json
deriving DecidableEq

namespace ListingFormat

/-- The name of a format. -/
def name : ListingFormat → String
  | toml => "toml"
  | json => "json"

/-- All formats. -/
def all : List ListingFormat := [toml, json]

/-- The format with a name. -/
def ofName? (name : String) : Option ListingFormat :=
  all.find? (·.name == name)

end ListingFormat

/-- The data of an inferred signature. -/
def UsageProfile.toJson (s : UsageProfile) : Json :=
  .object [("method", .string s.describe), ("signature", .string s.toSignature.text),
    ("samples", .ofInt s.samples)]

/-- The listing of inferred signatures. Types are listed with the superclasses the catalog
knows. -/
def ListingFormat.render (format : ListingFormat) (signatures : List UsageProfile)
    (catalog : Catalog) : String :=
  match format with
  | toml => (DeclarationFile.ofInferred signatures catalog).write
  | json => (Json.array (signatures.map (·.toJson))).prettyText

end MockAudit
