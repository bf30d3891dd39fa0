import MockAudit.Catalog
import MockAudit.Error
import MockAudit.Log
import MockAudit.Signature.Inference
import MockAudit.Signature.Parser

/-!
# Type checkers

A checker knows signatures of methods and checks calls against them. Signatures annotated in the
audited program, or declared in signature files, come first; signatures inferred from real calls
serve for the methods nothing else is known of.
-/

namespace MockAudit

/-- Where authoritative signatures come from. -/
inductive CheckerKind
  /-- Signature files. -/
  | signatures
  /-- Annotations of the audited program. -/
  | annotations
deriving DecidableEq

namespace CheckerKind

/-- The name of a kind of checker. -/
def name : CheckerKind → String
  | signatures => "signatures"
  | annotations => "annotations"

/-- All kinds of checkers. -/
def all : List CheckerKind := [signatures, annotations]

/-- The kind of checker with a name. -/
def ofName (name : String) : Except ConfigurationFault CheckerKind :=
  match all.find? (·.name == name) with
  | some kind => .ok kind
  | none => .error (.unknownChecker name)

end CheckerKind

/-- What a checker sees of the audited program. -/
structure Environment where
  hierarchy : Hierarchy
  annotated? : Target → String → Option Signature
  knows : TypeName → Bool

/-- The view of a catalog that a checker has. -/
def Catalog.environment (c : Catalog) : Environment :=
  { hierarchy := c.hierarchy, annotated? := c.annotated?, knows := c.knows }

/-- Signatures by method. -/
abbrev SignatureTable := MethodRef → Option Signature

namespace SignatureTable

/-- The table without signatures. -/
def empty : SignatureTable := fun _ => none

/-- The table with the signature of one method replaced. -/
def store (table : SignatureTable) (key : MethodRef) (s : Signature) : SignatureTable :=
  fun k => if k = key then some s else table k

/-- The table with the signatures of several methods replaced one after the other. -/
def storeAll (table : SignatureTable) (entries : List (MethodRef × Signature)) :
    SignatureTable :=
  entries.foldl (fun t (key, s) => t.store key s) table

end SignatureTable

/-- The declarations read from signature files. -/
structure Declarations where
  declared : SignatureTable := SignatureTable.empty
  inferred : SignatureTable := SignatureTable.empty
  /-- The superclass, if any, given to each declared type. -/
  types : TypeName → Option (Option TypeName) := fun _ => none

/-- A source of signatures. -/
inductive Checker
  | annotations (inferred : SignatureTable)
  | signatures (declarations : Declarations)

namespace Declarations

/-- The declared signature of a method, or else the inferred one. -/
def signature? (d : Declarations) (key : MethodRef) : Option Signature :=
  (d.declared key).or (d.inferred key)

/-- The hierarchy in which declared superclasses come first. -/
def hierarchy (d : Declarations) (env : Environment) : Hierarchy :=
  Hierarchy.layered (fun t => (d.types t).join) env.hierarchy

/-- Whether a type is known to the program or declared with the signatures. -/
def knows (d : Declarations) (env : Environment) (name : TypeName) : Bool :=
  env.knows name || (d.types name).isSome

/-- Declares the signature of a method. -/
def declare (d : Declarations) (key : MethodRef) (s : Signature) : Declarations :=
  { d with declared := d.declared.store key s }

end Declarations

namespace Checker

/-- A checker without signatures of its own. -/
def fresh : CheckerKind → Checker
  | .signatures => .signatures {}
  | .annotations => .annotations SignatureTable.empty

/-- The kind of a checker. -/
def kind : Checker → CheckerKind
  | annotations _ => .annotations
  | signatures _ => .signatures

/-- The signature a checker knows of a method. -/
def signature? (checker : Checker) (env : Environment) (key : MethodRef) : Option Signature :=
  match checker with
  | annotations inferred => (env.annotated? key.1 key.2).or (inferred key)
  | signatures d => d.signature? key

/-- The hierarchy in which a checker compares types. -/
def hierarchy (checker : Checker) (env : Environment) : Hierarchy :=
  match checker with
  | annotations _ => env.hierarchy
  | signatures d => d.hierarchy env

/-- What the user may do about a missing signature. -/
def hint : CheckerKind → String
  | .annotations => "Annotate the method or set raise_on_missing_types = false"
  | .signatures => "Declare it in a signature file or set raise_on_missing_types = false"

/-- Checks a call. A missing signature counts as a failure only if `strict`. -/
def check (checker : Checker) (env : Environment) (c : Call) (strict : Bool) :
    Except Fault (Option TypeFailure) := do
  match checker.signature? env c.key with
  | some s => return (← s.check c (checker.hierarchy env)).map .mismatch
  | none =>
    return if strict then some (.missing c.describe (some (hint checker.kind))) else none

/-- The lines logged when a call is checked. -/
def checkLog (checker : Checker) (c : Call) (strict : Bool) : List LogLine :=
  match checker with
  | annotations _ => []
  | signatures d =>
    if (d.signature? c.key).isNone && !strict then
      [.debug ("No signature for " ++ c.describe ++ ", skipping")]
    else []

/-- Makes inferred signatures known. Methods with a declared signature keep it. -/
def learn (checker : Checker) (inferred : List UsageProfile) : Checker :=
  match checker with
  | annotations table =>
    .annotations (table.storeAll (inferred.map fun s => (s.key, s.toSignature)))
  | signatures d =>
    let unshadowed := inferred.filter fun s => (d.declared s.key).isNone
    .signatures { d with
      inferred := d.inferred.storeAll (unshadowed.map fun s => (s.key, s.toSignature)) }

/-- The lines logged when inferred signatures are made known. -/
def learnLog (checker : Checker) (env : Environment) (inferred : List UsageProfile) :
    List LogLine :=
  match checker with
  | annotations _ =>
    [.debug ("Loaded " ++ toString inferred.length ++ " inferred signature(s)")]
  | signatures d =>
    let shadowed := inferred.countP fun s => (d.declared s.key).isSome
    let unknown := (Inference.customTypes inferred).filter (!d.knows env ·)
    unknown.map (fun t => .debug ("Inferred signatures reference undeclared type `" ++ t ++ "`"))
      ++ [.debug ("Loaded " ++ toString (inferred.length - shadowed)
        ++ " inferred signature(s), " ++ toString shadowed ++ " shadowed by declarations")]

end Checker

end MockAudit
