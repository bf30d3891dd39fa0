import MockAudit.Call.Basic
import MockAudit.Error
import MockAudit.Text.PatternParser

/-!
# Artifacts of mocking

A captured call tells nothing about real behaviour if a stub answered it, if it comes from an
ignored location, or if a test double flows through it as result or argument. Only the top level
of the arguments is looked at.
-/

namespace MockAudit

/-- The location of implementations installed by stubs. -/
def stubLocation : String := "<doublecheck:stub>"

/-- Further locations whose calls are not taken as real. -/
structure ArtifactFilter where
  ignored : List Text.Pattern

namespace ArtifactFilter

/-- The filter without further locations. -/
def standard : ArtifactFilter := ⟨[]⟩

/-- Reads the patterns of further locations. -/
def ofPatterns? (patterns : List String) : Option ArtifactFilter :=
  (patterns.mapM Text.Pattern.parse?).map (⟨·⟩)

/-- Whether calls from a location are never real. -/
def ignoresLocation (f : ArtifactFilter) (location : String) : Bool :=
  location == stubLocation || f.ignored.any (·.isFoundIn location)

/-- Whether a test double flows through a call. -/
def carriesDouble (c : Call) : Except Fault Bool := do
  let positional ← c.positional
  return c.resultOrNil.isDouble || positional.any (·.isDouble) || c.named.any (·.2.isDouble)

/-- Whether a call is an artifact of mocking. The location and the result are looked at before the
arguments. -/
def isArtifact (f : ArtifactFilter) (c : Call) : Except Fault Bool :=
  if c.location.any f.ignoresLocation || c.resultOrNil.isDouble then .ok true
  else carriesDouble c

/-- The calls that are no artifacts, in order. -/
def keepReal (f : ArtifactFilter) : List Call → Except Fault (List Call)
  | [] => .ok []
  | c :: cs => do
    let artifact ← f.isArtifact c
    let rest ← f.keepReal cs
    return if artifact then rest else c :: rest

end ArtifactFilter

end MockAudit
