/-!
# Phases of an audit

An audit passes through its phases in a fixed order and may leave out the optional ones.
-/

namespace MockAudit

/-- The phases of one run, earliest first. -/
inductive Phase
  | idle
  | collecting
  | draining
  | typeChecking
  | contractVerifying
  | reported
deriving DecidableEq

namespace Phase

/-- The position of a phase in the order. -/
def rank : Phase → Nat
  | idle => 0
  | collecting => 1
  | draining => 2
  | typeChecking => 3
  | contractVerifying => 4
  | reported => 5

/-- The name of a phase. -/
def name : Phase → String
  | idle => "idle"
  | collecting => "collecting"
  | draining => "draining"
  | typeChecking => "type_checking"
  | contractVerifying => "contract_verifying"
  | reported => "reported"

/-- All phases in order. -/
def all : List Phase :=
  [idle, collecting, draining, typeChecking, contractVerifying, reported]

/-- Whether a phase may be entered from another, which holds of the strictly later ones. -/
def mayEnter (now next : Phase) : Bool :=
  now.rank < next.rank

end Phase

end MockAudit
