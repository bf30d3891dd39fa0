import MockAudit.Checker.Basic
import MockAudit.Tracing.Filter

/-!
# Flags for named arguments

The named flag of a record says that its last argument holds the named arguments. Nothing but the
record itself makes sure that there is a last argument. A record without one has no positional
arguments, and this is the only way in which checking or filtering a call can fail to give an
answer.

## Main definitions

* `Call.IsWellFlagged`: a record whose named flag is not set over an empty argument list.
* `Signature.takesLast`: whether the last argument is taken for the named arguments.

## Main results

* `Call.isWellFlagged_iff`: these are the records with positional arguments.
* `Signature.separateArguments_eq`: their arguments are separated before the last one or not at all.
* `Signature.exists_check`, `Checker.exists_check`, `Call.isWellFlagged_of_check`: they can be
  checked, and no others.
* `ArtifactFilter.exists_isArtifact`, `ArtifactFilter.exists_keepReal`: they can be filtered.
-/

namespace MockAudit

namespace Call

/-- A record whose named flag is not set over an empty argument list. -/
def IsWellFlagged (c : Call) : Prop :=
  c.namedFlag = some true → c.arguments ≠ []

/-- **Positional arguments** are defined exactly for the well-flagged records. -/
theorem isWellFlagged_iff {c : Call} : c.IsWellFlagged ↔ ∃ vs, c.positional = .ok vs := by
  constructor
  · intro h
    cases hflag : c.namedFlag with
    | none => exact positional_of_namedFlag_none hflag
    | some flag =>
      have hnamed : c.hasNamed = flag := by rw [hasNamed, hflag, Option.getD_some]
      cases flag with
      | false => exact ⟨_, by rw [positional, hnamed]; rfl⟩
      | true => exact ⟨_, by rw [positional, hnamed, if_pos rfl, if_neg (by simp [h hflag])]⟩
  · rintro ⟨vs, hvs⟩ hflag harguments
    rw [positional, hasNamed, hflag, harguments] at hvs
    cases hvs

/-- The entries that the last argument of a call holds, if it is a map. -/
def lastEntries (c : Call) : List (Value × Value) :=
  (c.arguments.getLast?.bind Value.entries?).getD []

end Call

variable {c : Call} {cs : List Call}

namespace ArtifactFilter

/-- A well-flagged call is an artifact or not. -/
theorem exists_isArtifact (f : ArtifactFilter) (h : c.IsWellFlagged) :
    ∃ artifact, f.isArtifact c = .ok artifact := by
  obtain ⟨vs, hvs⟩ := Call.isWellFlagged_iff.mp h
  rw [isArtifact]
  split
  · exact ⟨true, rfl⟩
  · rw [carriesDouble, hvs]
    exact ⟨_, rfl⟩

/-- Well-flagged calls can be filtered. -/
theorem exists_keepReal (f : ArtifactFilter) (h : ∀ c ∈ cs, c.IsWellFlagged) :
    ∃ kept, f.keepReal cs = .ok kept := by
  induction cs with
  | nil => exact ⟨[], rfl⟩
  | cons c cs ih =>
    obtain ⟨hc, hcs⟩ := List.forall_mem_cons.mp h
    obtain ⟨artifact, hartifact⟩ := f.exists_isArtifact hc
    obtain ⟨kept, hkept⟩ := ih hcs
    rw [keepReal, hartifact, hkept]
    exact ⟨_, rfl⟩

end ArtifactFilter

namespace Signature

/-- Whether the last argument of a call is taken for its named arguments. -/
def takesLast (s : Signature) (c : Call) : Bool :=
  c.hasNamed || s.acceptsNamed && s.rest.isNone && s.positional.length < c.arguments.length &&
    c.arguments.getLast?.any Value.isNamedArguments

/-- The arguments of a well-flagged call are its positional ones, unless the last of them is taken
for its named arguments. -/
theorem separateArguments_eq (s : Signature) (h : c.IsWellFlagged) : s.separateArguments c =
    .ok (if s.takesLast c then (c.arguments.dropLast, c.lastEntries) else (c.arguments, [])) := by
  rw [separateArguments, takesLast]
  cases hnamed : c.hasNamed with
  | true =>
    obtain ⟨vs, hvs⟩ := Call.isWellFlagged_iff.mp h
    rw [if_pos rfl, Bool.true_or, if_pos rfl, Call.named, if_pos hnamed]
    rw [Call.positional, if_pos hnamed] at hvs ⊢
    cases hempty : c.arguments.isEmpty with
    | true =>
      rw [hempty] at hvs
      cases hvs
    | false => rfl
  | false =>
    rw [if_neg Bool.false_ne_true, Bool.false_or, Call.lastEntries]
    split
    · rename_i entries hlast
      rw [hlast, Option.any_some, Option.bind_some]
      exact (apply_ite Except.ok _ _ _).symm
    · rename_i hlast
      have hform : c.arguments.getLast?.any Value.isNamedArguments = false := by
        cases hv : c.arguments.getLast? with
        | none => rfl
        | some v => cases v with
          | map entries => exact (hlast entries hv).elim
          | _ => rfl
      rw [hform, Bool.and_false, if_neg Bool.false_ne_true]

/-- The arguments of a well-flagged call can be separated, whatever the signature. -/
theorem exists_separateArguments (s : Signature) (h : c.IsWellFlagged) :
    ∃ vs entries, s.separateArguments c = .ok (vs, entries) :=
  ⟨_, _, s.separateArguments_eq h⟩

/-- A well-flagged call can be checked against any signature. -/
theorem exists_check (s : Signature) (hierarchy : Hierarchy) (h : c.IsWellFlagged) :
    ∃ result, s.check c hierarchy = .ok result := by
  obtain ⟨vs, entries, harguments⟩ := s.exists_separateArguments h
  rw [check, violations, harguments]
  simp only [bind, Except.bind, pure, Except.pure]
  split
  · exact ⟨_, rfl⟩
  · exact ⟨_, rfl⟩

end Signature

/-- A call that can be checked against one signature is well-flagged. -/
theorem Call.isWellFlagged_of_check {s : Signature} {h : Hierarchy} {result : Option Mismatch}
    (hcheck : s.check c h = .ok result) : c.IsWellFlagged := by
  intro hflag harguments
  have hnamed : c.hasNamed = true := by rw [Call.hasNamed, hflag, Option.getD_some]
  have hpositional : c.positional = .error .namedFlagWithoutArguments := by
    rw [Call.positional, if_pos hnamed, harguments]
    rfl
  rw [Signature.check, Signature.violations, Signature.separateArguments, if_pos hnamed,
    hpositional] at hcheck
  cases hcheck

/-- A checker has a verdict on every well-flagged call. -/
theorem Checker.exists_check (checker : Checker) (env : Environment) (strict : Bool)
    (h : c.IsWellFlagged) : ∃ verdict, checker.check env c strict = .ok verdict := by
  rw [check]
  split
  · rename_i s _
    obtain ⟨result, hresult⟩ := s.exists_check (checker.hierarchy env) h
    rw [hresult]
    exact ⟨_, rfl⟩
  · exact ⟨_, rfl⟩

end MockAudit
