import MockAudit.Tracing.Filter
import Mathlib.Data.List.Forall2
import Mathlib.Tactic.SplitIfs

/-!
# What filters keep

A filter keeps exactly the calls whose location it does not ignore and through which no test double
flows (`ArtifactFilter.isArtifact_eq_false_iff`), in order (`ArtifactFilter.keepReal_eq_filter`).
What is known about all calls of a list, one by one, is still known about those that are kept
(`ArtifactFilter.keepReal_forall₂`).
-/

namespace MockAudit

/-- No test double flows through a call, neither as result nor as argument. Its positional arguments
are defined: if its last argument is marked as named, there is one. -/
structure Call.IsDoubleFree (c : Call) : Prop where
  result : c.resultOrNil.isDouble = false
  positional : ∃ vs, c.positional = .ok vs ∧ ∀ v ∈ vs, v.isDouble = false
  named : ∀ e ∈ c.named, e.2.isDouble = false

namespace ArtifactFilter

/-- A call is real for a filter if the filter does not ignore its location and no double flows
through it. -/
theorem isArtifact_eq_false_iff {f : ArtifactFilter} {c : Call} :
    f.isArtifact c = .ok false ↔
      (∀ location, c.location = some location → f.ignoresLocation location = false) ∧
        c.IsDoubleFree := by
  rw [isArtifact, carriesDouble]
  constructor
  · intro h
    split_ifs at h with hignored
    · cases h
    · rw [Bool.or_eq_true, not_or, Bool.not_eq_true, Bool.not_eq_true] at hignored
      obtain ⟨vs, hpositional, hfree⟩ := exists_of_bind_eq_ok h
      have hnone : (c.resultOrNil.isDouble || vs.any (·.isDouble) ||
          c.named.any (·.2.isDouble)) = false := Except.ok.inj hfree
      simp only [Bool.or_eq_false_iff, List.any_eq_false, Bool.not_eq_true] at hnone
      refine ⟨fun location hlocation => ?_, hnone.1.1, ⟨vs, hpositional, hnone.1.2⟩, hnone.2⟩
      simpa [hlocation] using hignored.1
  · rintro ⟨hlocation, hresult, ⟨vs, hpositional, hvs⟩, hnamed⟩
    have hignored : c.location.any f.ignoresLocation = false := by
      cases hl : c.location with
      | none => rfl
      | some location => exact hlocation location hl
    have hany : vs.any (·.isDouble) = false := by simpa using hvs
    have hany' : c.named.any (·.2.isDouble) = false := by simpa using hnamed
    rw [hignored, hresult, hpositional]
    simp only [Bool.or_false, Bool.false_eq_true, if_false]
    change Except.ok (false || vs.any (·.isDouble) || c.named.any (·.2.isDouble)) = _
    rw [hany, hany']
    rfl

/-- What corresponds to the calls of a list one by one corresponds to those that are kept, and none
of them is an artifact. -/
theorem keepReal_forall₂ {α : Type*} {R : α → Call → Prop} {f : ArtifactFilter} {as : List α}
    {records calls : List Call} (h : List.Forall₂ R as records)
    (hkeep : f.keepReal records = .ok calls) :
    ∃ kept, kept.Sublist as ∧
      List.Forall₂ (fun a c => R a c ∧ f.isArtifact c = .ok false) kept calls := by
  induction h generalizing calls with
  | nil =>
    cases hkeep
    exact ⟨[], .slnil, .nil⟩
  | @cons a c as records hac h ih =>
    obtain ⟨artifact, hartifact, hnext⟩ := exists_of_bind_eq_ok hkeep
    obtain ⟨rest, hrest, hresult⟩ := exists_of_bind_eq_ok hnext
    obtain ⟨kept, hsublist, hkept⟩ := ih hrest
    cases artifact with
    | true =>
      cases hresult
      exact ⟨kept, hsublist.cons a, hkept⟩
    | false =>
      cases hresult
      exact ⟨a :: kept, hsublist.cons_cons a, .cons ⟨hac, hartifact⟩ hkept⟩

/-- Whether a filter takes a call as real. -/
def isReal (f : ArtifactFilter) (c : Call) : Bool :=
  match f.isArtifact c with
  | .ok artifact => !artifact
  | .error _ => false

/-- **Filtering** keeps the real calls, each as often as it is in the list and in order. -/
theorem keepReal_eq_filter {f : ArtifactFilter} {records calls : List Call}
    (hkeep : f.keepReal records = .ok calls) : calls = records.filter f.isReal := by
  induction records generalizing calls with
  | nil =>
    cases hkeep
    rfl
  | cons c records ih =>
    obtain ⟨artifact, hartifact, hnext⟩ := exists_of_bind_eq_ok hkeep
    obtain ⟨rest, hrest, hresult⟩ := exists_of_bind_eq_ok hnext
    have hreal : f.isReal c = !artifact := by rw [isReal, hartifact]
    obtain rfl := ih hrest
    rw [List.filter_cons, hreal]
    cases artifact <;> exact (Except.ok.inj hresult).symm

/-- The calls that are kept are in the list, in order. -/
theorem sublist_of_keepReal {f : ArtifactFilter} {records calls : List Call}
    (hkeep : f.keepReal records = .ok calls) : calls.Sublist records := by
  rw [keepReal_eq_filter hkeep]
  exact List.filter_sublist

end ArtifactFilter

end MockAudit
