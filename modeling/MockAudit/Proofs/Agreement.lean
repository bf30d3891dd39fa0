import MockAudit.Proofs.Binding
import MockAudit.Proofs.Correlation
import MockAudit.Tracing.Filter

/-!
# Agreeing records

Two records of one call *agree* (`Call.Agrees`) if they say the same about it: what was called with
which arguments, what came of it, where and when. They need not hold the arguments in the same form:
one may keep them as they were given, together with the shape of the method, and the other as they
were rebuilt from a binding.

Records that agree at the begin of a call agree after its end, whatever the outcome
(`Call.Agrees.ended`), and a filter takes both as real or neither
(`ArtifactFilter.keepReal_agrees`).
-/

namespace MockAudit

/-- Two records say the same about a call; the named arguments may be in different orders. -/
structure Call.Agrees (r r' : Call) : Prop where
  target : r.target = r'.target
  method : r.method = r'.method
  positional : ∃ vs, r.positional = .ok vs ∧ r'.positional = .ok vs
  hasNamed : r.hasNamed = r'.hasNamed
  named : r.named.Perm r'.named
  result : r.result = r'.result
  raised : r.raised = r'.raised
  location : r.location = r'.location
  testCase : r.testCase = r'.testCase

/-! ### Begin and end of a call -/

/-- If the arguments fit the method, the record that keeps them with the shape of the method agrees
with the record rebuilt from their binding. -/
theorem Shape.Fits.agrees {shape : Shape} {args : List Value} (h : shape.Fits args)
    (target : Target) (method location : String) (testCase : Option String) :
    Call.Agrees
      { target, method, arguments := args, shape := some shape
        location := some location, testCase }
      (Capture.recordOf target method (shape.bind args) location testCase) := by
  obtain ⟨hpositional, hnamed⟩ := h.unbind_bind
  obtain ⟨hp, hn, hf⟩ := Call.arguments_of_shape
    (c := { target, method, arguments := args, shape := some shape
            location := some location, testCase }) rfl rfl
  obtain ⟨hp', hn', hf'⟩ :=
    Call.arguments_recordOf target method (shape.bind args) location testCase
  refine ⟨rfl, rfl, ⟨_, hp, hpositional ▸ hp'⟩, ?_, ?_, rfl, rfl, rfl, rfl⟩
  · rw [hf, hf', hnamed.isEmpty_eq]
  · rw [hn, hn']
    exact hnamed.symm

namespace Capture

/-- The end of a call changes nothing but the result and the error of its record. -/
theorem ended_eq (c : Call) (o : Outcome) :
    ended c o = { c with result := (ended c o).result, raised := (ended c o).raised } := by
  cases o with
  | raised e => rfl
  | returned v =>
    simp only [ended, settle]
    split_ifs with h
    · rfl
    · cases hresult : c.result with
      | none => simp only [Call.complete?, hresult, Option.getD_some]
      | some w =>
        simp only [Call.complete?, hresult, Option.getD_none]
        rw [← hresult]

/-- The error in a record after the end of its call. -/
theorem raised_ended (c : Call) (o : Outcome) :
    (ended c o).raised = match o with
      | .returned _ => c.raised
      | .raised e => some e.text := by
  cases o with
  | raised e => rfl
  | returned v =>
    simp only [ended, settle]
    split_ifs with h
    · rfl
    · cases hresult : c.result <;> simp [Call.complete?, hresult]

/-- The result in a record after the end of its call. -/
theorem result_ended (c : Call) (o : Outcome) :
    (ended c o).result = match o with
      | .returned v => if c.isConstructor then c.result else some (c.result.getD v)
      | .raised _ => c.result := by
  cases o with
  | raised e => rfl
  | returned v =>
    simp only [ended, settle]
    split_ifs with h
    · rfl
    · cases hresult : c.result <;> simp [Call.complete?, hresult]

end Capture

/-- Records that agree go on agreeing when their call ends. -/
theorem Call.Agrees.ended {r r' : Call} (h : r.Agrees r') (o : Outcome) :
    (Capture.ended r o).Agrees (Capture.ended r' o) := by
  have hconstructor : r.isConstructor = r'.isConstructor := by
    rw [isConstructor, h.method, isConstructor]
  have hresult : (Capture.ended r o).result = (Capture.ended r' o).result := by
    rw [Capture.result_ended, Capture.result_ended, hconstructor, h.result]
  have hraised : (Capture.ended r o).raised = (Capture.ended r' o).raised := by
    rw [Capture.raised_ended, Capture.raised_ended, h.raised]
  rw [Capture.ended_eq r, Capture.ended_eq r']
  exact ⟨h.target, h.method, h.positional, h.hasNamed, h.named, hresult, hraised, h.location,
    h.testCase⟩

/-- Lists that correspond one by one still do after a step at one position that keeps what
corresponds. -/
theorem forall₂_modify {α β : Type*} {R : α → β → Prop} {f : α → α} {g : β → β}
    (hstep : ∀ a b, R a b → R (f a) (g b)) {as : List α} {bs : List β}
    (h : List.Forall₂ R as bs) (index : Nat) :
    List.Forall₂ R (as.modify index f) (bs.modify index g) := by
  induction h generalizing index with
  | nil => simp
  | cons hab hrest ih =>
    cases index with
    | zero => exact .cons (hstep _ _ hab) hrest
    | succ index => exact .cons hab (ih index)

/-- Ending the records at a position keeps two lists of records in agreement. -/
theorem forall₂_agrees_modify {records records' : List Call}
    (h : List.Forall₂ Call.Agrees records records') (index : Nat) (o : Outcome) :
    List.Forall₂ Call.Agrees (records.modify index (Capture.ended · o))
      (records'.modify index (Capture.ended · o)) :=
  forall₂_modify (fun _ _ hr => hr.ended o) h index

/-! ### Filtering -/

namespace ArtifactFilter

/-- Of agreeing records both are artifacts or neither is. -/
theorem isArtifact_of_agrees (f : ArtifactFilter) {r r' : Call} (h : r.Agrees r') :
    ∃ artifact, f.isArtifact r = .ok artifact ∧ f.isArtifact r' = .ok artifact := by
  obtain ⟨vs, hr, hr'⟩ := h.positional
  have hresult : r.resultOrNil = r'.resultOrNil := by
    rw [Call.resultOrNil, h.result, Call.resultOrNil]
  have hnamed : r.named.any (·.2.isDouble) = r'.named.any (·.2.isDouble) := h.named.any_eq
  have hcarries : carriesDouble r = carriesDouble r' := by
    rw [carriesDouble, hr, hresult, hnamed, carriesDouble, hr']
  have heq : f.isArtifact r = f.isArtifact r' := by
    rw [isArtifact, h.location, hresult, hcarries, isArtifact]
  rw [heq, isArtifact, carriesDouble, hr']
  split_ifs
  · exact ⟨_, rfl, rfl⟩
  · exact ⟨_, rfl, rfl⟩

/-- A filter keeps corresponding records of two lists that agree. -/
theorem keepReal_agrees (f : ArtifactFilter) {records records' : List Call}
    (h : List.Forall₂ Call.Agrees records records') :
    ∃ calls calls', f.keepReal records = .ok calls ∧ f.keepReal records' = .ok calls' ∧
      List.Forall₂ Call.Agrees calls calls' := by
  induction h with
  | nil => exact ⟨[], [], rfl, rfl, .nil⟩
  | cons hr hrs ih =>
    obtain ⟨calls, calls', hcalls, hcalls', hagree⟩ := ih
    obtain ⟨artifact, hartifact, hartifact'⟩ := f.isArtifact_of_agrees hr
    rw [keepReal, hartifact, hcalls, keepReal, hartifact', hcalls']
    cases artifact with
    | true => exact ⟨calls, calls', rfl, rfl, hagree⟩
    | false => exact ⟨_, _, rfl, rfl, .cons hr hagree⟩

end ArtifactFilter

end MockAudit
