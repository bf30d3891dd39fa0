import MockAudit.Proofs.ArgumentMatching
import Mathlib.Data.List.Basic
import Mathlib.Data.List.Induction

/-!
# Verdicts on contracts

The check of a contract passes three stages: there are real calls, some of them have the arguments
of the pattern, and one of these has a result of the promised type. Each real call carries the check
up to a stage of its own, whatever the other calls are (`Contract.progress`), and the verdict is
that of the call which carries it furthest (`Contract.progress_le_stage`,
`Contract.exists_progress_eq_stage`). So the verdict does not depend on the order of the real calls
or on their number, and further calls never take it back.

A check that fails shows the calls it has come to: all of them, or those with the arguments of the
pattern. It gives each line of evidence once, where it occurs first.

## Main definitions

* `FirstOccurrences`: the members of a list without repetitions, in the order in which they occur.
* `Contract.Judged`: what may come out of a check, and when.
* `Contract.stage`, `Contract.progress`: how far a check has come, and how far a call carries it.

## Main results

* `firstOccurrences_eraseDups`: removing repetitions keeps the first occurrences.
* `Contract.judged_verify`: the cases of a check.
* `Contract.stage_verify_mono`: further calls never take a verdict back.
* `Contract.verify_grows`: the verdicts, what they depend on, and their evidence.
-/

namespace MockAudit

/-! ### First occurrences -/

/-- The first list has the members of the second, each of them once, in the order in which they
occur first. -/
structure FirstOccurrences {α : Type} [BEq α] (distinct all : List α) : Prop where
  nodup : distinct.Nodup
  mem_iff : ∀ a, a ∈ distinct ↔ a ∈ all
  ordered : distinct.Pairwise fun a b => all.idxOf a < all.idxOf b

/-- What is left when repetitions are removed comes in the order of first occurrence. -/
theorem pairwise_idxOf_eraseDups {α : Type} [BEq α] [LawfulBEq α] (all : List α) :
    all.eraseDups.Pairwise fun a b => all.idxOf a < all.idxOf b := by
  induction all using List.reverseRecOn with
  | nil => exact .nil
  | append_singleton all a ih =>
    have hold : all.eraseDups.Pairwise fun b c => (all ++ [a]).idxOf b < (all ++ [a]).idxOf c := by
      refine ih.imp_of_mem fun hb hc hbc => ?_
      rwa [List.idxOf_append_of_mem (List.mem_eraseDups.mp hb),
        List.idxOf_append_of_mem (List.mem_eraseDups.mp hc)]
    rw [List.eraseDups_append]
    by_cases ha : a ∈ all
    · rw [show [a].removeAll all = [] by simp [List.removeAll, ha]]
      simpa using hold
    · rw [show [a].removeAll all = [a] by simp [List.removeAll, ha]]
      refine List.pairwise_append.mpr ⟨hold, by simp [List.eraseDups_cons], fun b hb c hc => ?_⟩
      have hb : b ∈ all := List.mem_eraseDups.mp hb
      obtain rfl : c = a := by simpa [List.eraseDups_cons] using hc
      rw [List.idxOf_append_of_mem hb, List.idxOf_append_of_notMem ha]
      exact Nat.lt_add_right _ (List.idxOf_lt_length_of_mem hb)

theorem firstOccurrences_eraseDups {α : Type} [BEq α] [LawfulBEq α] (all : List α) :
    FirstOccurrences all.eraseDups all where
  nodup := (pairwise_idxOf_eraseDups all).imp fun hlt heq => by
    rw [heq] at hlt
    exact Nat.lt_irrefl _ hlt
  mem_iff _ := List.mem_eraseDups
  ordered := pairwise_idxOf_eraseDups all

namespace Contract

/-! ### Slots -/

/-- Each place of a pattern is paired with the argument there, or with nil if there is none. -/
theorem slots_eq_mapIdx (pattern : List ArgumentPattern) (args : List Value) :
    slots pattern args = pattern.mapIdx fun i p => (p, args[i]?.getD .nil) := by
  induction pattern generalizing args with
  | nil => rfl
  | cons p ps ih => cases args with
    | nil => rw [slots, ih, List.mapIdx_cons]; rfl
    | cons v vs => rw [slots, ih, List.mapIdx_cons]; rfl

/-- A contract admits a call if each place of the pattern admits the argument there. -/
theorem admits_iff {c : Contract} {call : Call} :
    c.admits call = true ↔
      ∀ (i : Nat) p, c.pattern[i]? = some p → p.admits (call.arguments[i]?.getD .nil) = true := by
  rw [admits, slots_eq_mapIdx, List.all_eq_true]
  constructor
  · intro h i p hp
    obtain ⟨hi, rfl⟩ := List.getElem?_eq_some_iff.mp hp
    exact h _ (List.mem_mapIdx.mpr ⟨i, hi, rfl⟩)
  · intro h slot hslot
    obtain ⟨i, hi, rfl⟩ := List.mem_mapIdx.mp hslot
    exact h i _ (List.getElem?_eq_getElem hi)

/-! ### The cases of a check -/

/-- What may come out of a check of a contract, each with the condition under which it does. -/
inductive Judged (c : Contract) (h : Hierarchy) (real : List Call) : Option ContractFailure → Prop
  | noCalls (hreal : real = []) : Judged c h real (some (.noCalls c.describe))
  | noMatchingCalls (hreal : real ≠ []) (hnone : ∀ call ∈ real, ¬c.admits call) :
    Judged c h real (some (.noMatchingCalls c.text (c.evidence real)))
  | noMatchingReturnType {call : Call} (hcall : call ∈ real) (hadmits : c.admits call)
      (hnone : ∀ call ∈ real, c.admits call → ¬c.keeps h call) :
    Judged c h real (some (.noMatchingReturnType c.text (c.evidence (real.filter c.admits))))
  | backed {call : Call} (hcall : call ∈ real) (hadmits : c.admits call)
      (hkeeps : c.keeps h call) : Judged c h real none

theorem judged_verify (c : Contract) (h : Hierarchy) (real : List Call) :
    c.Judged h real (c.verify real h) := by
  rw [verify]
  split
  · next hreal => exact .noCalls (List.isEmpty_iff.mp hreal)
  · next hreal =>
    have hreal : real ≠ [] := fun heq => hreal (List.isEmpty_iff.mpr heq)
    by_cases hfitting : (real.filter c.admits).isEmpty
    · rw [if_pos hfitting]
      exact .noMatchingCalls hreal (List.filter_eq_nil_iff.mp (List.isEmpty_iff.mp hfitting))
    · rw [if_neg hfitting]
      by_cases hkept : (real.filter c.admits).any (c.keeps h)
      · rw [if_pos hkept]
        obtain ⟨call, hcall, hkeeps⟩ := List.any_eq_true.mp hkept
        obtain ⟨hmem, hadmits⟩ := List.mem_filter.mp hcall
        exact .backed hmem hadmits hkeeps
      · rw [if_neg hkept]
        obtain ⟨call, hcall⟩ :=
          List.isEmpty_eq_false_iff_exists_mem.mp (Bool.not_eq_true _ ▸ hfitting)
        obtain ⟨hmem, hadmits⟩ := List.mem_filter.mp hcall
        refine .noMatchingReturnType hmem hadmits fun call hcall hadmits hkeeps => hkept ?_
        exact List.any_eq_true.mpr ⟨call, List.mem_filter.mpr ⟨hcall, hadmits⟩, hkeeps⟩

variable {c : Contract} {h : Hierarchy} {call : Call} {real real' : List Call}
  {outcome : Option ContractFailure}

/-- What is judged so comes out. -/
theorem Judged.verify_eq (hjudged : c.Judged h real outcome) : c.verify real h = outcome := by
  cases hjudged with
  | noCalls hreal => rw [hreal]; rfl
  | noMatchingCalls hreal hnone =>
    exact verify_of_admits_none hreal (fun call hcall => Bool.eq_false_iff.mpr (hnone call hcall)) h
  | noMatchingReturnType hcall hadmits hnone =>
    have hfitting : real.filter c.admits ≠ [] :=
      List.ne_nil_of_mem (List.mem_filter.mpr ⟨hcall, hadmits⟩)
    have hkept : (real.filter c.admits).any (c.keeps h) = false := by
      refine List.any_eq_false.mpr fun call hcall => ?_
      obtain ⟨hmem, hadmits⟩ := List.mem_filter.mp hcall
      exact hnone call hmem hadmits
    simp [verify, List.ne_nil_of_mem hcall, hfitting, hkept]
  | backed hcall hadmits hkeeps =>
    have hfitting := List.mem_filter.mpr ⟨hcall, hadmits⟩
    have hkept : (real.filter c.admits).any (c.keeps h) = true :=
      List.any_eq_true.mpr ⟨_, hfitting, hkeeps⟩
    simp [verify, List.ne_nil_of_mem hcall, List.ne_nil_of_mem hfitting, hkept]

/-- The cases of a check, and nothing else, say what comes out of it. -/
theorem verify_eq_iff : c.verify real h = outcome ↔ c.Judged h real outcome :=
  ⟨fun heq => heq ▸ judged_verify c h real, Judged.verify_eq⟩

/-! ### Stages -/

/-- The number of stages that a check has passed. -/
def stage : Option ContractFailure → Nat
  | some (.noCalls _) => 0
  | some (.noMatchingCalls ..) => 1
  | some (.noMatchingReturnType ..) => 2
  | none => 3

/-- The number of stages that a check passes by one real call. -/
def progress (c : Contract) (h : Hierarchy) (call : Call) : Nat :=
  if c.admits call then if c.keeps h call then 3 else 2 else 1

private theorem progress_of_not_admits (hadmits : ¬c.admits call) : c.progress h call = 1 :=
  if_neg hadmits

private theorem progress_of_not_keeps (hadmits : c.admits call) (hkeeps : ¬c.keeps h call) :
    c.progress h call = 2 := by
  rw [progress, if_pos hadmits, if_neg hkeeps]

private theorem progress_of_keeps (hadmits : c.admits call) (hkeeps : c.keeps h call) :
    c.progress h call = 3 := by
  rw [progress, if_pos hadmits, if_pos hkeeps]

private theorem progress_le_three : c.progress h call ≤ 3 := by
  unfold progress
  split <;> try split
  all_goals decide

private theorem progress_le_two (hkeeps : c.admits call → ¬c.keeps h call) :
    c.progress h call ≤ 2 := by
  by_cases hadmits : c.admits call
  · exact Nat.le_of_eq (progress_of_not_keeps hadmits (hkeeps hadmits))
  · rw [progress_of_not_admits hadmits]
    exact Nat.le_succ 1

/-- No call carries a check further than it comes. -/
theorem progress_le_stage (hcall : call ∈ real) : c.progress h call ≤ stage (c.verify real h) := by
  have hjudged := c.judged_verify h real
  generalize c.verify real h = outcome at hjudged ⊢
  cases hjudged with
  | noCalls hreal => exact absurd (hreal ▸ hcall) List.not_mem_nil
  | noMatchingCalls _ hnone => exact Nat.le_of_eq (progress_of_not_admits (hnone call hcall))
  | noMatchingReturnType _ _ hnone => exact progress_le_two (hnone call hcall)
  | backed => exact progress_le_three

/-- Some call carries a check as far as it comes. -/
theorem exists_progress_eq_stage (hreal : real ≠ []) :
    ∃ call ∈ real, c.progress h call = stage (c.verify real h) := by
  have hjudged := c.judged_verify h real
  generalize c.verify real h = outcome at hjudged ⊢
  cases hjudged with
  | noCalls hnil => exact absurd hnil hreal
  | noMatchingCalls _ hnone =>
    obtain ⟨call, hcall⟩ := List.exists_mem_of_ne_nil real hreal
    exact ⟨call, hcall, progress_of_not_admits (hnone call hcall)⟩
  | noMatchingReturnType hcall hadmits hnone =>
    exact ⟨_, hcall, progress_of_not_keeps hadmits (hnone _ hcall hadmits)⟩
  | backed hcall hadmits hkeeps => exact ⟨_, hcall, progress_of_keeps hadmits hkeeps⟩

/-- Further calls never take a verdict back. -/
theorem stage_verify_mono (hsub : real ⊆ real') :
    stage (c.verify real h) ≤ stage (c.verify real' h) := by
  by_cases hreal : real = []
  · rw [hreal]
    exact Nat.zero_le _
  · obtain ⟨call, hcall, hstage⟩ := exists_progress_eq_stage (c := c) (h := h) hreal
    rw [← hstage]
    exact progress_le_stage (hsub hcall)

/-- The verdict depends on which real calls there are, not on their order and number. -/
theorem stage_verify_congr (hmem : ∀ call, call ∈ real ↔ call ∈ real') :
    stage (c.verify real h) = stage (c.verify real' h) :=
  Nat.le_antisymm (stage_verify_mono fun call => (hmem call).mp)
    (stage_verify_mono fun call => (hmem call).mpr)

/-! ### The verdicts -/

private theorem exists_noCalls_iff :
    (∃ method, c.verify real h = some (.noCalls method)) ↔ real = [] := by
  simp only [verify_eq_iff]
  exact ⟨fun ⟨_, .noCalls hreal⟩ => hreal, fun hreal => ⟨_, .noCalls hreal⟩⟩

private theorem exists_noMatchingCalls_iff :
    (∃ text lines, c.verify real h = some (.noMatchingCalls text lines)) ↔
      real ≠ [] ∧ ∀ call ∈ real, ¬c.admits call := by
  simp only [verify_eq_iff]
  exact ⟨fun ⟨_, _, .noMatchingCalls hreal hnone⟩ => ⟨hreal, hnone⟩,
    fun ⟨hreal, hnone⟩ => ⟨_, _, .noMatchingCalls hreal hnone⟩⟩

private theorem exists_noMatchingReturnType_iff :
    (∃ text lines, c.verify real h = some (.noMatchingReturnType text lines)) ↔
      (∃ call ∈ real, c.admits call) ∧ ∀ call ∈ real, c.admits call → ¬c.keeps h call := by
  simp only [verify_eq_iff]
  exact ⟨fun ⟨_, _, .noMatchingReturnType hcall hadmits hnone⟩ => ⟨⟨_, hcall, hadmits⟩, hnone⟩,
    fun ⟨⟨_, hcall, hadmits⟩, hnone⟩ => ⟨_, _, .noMatchingReturnType hcall hadmits hnone⟩⟩

theorem verify_eq_none_iff :
    c.verify real h = none ↔ ∃ call ∈ real, c.admits call ∧ c.keeps h call := by
  rw [verify_eq_iff]
  exact ⟨fun (.backed hcall hadmits hkeeps) => ⟨_, hcall, hadmits, hkeeps⟩,
    fun ⟨_, hcall, hadmits, hkeeps⟩ => .backed hcall hadmits hkeeps⟩

/-- A check that no call has passed shows the lines of all calls. -/
theorem firstOccurrences_of_noMatchingCalls {text : String} {lines : List String}
    (houtcome : c.verify real h = some (.noMatchingCalls text lines)) :
    FirstOccurrences lines (real.map c.evidenceLine) := by
  cases verify_eq_iff.mp houtcome with
  | noMatchingCalls => exact firstOccurrences_eraseDups _

/-- A check that fails at the results shows the lines of the calls with matching arguments. -/
theorem firstOccurrences_of_noMatchingReturnType {text : String} {lines : List String}
    (houtcome : c.verify real h = some (.noMatchingReturnType text lines)) :
    FirstOccurrences lines ((real.filter c.admits).map c.evidenceLine) := by
  cases verify_eq_iff.mp houtcome with
  | noMatchingReturnType => exact firstOccurrences_eraseDups _

/-- The line of evidence for a call has the arguments at the places of the pattern that expect a
value. -/
theorem evidenceLine_eq (c : Contract) (call : Call) :
    c.evidenceLine call =
      "    (" ++ String.intercalate ", " (c.pattern.mapIdx fun i p =>
        if p.isWildcard then "_" else (call.arguments[i]?.getD .nil).text) ++ ") -> "
        ++ call.resultOrNil.typeName := by
  have hplaces (f : ArgumentPattern × Value → String) :
      (c.pattern.mapIdx fun i p => (p, call.arguments[i]?.getD .nil)).map f =
        c.pattern.mapIdx fun i p => f (p, call.arguments[i]?.getD .nil) :=
    List.ext_getElem (by simp) fun i _ _ => by simp
  rw [evidenceLine, slots_eq_mapIdx]
  simp only [hplaces]

/-- **Verdicts grow with the evidence.** A call matches a contract if each place of the pattern
admits the argument there, or nil if there is none. The check of a contract fails for want of calls
if there are none; for want of a matching call if there are calls, but none that matches; for want
of a result if there are matching calls, but none of them has a result of the promised type; and
passes otherwise. How far it comes does not depend on the order of the calls or on their number, and
further calls never take it back. A failed check gives the lines of the calls that it has come to,
each of them once, in the order in which they occur first. -/
theorem verify_grows (c : Contract) (h : Hierarchy) :
    (∀ call, c.admits call ↔
      ∀ (i : Nat) p, c.pattern[i]? = some p → p.admits (call.arguments[i]?.getD .nil)) ∧
    (∀ real : List Call,
      ((∃ method, c.verify real h = some (.noCalls method)) ↔ real = []) ∧
      ((∃ text lines, c.verify real h = some (.noMatchingCalls text lines)) ↔
        real ≠ [] ∧ ∀ call ∈ real, ¬c.admits call) ∧
      ((∃ text lines, c.verify real h = some (.noMatchingReturnType text lines)) ↔
        (∃ call ∈ real, c.admits call) ∧ ∀ call ∈ real, c.admits call →
          ¬h.isSubtype call.resultOrNil.typeName c.returnType) ∧
      (c.verify real h = none ↔ ∃ call ∈ real, c.admits call ∧
        h.isSubtype call.resultOrNil.typeName c.returnType)) ∧
    (∀ real real' : List Call, (∀ call, call ∈ real ↔ call ∈ real') →
      stage (c.verify real h) = stage (c.verify real' h)) ∧
    (∀ real real' : List Call, real ⊆ real' →
      stage (c.verify real h) ≤ stage (c.verify real' h)) ∧
    (∀ call, c.evidenceLine call =
      "    (" ++ String.intercalate ", " (c.pattern.mapIdx fun i p =>
        if p.isWildcard then "_" else (call.arguments[i]?.getD .nil).text) ++ ") -> "
        ++ call.resultOrNil.typeName) ∧
    ∀ (real : List Call) (text : String) (lines : List String),
      (c.verify real h = some (.noMatchingCalls text lines) →
        FirstOccurrences lines (real.map c.evidenceLine)) ∧
      (c.verify real h = some (.noMatchingReturnType text lines) →
        FirstOccurrences lines ((real.filter c.admits).map c.evidenceLine)) :=
  ⟨fun _ => admits_iff,
    fun _ => ⟨exists_noCalls_iff, exists_noMatchingCalls_iff, exists_noMatchingReturnType_iff,
      verify_eq_none_iff⟩,
    fun _ _ => stage_verify_congr, fun _ _ => stage_verify_mono, evidenceLine_eq c,
    fun _ _ _ => ⟨firstOccurrences_of_noMatchingCalls, firstOccurrences_of_noMatchingReturnType⟩⟩

/-- Evidence on the income tax of a year: it is not kept by a call without a result, in whatever
order, and no call takes back what another has shown. -/
theorem verify_grows_of_incomes :
    let c := ofStub (incomeTax [.int 2020] (.int 1))
    let earlier := incomeTax [.int 2019] (.int 3)
    let unpaid := incomeTax [.int 2020] .nil
    let paid := incomeTax [.int 2020] (.int 3)
    (∀ call, call ∈ [earlier, unpaid] ↔ call ∈ [unpaid, earlier, unpaid]) ∧
      stage (c.verify [earlier, unpaid] .builtin) =
        stage (c.verify [unpaid, earlier, unpaid] .builtin) ∧
      [earlier, unpaid] ⊆ [paid, earlier, unpaid] ∧
      stage (c.verify [earlier, unpaid] .builtin) ≤
        stage (c.verify [paid, earlier, unpaid] .builtin) ∧
      c.verify [earlier, unpaid] .builtin =
        some (.noMatchingReturnType c.text (c.evidence [unpaid])) ∧
      FirstOccurrences (c.evidence [unpaid])
        (([earlier, unpaid].filter c.admits).map c.evidenceLine) := by
  intro c earlier unpaid paid
  obtain ⟨-, -, hcongr, hmono, -, hevidence⟩ := verify_grows c .builtin
  have hmem : ∀ call, call ∈ [earlier, unpaid] ↔ call ∈ [unpaid, earlier, unpaid] := by
    intro call
    simp only [List.mem_cons, List.not_mem_nil, or_false]
    tauto
  have hsub : [earlier, unpaid] ⊆ [paid, earlier, unpaid] := List.subset_cons_self ..
  have houtcome : c.verify [earlier, unpaid] .builtin =
      some (.noMatchingReturnType c.text (c.evidence [unpaid])) := rfl
  exact ⟨hmem, hcongr _ _ hmem, hsub, hmono _ _ hsub, houtcome, (hevidence _ _ _).2 houtcome⟩

end Contract

end MockAudit
