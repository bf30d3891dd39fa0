import MockAudit.Proofs.InferredSignatures
import MockAudit.Recording.File

/-!
# Arguments of recorded calls

The named flag of a recorded call is read on its own: nothing relates it to the arguments it is
about. A flag that is set over no arguments makes a call that has no positional arguments, and such
a call can neither be checked nor serve for inference. A flag that is set over a last argument other
than a map makes a call that can be verified, but nobody looks at that argument.

These are the only ways in which a recording that loads fails to be verified with all of its
arguments (`Recording.isVerifiable_restoreCalls`), since restoring a call keeps the number of its
arguments and the kinds of their values.

## Main definitions

* `Call.IsVerifiable`: a call that can be checked and filtered.
* `Call.ShowsArguments`: a call whose arguments are the positional ones and the named ones.
* `RecordedCall.IsWellFlagged`, `CallSnapshot.IsWellNamed`: what the flag of a record needs.

## Main results

* `Call.isVerifiable_iff`, `Inference.exists_infer_iff`: verification needs well-flagged calls.
* `Call.showsArguments_iff`: showing all arguments needs a map of names.
* `Recording.isVerifiable_restoreCalls`: the calls of a recording.
* `misflagged_isOverlooked`: a recording in which both is missing.
-/

namespace MockAudit

/-! ### Verifiable calls -/

namespace Call

/-- A call that can be checked against any signature, and that any filter can decide on. -/
def IsVerifiable (c : Call) : Prop :=
  (∀ (s : Signature) (h : Hierarchy), ∃ result, s.check c h = .ok result) ∧
    ∀ f : ArtifactFilter, ∃ artifact, f.isArtifact c = .ok artifact

/-- A call whose arguments are its positional arguments, followed by the map of its named arguments
if there are any. -/
def ShowsArguments (c : Call) : Prop :=
  ∃ vs, c.positional = .ok vs ∧ c.arguments = vs ++ if c.hasNamed then [.map c.named] else []

variable {c : Call}

/-- Exactly the well-flagged calls can be verified. -/
theorem isVerifiable_iff : c.IsVerifiable ↔ c.IsWellFlagged := by
  constructor
  · intro h
    -- A call without positional arguments fails against any signature.
    obtain ⟨result, hresult⟩ := h.1 ⟨[], none, [], none, .self⟩ Hierarchy.builtin
    exact isWellFlagged_of_check hresult
  · intro h
    exact ⟨fun s hierarchy => s.exists_check hierarchy h, fun f => f.exists_isArtifact h⟩

/-- All arguments are shown exactly if a map stands where the flag says that there are names. -/
theorem showsArguments_iff : c.ShowsArguments ↔
    (c.hasNamed = true → ∃ entries, c.arguments.getLast? = some (.map entries)) := by
  rw [ShowsArguments, positional]
  cases hnamed : c.hasNamed with
  | false => simp
  | true =>
    simp only [if_true, forall_const]
    constructor
    · rintro ⟨vs, -, harguments⟩
      exact ⟨c.named, by rw [harguments, List.getLast?_concat]⟩
    · rintro ⟨entries, hlast⟩
      have hne : c.arguments ≠ [] := by
        intro harguments
        rw [harguments] at hlast
        cases hlast
      have hentries : c.named = entries := by
        rw [named, if_pos hnamed, hlast]
        rfl
      refine ⟨c.arguments.dropLast, if_neg (by simpa using hne), ?_⟩
      rw [hentries]
      exact (List.dropLast_append_getLast? _ hlast).symm

end Call

/-- Inference succeeds on exactly the lists of well-flagged calls. -/
theorem Inference.exists_infer_iff {calls : List Call} :
    (∃ inferred, infer calls = .ok inferred) ↔ ∀ c ∈ calls, c.IsWellFlagged := by
  constructor
  · rintro ⟨inferred, hinfer⟩ c hc
    have hmethod : c.key ∈ methods calls := by
      rw [methods, List.mem_eraseDups]
      exact List.mem_map_of_mem hc
    obtain ⟨profile, hprofile⟩ := exists_of_mapM_eq_ok hinfer c.key hmethod
    have hgroup : c ∈ calls.filter (·.key == c.key) := List.mem_filter.mpr ⟨hc, by simp⟩
    obtain ⟨rows, hrows, -⟩ := exists_of_bind_eq_ok hprofile
    exact Call.isWellFlagged_iff.mpr (exists_of_mapM_eq_ok hrows c hgroup)
  · intro h
    exact ⟨_, infer_of_positional fun c hc => Call.positional_eq_of_flag (h c hc)⟩

/-! ### Restored calls -/

namespace Snapshot

/-- Only maps are restored as maps. -/
theorem exists_restore_eq_map (s : Snapshot) (heap : Heap) :
    (∃ entries, (s.restore heap).1 = .map entries) ↔ ∃ entries, s = .map entries := by
  cases s <;> simp [restore, Heap.newObject, Heap.newDouble]

theorem restoreItems_eq_nil_iff (ss : List Snapshot) (heap : Heap) :
    (restoreItems ss heap).1 = [] ↔ ss = [] := by
  cases ss <;> simp [restoreItems]

/-- The last of several values is a map if the last of the snapshots is. -/
theorem exists_getLast?_restoreItems (ss : List Snapshot) (heap : Heap) :
    (∃ entries, (restoreItems ss heap).1.getLast? = some (.map entries)) ↔
      ∃ entries, ss.getLast? = some (.map entries) := by
  induction ss generalizing heap with
  | nil => simp [restoreItems]
  | cons s ss ih =>
    cases ss with
    | nil => simpa [restoreItems] using s.exists_restore_eq_map heap
    | cons t ss =>
      simpa [restoreItems, List.getLast?_cons_cons] using ih (s.restore heap).2

end Snapshot

/-- A record whose named flag is not set over an empty argument list. -/
def RecordedCall.IsWellFlagged {V : Type} (r : RecordedCall V) : Prop :=
  r.namedFlag = some true → r.arguments ≠ []

namespace CallSnapshot

/-- A record whose last argument is a map if its named flag is set. -/
def IsWellNamed (r : CallSnapshot) : Prop :=
  r.namedFlag = some true → ∃ entries, r.arguments.getLast? = some (.map entries)

variable {r : CallSnapshot} {heap heap' : Heap} {c : Call}

/-- A restored call has the restored arguments and the recorded flag. -/
theorem restore_eq_ok (h : r.restore heap = .ok (c, heap')) :
    c.arguments = (Snapshot.restoreItems r.arguments heap).1 ∧
      c.namedFlag = some (r.namedFlag.getD false) := by
  obtain ⟨c', hcall, hpair⟩ := exists_of_bind_eq_ok h
  cases hpair
  rw [RecordedCall.toCall] at hcall
  split at hcall
  · cases hcall
  · cases hcall
    exact ⟨rfl, rfl⟩

/-- Restoring keeps what a flag needs, and what it lacks. -/
theorem isWellFlagged_iff_of_restore (h : r.restore heap = .ok (c, heap')) :
    r.IsWellFlagged ↔ c.IsWellFlagged := by
  obtain ⟨harguments, hflag⟩ := restore_eq_ok h
  rw [RecordedCall.IsWellFlagged, Call.IsWellFlagged, hflag, harguments, ne_eq, ne_eq,
    Snapshot.restoreItems_eq_nil_iff]
  simp [Option.getD_eq_iff]

private theorem isWellNamed_iff_of_restore (h : r.restore heap = .ok (c, heap')) :
    r.IsWellNamed ↔ c.ShowsArguments := by
  obtain ⟨harguments, hflag⟩ := restore_eq_ok h
  rw [IsWellNamed, Call.showsArguments_iff, Call.hasNamed, hflag, harguments,
    Snapshot.exists_getLast?_restoreItems]
  simp [Option.getD_eq_iff]

/-- Calls are restored one by one. -/
theorem forall₂_restoreAll {rs : List CallSnapshot} {cs : List Call}
    (h : restoreAll rs heap = .ok (cs, heap')) :
    List.Forall₂ (fun r c => ∃ heap heap', CallSnapshot.restore r heap = .ok (c, heap')) rs cs := by
  induction rs generalizing heap cs with
  | nil =>
    cases h
    exact .nil
  | cons r rs ih =>
    obtain ⟨⟨c, next⟩, hr, hrest⟩ := exists_of_bind_eq_ok h
    obtain ⟨⟨rest, last⟩, hrs, hcons⟩ := exists_of_bind_eq_ok hrest
    cases hcons
    exact .cons ⟨heap, next, hr⟩ (ih hrs)

end CallSnapshot

/-- Lists whose members correspond have a property each together. -/
theorem forall_mem_iff_of_forall₂ {α β : Type} {p : α → Prop} {q : β → Prop} {as : List α}
    {bs : List β} (h : List.Forall₂ (fun a b => p a ↔ q b) as bs) :
    (∀ a ∈ as, p a) ↔ ∀ b ∈ bs, q b := by
  induction h with
  | nil => simp
  | cons hab _ ih => rw [List.forall_mem_cons, List.forall_mem_cons, hab, ih]

/-- **The calls of a recording** can be checked and filtered if their named flags are set over some
arguments at least, and inference needs this of all of them. All of their arguments are seen if the
last one is a map wherever the flag is set. -/
theorem Recording.isVerifiable_restoreCalls {r : Recording} {heap heap' : Heap} {calls : List Call}
    (h : r.restoreCalls heap = .ok (calls, heap')) :
    List.Forall₂ (fun (recorded : CallSnapshot) c =>
      (recorded.IsWellFlagged ↔ c.IsVerifiable) ∧ (recorded.IsWellNamed ↔ c.ShowsArguments))
      r.calls calls ∧
    ((∀ recorded ∈ r.calls, recorded.IsWellFlagged) ↔
      ∃ inferred, Inference.infer calls = .ok inferred) := by
  have hrestored := CallSnapshot.forall₂_restoreAll h
  constructor
  · refine hrestored.imp ?_
    rintro recorded c ⟨heap, heap', hc⟩
    rw [Call.isVerifiable_iff]
    exact ⟨CallSnapshot.isWellFlagged_iff_of_restore hc, CallSnapshot.isWellNamed_iff_of_restore hc⟩
  · rw [Inference.exists_infer_iff]
    refine forall_mem_iff_of_forall₂ (hrestored.imp ?_)
    rintro recorded c ⟨heap, heap', hc⟩
    exact CallSnapshot.isWellFlagged_iff_of_restore hc

/-- Two sales, the second of which names an argument. -/
def sales : Recording where
  calls :=
    [{ method := "Till#ring", arguments := [.int 4] },
     { method := "Till#ring", arguments := [.int 4, .map [(.symbol "gift", .bool true)]],
       namedFlag := some true }]

private theorem sales_isWellNamed : ∀ recorded ∈ sales.calls, recorded.IsWellNamed :=
  List.forall_mem_cons.mpr ⟨nofun, List.forall_mem_singleton.mpr fun _ => ⟨_, rfl⟩⟩

private theorem sales_isWellFlagged : ∀ recorded ∈ sales.calls, recorded.IsWellFlagged :=
  List.forall_mem_cons.mpr ⟨nofun, List.forall_mem_singleton.mpr fun _ => nofun⟩

/-- The calls of the sales are restored, and nothing in them is overlooked. -/
theorem isVerifiable_restoreCalls_sales : ∃ calls heap,
    sales.restoreCalls Heap.empty = .ok (calls, heap) ∧
    (∀ c ∈ calls, c.IsVerifiable) ∧ (∀ c ∈ calls, c.ShowsArguments) ∧
    ∃ inferred, Inference.infer calls = .ok inferred := by
  obtain ⟨⟨calls, heap⟩, hcalls⟩ : ∃ restored, sales.restoreCalls Heap.empty = .ok restored := by
    have hsome : (sales.restoreCalls Heap.empty).toOption.isSome = true := by decide +kernel
    cases hrestored : sales.restoreCalls Heap.empty with
    | error e =>
      rw [hrestored] at hsome
      cases hsome
    | ok restored => exact ⟨restored, rfl⟩
  obtain ⟨heach, hinfer⟩ := Recording.isVerifiable_restoreCalls hcalls
  exact ⟨calls, heap, hcalls,
    (forall_mem_iff_of_forall₂ (heach.imp fun _ _ h => h.1)).mp sales_isWellFlagged,
    (forall_mem_iff_of_forall₂ (heach.imp fun _ _ h => h.2)).mp sales_isWellNamed,
    hinfer.mp sales_isWellFlagged⟩

/-- Two calls with named flags, the first over no arguments and the second over a number. -/
def misflagged : String :=
  "\x7b\"calls\":[\x7b\"method\":\"T#m\",\"named_args\":true\x7d," ++
    "\x7b\"method\":\"T#m\",\"arguments\":[\x7b\"Int\":1\x7d],\"named_args\":true\x7d]\x7d"

/-- They can be read and restored. But nothing can be inferred from them, and the number is seen
neither among the positional nor among the named arguments. -/
theorem misflagged_isOverlooked : ∃ r ∈ Recording.parse? misflagged,
    ∃ restored ∈ (r.restoreCalls Heap.empty).toOption,
      Inference.infer restored.1 = .error .namedFlagWithoutArguments ∧
      ∃ c ∈ restored.1, c.positional.map List.length = .ok 0 ∧ c.named.length = 0 ∧
        c.arguments.length = 1 := by
  decide +kernel

end MockAudit
