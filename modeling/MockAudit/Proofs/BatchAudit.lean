import MockAudit.Audit
import MockAudit.Proofs.Displacement
import MockAudit.Proofs.InferredSignatures
import MockAudit.Proofs.NamedFlags

/-!
# Batch audits

Each of the two passes of an audit goes through a list of subjects and reaches a verdict on every
one of them. The offenders it answers are the subjects with a failure, in order, each of them once
and with its own failure attached (`Audited`). A verdict is a function of the subject alone and of
what the pass knows before it looks at any subject: the contract pass looks at the real calls of the
method of the stub, and the type pass asks a checker that has learned from real calls. So what else
is in the list makes no difference.

An audit that is concluded answers the offenders of the type pass among its stored calls and then
those of the contract pass among its stubs (`Audit.IsDue.exists_conclude`).

## Main definitions

* `Audited`: a list of subjects with their verdicts and the offenders among them.
* `ContractPass.verdict`, `TypePass.verdict`: the verdicts of the two passes.
* `Audit.IsDue`: an audit that can be concluded.

## Main results

* `ContractPass.audited_run`, `TypePass.exists_run`: the passes are batch audits.
* `Audit.IsDue.exists_conclude`: the conclusion of an audit.
* `passes_audit_in_batches`: all of it together.
-/

namespace MockAudit

/-! ### Verdicts -/

/-- A call after a verdict: a failure is attached to it, and else it stays as it is. -/
def Call.judged (c : Call) : Option Failure → Call
  | none => c
  | some f => c.blame f

/-- Subjects with their verdicts, one for each, and the offenders among them: those with a failure,
in order, each with its own failure attached. -/
inductive Audited : List Call → List (Option Failure) → List Call → Prop
  | nil : Audited [] [] []
  | passed {subjects : List Call} {verdicts : List (Option Failure)} {offenders : List Call}
      (c : Call) (h : Audited subjects verdicts offenders) :
    Audited (c :: subjects) (none :: verdicts) offenders
  | failed {subjects : List Call} {verdicts : List (Option Failure)} {offenders : List Call}
      (c : Call) (f : Failure) (h : Audited subjects verdicts offenders) :
    Audited (c :: subjects) (some f :: verdicts) (c.blame f :: offenders)

/-! ### The contract pass -/

namespace ContractPass

variable {real real' stubs : List Call} {h : Hierarchy} {stub : Call} {f : Failure}

/-- The verdict of the pass on a stub. -/
def verdict (real : List Call) (h : Hierarchy) (stub : Call) : Option Failure :=
  (failure? real h stub).map .contract

/-- A stub fails if its contract says something that the real calls of its method do not bear
out. -/
theorem verdict_eq_some : verdict real h stub = some f ↔
    (Contract.ofStub stub).isVacuous = false ∧ ∃ g,
      (Contract.ofStub stub).verify (real.filter (·.key == stub.key)) h = some g ∧
        f = .contract g := by
  rw [verdict, Option.map_eq_some_iff, failure?]
  cases (Contract.ofStub stub).isVacuous <;> simp [eq_comm]

/-- Only the real calls of its own method matter for a stub. -/
theorem verdict_congr
    (hreal : real.filter (·.key == stub.key) = real'.filter (·.key == stub.key)) :
    verdict real h stub = verdict real' h stub := by
  rw [verdict, verdict, failure?, failure?, hreal]

/-- What the pass does to a stub is determined by its verdict. -/
theorem mark_eq_judged (real : List Call) (h : Hierarchy) :
    mark real h = fun stub => stub.judged (verdict real h stub) := by
  funext stub
  rw [mark, verdict]
  cases failure? real h stub <;> rfl

private theorem audited_offenses (real : List Call) (h : Hierarchy) (stubs : List Call) :
    Audited stubs (stubs.map (verdict real h)) (offenses real h stubs) := by
  induction stubs with
  | nil => exact .nil
  | cons stub stubs ih =>
    rw [List.map_cons, offenses, List.filterMap_cons, verdict]
    cases failure? real h stub with
    | none => exact .passed stub ih
    | some f => exact .failed stub (.contract f) ih

/-- **The contract pass** audits the stubs. -/
theorem audited_run (real : List Call) (h : Hierarchy) (stubs : List Call) :
    Audited stubs (stubs.map (verdict real h)) (run real h stubs).value :=
  audited_offenses real h stubs

end ContractPass

/-! ### The type pass -/

namespace TypePass

variable {checker : Checker} {env : Environment} {real mocked : List Call} {strict : Bool}

/-- The verdict on a call of a checker that has one. -/
def verdict (checker : Checker) (env : Environment) (strict : Bool) (c : Call) : Option Failure :=
  match checker.check env c strict with
  | .ok failure => failure.map .typeCheck
  | .error _ => none

/-- A call fails if the check of the checker fails. -/
theorem verdict_eq_some {c : Call} {f : Failure} : verdict checker env strict c = some f ↔
    ∃ g, checker.check env c strict = .ok (some g) ∧ f = .typeCheck g := by
  rw [verdict]
  cases checker.check env c strict with
  | error fault => simp
  | ok failure => cases failure <;> simp [eq_comm]

/-- Well-flagged calls can all be checked. -/
theorem exists_offenses (hmocked : ∀ c ∈ mocked, c.IsWellFlagged) :
    ∃ found, offenses checker env strict mocked = .ok found ∧
      Audited mocked (mocked.map (verdict checker env strict)) found := by
  induction mocked with
  | nil => exact ⟨[], rfl, .nil⟩
  | cons c mocked ih =>
    obtain ⟨hc, hrest⟩ := List.forall_mem_cons.mp hmocked
    obtain ⟨failure, hcheck⟩ := checker.exists_check env strict hc
    obtain ⟨found, hfound, haudited⟩ := ih hrest
    rw [offenses, hcheck, hfound, List.map_cons, verdict, hcheck]
    cases failure with
    | none => exact ⟨_, rfl, .passed c haudited⟩
    | some f => exact ⟨_, rfl, .failed c (.typeCheck f) haudited⟩

/-- **The type pass** learns from well-flagged real calls and audits well-flagged mocked calls. -/
theorem exists_run (checker : Checker) (env : Environment) (strict : Bool)
    (hreal : ∀ c ∈ real, c.IsWellFlagged) : ∃ inferred, Inference.infer real = .ok inferred ∧
      ∀ mocked : List Call, (∀ c ∈ mocked, c.IsWellFlagged) →
        ∃ pass, run checker env real mocked strict = .ok pass ∧
          pass.value.1 = checker.learn inferred ∧
          Audited mocked (mocked.map (verdict (checker.learn inferred) env strict))
            pass.value.2 := by
  refine ⟨_, Inference.infer_of_positional fun c hc => Call.positional_eq_of_flag (hreal c hc),
    fun mocked hmocked => ?_⟩
  obtain ⟨found, hfound, haudited⟩ := exists_offenses hmocked
  obtain ⟨pass, hrun, hvalue⟩ := run_eq_ok
    (Inference.infer_of_positional fun c hc => Call.positional_eq_of_flag (hreal c hc)) hfound
  exact ⟨pass, hrun, congrArg Prod.fst hvalue, by rwa [hvalue]⟩

end TypePass

/-! ### Stubs of a registry -/

private theorem Registry.stubs_mapStubs (r : Registry) (f : Call → Call) :
    (r.mapStubs f).stubs = r.stubs.map f := by
  simp [Registry.stubs, Registry.mapStubs, List.map_flatMap, List.flatMap_map]

/-! ### Conclusions -/

/-- What may be entered from a later phase may be entered from an earlier one. -/
theorem Phase.mayEnter_trans {p q r : Phase} (h : p.mayEnter q = true) (h' : q.mayEnter r = true) :
    p.mayEnter r = true :=
  decide_eq_true (Nat.lt_trans (of_decide_eq_true h) (of_decide_eq_true h'))

namespace Audit

variable {a : Audit}

/-- An audit that can be concluded: it has not been before, there is a checker if the type pass
needs one, and all calls that were collected are well-flagged. -/
structure IsDue (a : Audit) : Prop where
  phase : a.phase.mayEnter .draining = true
  checker : a.configuration.autoTypeCheck = true → a.machine.checker.isSome = true
  captured : ∀ (k : Nat) (t : Tracer), a.tracer = some k → a.machine.tracers[k]? = some t →
    ∀ c ∈ t.captured, c.IsWellFlagged
  realCalls : ∀ c ∈ a.realCalls, c.IsWellFlagged
  mockedCalls : ∀ c ∈ a.mockedCalls, c.IsWellFlagged

/-- An audit later in the same run: the settings, the stored calls and the declared types are the
same. -/
structure Follows (a b : Audit) : Prop where
  configuration : b.configuration = a.configuration
  mockedCalls : b.mockedCalls = a.mockedCalls
  environment : b.machine.environment = a.machine.environment
  hierarchy : b.hierarchy = a.hierarchy

private theorem enter_of_mayEnter {next : Phase} (h : a.phase.mayEnter next = true) :
    ∃ lines, a.enter next =
      .ok { a with phase := next, machine := { a.machine with log := lines } } := by
  rw [enter, if_pos h]
  exact ⟨_, rfl⟩

theorem exists_enter {next : Phase} (h : a.phase.mayEnter next = true) :
    ∃ b, a.enter next = .ok b ∧ a.Follows b ∧ b.registry = a.registry ∧
      b.realCalls = a.realCalls ∧ b.machine.checker = a.machine.checker ∧ b.phase = next := by
  obtain ⟨lines, hentered⟩ := enter_of_mayEnter h
  exact ⟨_, hentered, ⟨rfl, rfl, rfl, rfl⟩, rfl, rfl, rfl, rfl⟩

/-- A tracer whose records can be filtered can be stopped, and it returns real calls only. -/
theorem exists_stopTracer_of_captured {m : Machine} {k : Nat}
    (h : ∀ t : Tracer, m.tracers[k]? = some t → ∀ c ∈ t.captured, c.IsWellFlagged) :
    ∃ m' calls, m.stopTracer k = .ok (m', calls) ∧ ∀ c ∈ calls, c.IsWellFlagged := by
  rw [Machine.stopTracer]
  cases ht : m.tracers[k]? with
  | none => exact ⟨m, [], rfl, List.forall_mem_nil _⟩
  | some t =>
    have hcaptured := h t ht
    rw [Tracer.captured] at hcaptured
    cases hstate : t.state with
    | stopped calls stats =>
      simp only [hstate] at hcaptured ⊢
      exact ⟨m, calls, rfl, hcaptured⟩
    | ready | running i =>
      simp only [hstate] at hcaptured ⊢
      obtain ⟨kept, hkept⟩ := t.filter.exists_keepReal hcaptured
      rw [hkept]
      exact ⟨_, kept, rfl, fun c hc =>
        hcaptured c ((ArtifactFilter.sublist_of_keepReal hkept).subset hc)⟩

/-- Draining stops the tracer, if there is one, and changes nothing that the passes look at but the
real calls. -/
theorem exists_drain
    (hcaptured : ∀ (k : Nat) (t : Tracer), a.tracer = some k → a.machine.tracers[k]? = some t →
      ∀ c ∈ t.captured, c.IsWellFlagged)
    (hreal : ∀ c ∈ a.realCalls, c.IsWellFlagged) :
    ∃ b, a.drain = .ok b ∧ a.Follows b ∧ b.registry = a.registry ∧
      b.machine.checker = a.machine.checker ∧ b.phase = a.phase ∧
      ∀ c ∈ b.realCalls, c.IsWellFlagged := by
  rw [drain]
  cases htracer : a.tracer with
  | none => exact ⟨a, rfl, ⟨rfl, rfl, rfl, rfl⟩, rfl, rfl, rfl, hreal⟩
  | some k =>
    obtain ⟨m', calls, hstop, hcalls⟩ := exists_stopTracer_of_captured (hcaptured k · htracer)
    obtain ⟨methods, subscribers, tracers, log, rfl⟩ := Machine.stopTracer_eq hstop
    simp only [hstop]
    exact ⟨_, rfl, ⟨rfl, rfl, rfl, rfl⟩, rfl, rfl, rfl, hcalls⟩

/-- The offenses of the type pass of an audit with given real calls. Without a type pass there are
none. -/
def TypeOffenses (a : Audit) (real types : List Call) : Prop :=
  if a.configuration.autoTypeCheck then
    ∃ checker inferred, a.machine.checker = some checker ∧ Inference.infer real = .ok inferred ∧
      Audited a.mockedCalls
        (a.mockedCalls.map (TypePass.verdict (checker.learn inferred) a.machine.environment
          a.configuration.raiseOnMissingAutoTypes)) types
  else types = []

/-- The offenses of the contract pass of an audit with given real calls, and its stubs after the
pass. Without a contract pass there are no offenses, and the stubs stay as they are. -/
def ContractOffenses (a : Audit) (real contracts stubs : List Call) : Prop :=
  if a.configuration.verifyMockContracts then
    Audited a.registry.stubs (a.registry.stubs.map (ContractPass.verdict real a.hierarchy))
      contracts ∧
    stubs = a.registry.stubs.map fun stub =>
      stub.judged (ContractPass.verdict real a.hierarchy stub)
  else contracts = [] ∧ stubs = a.registry.stubs

variable {b : Audit} {real types contracts stubs : List Call}

theorem Follows.typeOffenses (h : a.Follows b) (hchecker : b.machine.checker = a.machine.checker)
    (hb : b.TypeOffenses real types) : a.TypeOffenses real types := by
  rwa [TypeOffenses, h.configuration, h.mockedCalls, h.environment, hchecker] at hb

theorem Follows.contractOffenses (h : a.Follows b) (hregistry : b.registry = a.registry)
    (hb : b.ContractOffenses real contracts stubs) : a.ContractOffenses real contracts stubs := by
  rwa [ContractOffenses, h.configuration, h.hierarchy, hregistry] at hb

private theorem exists_passIf_typePass (hphase : a.phase = .draining)
    (hchecker : a.configuration.autoTypeCheck = true → a.machine.checker.isSome = true)
    (hreal : ∀ c ∈ a.realCalls, c.IsWellFlagged) (hmocked : ∀ c ∈ a.mockedCalls, c.IsWellFlagged) :
    ∃ b types, a.passIf a.configuration.autoTypeCheck typePass = (b, .ok types) ∧
      a.Follows b ∧ b.registry = a.registry ∧ b.realCalls = a.realCalls ∧
      b.phase.mayEnter .contractVerifying = true ∧ a.TypeOffenses a.realCalls types := by
  rw [passIf]
  cases hauto : a.configuration.autoTypeCheck with
  | false =>
    refine ⟨a, [], rfl, ⟨rfl, rfl, rfl, rfl⟩, rfl, rfl, ?_, ?_⟩
    · rw [hphase]
      rfl
    · rw [TypeOffenses, hauto]
      rfl
  | true =>
    obtain ⟨checker, hchecker⟩ := Option.isSome_iff_exists.mp (hchecker hauto)
    obtain ⟨inferred, hinfer, hpasses⟩ := TypePass.exists_run checker a.machine.environment
      a.configuration.raiseOnMissingAutoTypes hreal
    obtain ⟨pass, hrun, -, haudited⟩ := hpasses a.mockedCalls hmocked
    have hmayEnter : a.phase.mayEnter .typeChecking = true := by rw [hphase]; rfl
    obtain ⟨entered, hentered, hsame, hregistry, hrealCalls, hchecker', hphase'⟩ :=
      exists_enter hmayEnter
    rw [← hsame.environment, ← hrealCalls, ← hsame.mockedCalls, ← hsame.configuration] at hrun
    rw [if_pos rfl, typePass, hentered]
    simp only [hchecker', hchecker, hrun]
    refine ⟨_, _, rfl, ⟨hsame.configuration, hsame.mockedCalls, hsame.environment, hsame.hierarchy⟩,
      hregistry, hrealCalls, ?_, ?_⟩
    · change entered.phase.mayEnter .contractVerifying = true
      rw [hphase']
      rfl
    · rw [TypeOffenses, if_pos hauto]
      exact ⟨checker, inferred, hchecker, hinfer, haudited⟩

private theorem exists_passIf_contractPass (hphase : a.phase.mayEnter .contractVerifying = true) :
    ∃ b contracts, a.passIf a.configuration.verifyMockContracts contractPass = (b, .ok contracts) ∧
      b.phase.mayEnter .reported = true ∧
      a.ContractOffenses a.realCalls contracts b.registry.stubs := by
  rw [passIf]
  cases hverify : a.configuration.verifyMockContracts with
  | false =>
    refine ⟨a, [], rfl, Phase.mayEnter_trans hphase rfl, ?_⟩
    rw [ContractOffenses, hverify]
    exact ⟨rfl, rfl⟩
  | true =>
    obtain ⟨lines, hentered⟩ := enter_of_mayEnter hphase
    rw [if_pos rfl, contractPass, hentered]
    refine ⟨_, _, rfl, rfl, ?_⟩
    rw [ContractOffenses, if_pos hverify]
    refine ⟨ContractPass.audited_run a.realCalls a.hierarchy a.registry.stubs, ?_⟩
    rw [← ContractPass.mark_eq_judged]
    exact a.registry.stubs_mapStubs _

/-- The passes of an audit that has been drained, one after the other. -/
theorem exists_passes (hphase : a.phase = .draining)
    (hchecker : a.configuration.autoTypeCheck = true → a.machine.checker.isSome = true)
    (hreal : ∀ c ∈ a.realCalls, c.IsWellFlagged) (hmocked : ∀ c ∈ a.mockedCalls, c.IsWellFlagged) :
    ∃ final types contracts,
      ((a.passIf a.configuration.autoTypeCheck typePass).andThen fun a mismatched =>
        (a.passIf a.configuration.verifyMockContracts contractPass).andThen fun a unbacked =>
        match a.enter .reported with
        | .error e => (a, .error e)
        | .ok a => (a, .ok (mismatched ++ unbacked))) = (final, .ok (types ++ contracts)) ∧
      a.TypeOffenses a.realCalls types ∧
      a.ContractOffenses a.realCalls contracts final.registry.stubs := by
  obtain ⟨b, types, htypePass, hfollows, hregistry, hrealCalls, hphase, htypes⟩ :=
    exists_passIf_typePass hphase hchecker hreal hmocked
  obtain ⟨b', contracts, hcontractPass, hphase', hcontracts⟩ := exists_passIf_contractPass hphase
  obtain ⟨final, hentered, -, hregistry', -⟩ := exists_enter hphase'
  rw [hrealCalls, ← hregistry'] at hcontracts
  refine ⟨final, types, contracts, ?_, htypes, hfollows.contractOffenses hregistry hcontracts⟩
  simp only [htypePass, Step.andThen, hcontractPass, hentered]

/-- **The conclusion** of an audit that is due answers the offenses of the type pass, followed by
those of the contract pass. -/
theorem IsDue.exists_conclude (h : a.IsDue) (debugRequest : Option String) :
    ∃ entered drained final types contracts, a.enter .draining = .ok entered ∧
      entered.drain = .ok drained ∧
      a.conclude debugRequest = (final, .ok (types ++ contracts)) ∧
      a.TypeOffenses drained.realCalls types ∧
      a.ContractOffenses drained.realCalls contracts final.registry.stubs := by
  obtain ⟨lines, hentered⟩ := enter_of_mayEnter h.phase
  obtain ⟨drained, hdrain, hfollows, hregistry, hchecker, hphase, hreal⟩ :=
    exists_drain (a := { a with phase := .draining, machine := { a.machine with log := lines } })
      h.captured h.realCalls
  replace hfollows : a.Follows drained :=
    ⟨hfollows.configuration, hfollows.mockedCalls, hfollows.environment, hfollows.hierarchy⟩
  have hneeded : drained.configuration.autoTypeCheck = true →
      drained.machine.checker.isSome = true := by
    rw [hfollows.configuration, hchecker]
    exact h.checker
  have hmocked : ∀ c ∈ drained.mockedCalls, c.IsWellFlagged := by
    rw [hfollows.mockedCalls]
    exact h.mockedCalls
  simp only [conclude, hentered, hdrain]
  -- Whether debug output is asked for makes a difference to the log only.
  split
  · obtain ⟨final, types, contracts, hpasses, htypes, hcontracts⟩ :=
      exists_passes (a := drained.write _) hphase hneeded hreal hmocked
    exact ⟨_, drained, final, types, contracts, rfl, hdrain, hpasses,
      hfollows.typeOffenses hchecker htypes, hfollows.contractOffenses hregistry hcontracts⟩
  · obtain ⟨final, types, contracts, hpasses, htypes, hcontracts⟩ :=
      exists_passes hphase hneeded hreal hmocked
    exact ⟨_, drained, final, types, contracts, rfl, hdrain, hpasses,
      hfollows.typeOffenses hchecker htypes, hfollows.contractOffenses hregistry hcontracts⟩

end Audit

/-- **Batch audits with independent verdicts.** The contract pass answers the stubs whose contract
says something and is not borne out by the real calls of their method, each with its failure, and it
changes nothing else in any stub; other stubs and the real calls of other methods make no
difference. The type pass, with any checker and over well-flagged calls, answers the mocked calls
that fail the check of the checker after it has learned from the real calls, each with its failure,
and the verdict does not depend on the other mocked calls. An audit that is concluded answers what
the type pass finds among its stored calls and then what the contract pass finds among its stubs. -/
theorem passes_audit_in_batches :
    (∀ (real : List Call) (h : Hierarchy),
      (∀ stub f, ContractPass.verdict real h stub = some f ↔
        (Contract.ofStub stub).isVacuous = false ∧ ∃ g,
          (Contract.ofStub stub).verify (real.filter (·.key == stub.key)) h = some g ∧
            f = .contract g) ∧
      (∀ real' stub, real.filter (·.key == stub.key) = real'.filter (·.key == stub.key) →
        ContractPass.verdict real h stub = ContractPass.verdict real' h stub) ∧
      (∀ stubs, Audited stubs (stubs.map (ContractPass.verdict real h))
        (ContractPass.run real h stubs).value) ∧
      ∀ r : Registry, (r.mapStubs (ContractPass.mark real h)).stubs =
        r.stubs.map fun stub => stub.judged (ContractPass.verdict real h stub)) ∧
    (∀ (checker : Checker) (env : Environment) (strict : Bool) (real : List Call),
      (∀ c ∈ real, c.IsWellFlagged) → ∃ inferred, Inference.infer real = .ok inferred ∧
        (∀ c f, TypePass.verdict (checker.learn inferred) env strict c = some f ↔
          ∃ g, (checker.learn inferred).check env c strict = .ok (some g) ∧ f = .typeCheck g) ∧
        ∀ mocked, (∀ c ∈ mocked, c.IsWellFlagged) →
          ∃ pass, TypePass.run checker env real mocked strict = .ok pass ∧
            pass.value.1 = checker.learn inferred ∧
            Audited mocked (mocked.map (TypePass.verdict (checker.learn inferred) env strict))
              pass.value.2) ∧
    ∀ (a : Audit) (debugRequest : Option String), a.IsDue →
      ∃ entered drained final types contracts, a.enter .draining = .ok entered ∧
        entered.drain = .ok drained ∧
        a.conclude debugRequest = (final, .ok (types ++ contracts)) ∧
        a.TypeOffenses drained.realCalls types ∧
        a.ContractOffenses drained.realCalls contracts final.registry.stubs := by
  refine ⟨fun real h => ⟨fun stub f => ContractPass.verdict_eq_some,
    fun real' stub => ContractPass.verdict_congr, ContractPass.audited_run real h, fun r => ?_⟩,
    fun checker env strict real hreal => ?_, fun a debugRequest h => h.exists_conclude debugRequest⟩
  · rw [Registry.stubs_mapStubs, ContractPass.mark_eq_judged]
  · obtain ⟨inferred, hinfer, hpasses⟩ := TypePass.exists_run checker env strict hreal
    exact ⟨inferred, hinfer, fun c f => TypePass.verdict_eq_some, hpasses⟩

/-! ### An audit of quotes -/

theorem quotes_isWellFlagged : ∀ c ∈ quotes, c.IsWellFlagged := by
  intro c hc
  obtain ⟨vs, hvs, -⟩ := (quotes_isDoubleFree c hc).positional
  exact Call.isWellFlagged_iff.mpr ⟨vs, hvs⟩

/-- Quotes that were really made, a mocked quote for a list of goods, and a stub that promises a
text. -/
def quoteAudit : Audit where
  configuration := { autoTypeCheck := true, verifyMockContracts := true }
  machine :=
    { checker := some (.fresh .annotations)
      tracers := [{ strategy := .wrap, capture := { records := quotes } }]
      stores := [[{ target := .typeItself "Quote", method := "price", arguments := [.array []],
                    result := some (.int 40) }]] }
  registry := Registry.empty.register
    (Registry.stub (.typeItself "Quote") "price" [] none none none (.str "free"))
  tracer := some 0
  store := 0

private theorem quoteAudit_isDue : quoteAudit.IsDue where
  phase := rfl
  checker _ := rfl
  captured := by
    rintro k t ⟨⟩ ⟨⟩
    exact quotes_isWellFlagged
  realCalls _ hc := nomatch hc
  mockedCalls := by
    intro c hc
    obtain rfl := List.mem_singleton.mp hc
    rintro ⟨⟩

/-- The audit of the quotes is due, and it comes to its conclusion. -/
theorem passes_audit_in_batches_of_quotes : quoteAudit.IsDue ∧ (∀ c ∈ quotes, c.IsWellFlagged) ∧
    (∃ inferred, Inference.infer quotes = .ok inferred ∧
      ∃ pass, TypePass.run (.fresh .annotations) Catalog.empty.environment quotes quotes true =
        .ok pass ∧ pass.value.1 = (Checker.fresh .annotations).learn inferred) ∧
    ∃ entered drained final types contracts, quoteAudit.enter .draining = .ok entered ∧
      entered.drain = .ok drained ∧
      quoteAudit.conclude none = (final, .ok (types ++ contracts)) ∧
      quoteAudit.TypeOffenses drained.realCalls types ∧
      quoteAudit.ContractOffenses drained.realCalls contracts final.registry.stubs := by
  refine ⟨quoteAudit_isDue, quotes_isWellFlagged, ?_,
    passes_audit_in_batches.2.2 quoteAudit none quoteAudit_isDue⟩
  obtain ⟨inferred, hinfer, -, hpasses⟩ := passes_audit_in_batches.2.1 (.fresh .annotations)
    Catalog.empty.environment true quotes quotes_isWellFlagged
  obtain ⟨pass, hrun, hlearned, -⟩ := hpasses quotes quotes_isWellFlagged
  exact ⟨inferred, hinfer, pass, hrun, hlearned⟩

end MockAudit
